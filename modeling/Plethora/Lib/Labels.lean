/-
# Lines that hang from one another by labels

A tree written down line by line: a line has a label of its own, the label of
its parent and a number below it, and the root's label is known beforehand. A
parent is found by its label among the lines before, so the tree can be read
only if each label used names exactly one of them (`Linked`); the numbers from
the root down to a label are then `resolve`.

The lines before are kept newest first.

Key definitions: `Line`, `Linked`, `resolve`, `Chain`, `Leads`.
Key theorems: `chain_iff`, `linked_chain_iff`, `linked_siblings_iff`,
`resolve_siblings`, `linked_leads_iff`.
-/
import Mathlib.Tactic.Common

namespace Labels

variable {α : Type} [DecidableEq α]

/-- A line of the tree. -/
structure Line (α : Type) where
  label : α
  parent : α
  id : ℕ
  deriving DecidableEq

/-- How many of the lines have this label. -/
def defs (earlier : List (Line α)) (x : α) : ℕ := earlier.countP fun l => l.label = x

/-- The parent is the root, or the label of exactly one line before. -/
def LinkedTo (root : α) (earlier : List (Line α)) (l : Line α) : Prop :=
  l.parent = root ∨ defs earlier l.parent = 1

instance (root : α) (earlier : List (Line α)) (l : Line α) : Decidable (LinkedTo root earlier l) :=
  inferInstanceAs (Decidable (_ ∨ _))

/-- Every one of the lines that follow is linked. -/
def Linked (root : α) : List (Line α) → List (Line α) → Prop
  | _, [] => True
  | earlier, l :: ls => LinkedTo root earlier l ∧ Linked root (l :: earlier) ls

/-- The numbers from the root down to a label, if its parents lead there. -/
def resolve (root : α) : List (Line α) → α → Option (List ℕ)
  | [], x => if x = root then some [] else none
  | l :: earlier, x =>
    if x = root then some []
    else if l.label = x then (resolve root earlier l.parent).map (· ++ [l.id])
    else resolve root earlier x

/-- Each of the lines that follow, with the numbers its label comes to. -/
def Leads (root : α) : List (Line α) → List (Line α × List ℕ) → Prop
  | _, [] => True
  | earlier, (l, arcs) :: ls =>
    (resolve root earlier l.parent).map (· ++ [l.id]) = some arcs ∧ Leads root (l :: earlier) ls

variable {root : α} {earlier : List (Line α)} {l : Line α} {x : α}

theorem leads_iff_split : ∀ {ls : List (Line α × List ℕ)} {earlier : List (Line α)}, Leads root earlier ls ↔
    ∀ before p after, ls = before ++ p :: after →
      (resolve root ((before.map (·.1)).reverse ++ earlier) p.1.parent).map (· ++ [p.1.id]) = some p.2
  | [], earlier => by simp [Leads]
  | (l, arcs) :: ls, earlier => by
    rw [Leads, leads_iff_split]
    constructor
    · rintro ⟨h, hs⟩ before p after he
      rcases before with _ | ⟨q, before⟩
      · cases he
        exact h
      · cases he
        simpa using hs before p after rfl
    · intro h
      refine ⟨h [] (l, arcs) ls rfl, fun before p after he => ?_⟩
      simpa using h ((l, arcs) :: before) p after (by rw [he, List.cons_append])

theorem defs_cons_self (h : l.label = x) : defs (l :: earlier) x = defs earlier x + 1 := by
  simp [defs, h]

theorem defs_cons_ne (h : l.label ≠ x) : defs (l :: earlier) x = defs earlier x := by
  simp [defs, h]

theorem defs_append (E F : List (Line α)) (x : α) : defs (E ++ F) x = defs E x + defs F x := List.countP_append

theorem defs_eq_zero : defs earlier x = 0 ↔ ∀ l ∈ earlier, l.label ≠ x := by
  simp [defs, List.countP_eq_zero]

/-- Exactly one of different lines has the label. -/
theorem defs_eq_one {ls : List (Line α)} (h : ls.Nodup) :
    defs ls x = 1 ↔ ∃ l ∈ ls, l.label = x ∧ ∀ l' ∈ ls, l'.label = x → l' = l := by
  rw [defs, List.countP_eq_length_filter]
  have hmem : ∀ l', l' ∈ ls.filter (fun l => l.label = x) ↔ l' ∈ ls ∧ l'.label = x := by
    intro l'
    rw [List.mem_filter, decide_eq_true_iff]
  constructor
  · intro h1
    obtain ⟨l, hl⟩ := List.length_eq_one_iff.mp h1
    have hm := (hmem l).mp (by rw [hl]; exact List.mem_singleton_self l)
    refine ⟨l, hm.1, hm.2, fun l' h' hx => ?_⟩
    have h'' := (hmem l').mpr ⟨h', hx⟩
    rw [hl] at h''
    exact List.mem_singleton.mp h''
  · rintro ⟨l, hl, hx, hall⟩
    have hrep := List.eq_replicate_of_mem fun l' h' => hall l' ((hmem l').mp h').1 ((hmem l').mp h').2
    have hnodup : (ls.filter fun l => l.label = x).Nodup := h.filter _
    rw [hrep, List.nodup_replicate] at hnodup
    have hpos := List.length_pos_of_mem ((hmem l).mpr ⟨hl, hx⟩)
    omega

@[simp] theorem resolve_root : ∀ earlier : List (Line α), resolve root earlier root = some []
  | [] => by simp [resolve]
  | l :: earlier => by simp [resolve]

theorem resolve_cons_self (hx : x ≠ root) (h : l.label = x) :
    resolve root (l :: earlier) x = (resolve root earlier l.parent).map (· ++ [l.id]) := by
  simp [resolve, hx, h]

theorem resolve_cons_ne (h : l.label ≠ x) : resolve root (l :: earlier) x = resolve root earlier x := by
  by_cases hx : x = root
  · rw [hx, resolve_root, resolve_root]
  · simp [resolve, hx, h]

theorem linked_append : ∀ (ls : List (Line α)) (ms earlier : List (Line α)),
    Linked root earlier (ls ++ ms) ↔ Linked root earlier ls ∧ Linked root (ls.reverse ++ earlier) ms
  | [], ms, earlier => by simp [Linked]
  | l :: ls, ms, earlier => by
    rw [List.cons_append, Linked, Linked, linked_append ls ms (l :: earlier), List.reverse_cons, List.append_assoc,
      and_assoc]
    rfl

/-- A label is no deeper than there are lines. -/
theorem resolve_length : ∀ {earlier : List (Line α)} {x : α} {p : List ℕ},
    resolve root earlier x = some p → p.length ≤ earlier.length
  | [], x, p, h => by
    unfold resolve at h
    split at h
    · cases h
      exact Nat.le_refl _
    · cases h
  | l :: earlier, x, p, h => by
    by_cases hx : x = root
    · rw [hx, resolve_root] at h
      cases h
      exact Nat.zero_le _
    · by_cases hl : l.label = x
      · rw [resolve_cons_self hx hl, Option.map_eq_some_iff] at h
        obtain ⟨q, hq, rfl⟩ := h
        rw [List.length_append, List.length_cons]
        exact Nat.succ_le_succ (resolve_length hq)
      · rw [resolve_cons_ne hl] at h
        exact Nat.le_succ_of_le (resolve_length h)

/-! ### One line below the other -/

/-- The label is that of the newest line, its parent that of the line before,
and so on down to the root. -/
def Chain (root : α) : List (Line α) → α → Prop
  | [], x => x = root
  | l :: earlier, x => x ≠ root ∧ l.label = x ∧ Chain root earlier l.parent

/-- A label as deep as there are lines hangs from all of them. -/
theorem chain_iff : ∀ {earlier : List (Line α)} {x : α},
    Chain root earlier x ↔ ∃ p, resolve root earlier x = some p ∧ p.length = earlier.length
  | [], x => by
    unfold Chain resolve
    by_cases hx : x = root
    · rw [if_pos hx]
      exact iff_of_true hx ⟨[], rfl, rfl⟩
    · rw [if_neg hx]
      exact iff_of_false hx fun ⟨p, h, _⟩ => Option.noConfusion rfl (heq_of_eq h)
  | l :: earlier, x => by
    rw [Chain, chain_iff]
    constructor
    · rintro ⟨hx, hl, p, hp, hlen⟩
      refine ⟨p ++ [l.id], by rw [resolve_cons_self hx hl, hp, Option.map_some], ?_⟩
      rw [List.length_append, hlen]
      rfl
    · rintro ⟨p, hp, hlen⟩
      have hx : x ≠ root := by
        rintro rfl
        rw [resolve_root] at hp
        cases hp
        cases hlen
      by_cases hl : l.label = x
      · rw [resolve_cons_self hx hl, Option.map_eq_some_iff] at hp
        obtain ⟨q, hq, rfl⟩ := hp
        refine ⟨hx, hl, q, hq, ?_⟩
        rw [List.length_append, List.length_cons] at hlen
        exact Nat.succ.inj hlen
      · rw [resolve_cons_ne hl] at hp
        have := resolve_length hp
        rw [List.length_cons] at hlen
        omega

theorem resolve_chain : ∀ {earlier : List (Line α)} {x : α}, Chain root earlier x →
    resolve root earlier x = some (earlier.map (·.id)).reverse
  | [], _, h => by rw [h, resolve_root]; rfl
  | l :: earlier, x, h => by
    rw [resolve_cons_self h.1 h.2.1, resolve_chain h.2.2, Option.map_some, List.map_cons, List.reverse_cons]

/-- Lines one below the other are linked if no label comes twice. -/
theorem linked_chain_iff : ∀ {earlier : List (Line α)} {l : Line α}, Chain root earlier l.parent →
    (Linked root [] (earlier.reverse ++ [l]) ↔ (earlier.map (·.label)).Nodup)
  | [], l, h => iff_of_true ⟨Or.inl h, trivial⟩ List.nodup_nil
  | l' :: earlier, l, h => by
    rw [linked_append, List.reverse_cons, linked_chain_iff h.2.2, List.map_cons, List.nodup_cons, and_comm]
    refine and_congr_left fun _ => ?_
    have hd : defs (l' :: earlier) l.parent = 1 ↔ ∀ m ∈ earlier, m.label ≠ l.parent := by
      rw [defs_cons_self h.2.1, ← defs_eq_zero]
      omega
    have hm : l'.label ∉ earlier.map (·.label) ↔ ∀ m ∈ earlier, m.label ≠ l.parent := by
      rw [h.2.1, List.mem_map, not_exists]
      exact forall_congr' fun m => not_and
    have he : (earlier.reverse ++ [l']).reverse ++ [] = l' :: earlier := by simp
    rw [hm, ← hd, he]
    exact ⟨fun h' => h'.1.resolve_left h.1, fun h' => ⟨Or.inr h', trivial⟩⟩

/-! ### Lines below one line -/

section Siblings

variable {T : α} (hT : T ≠ root)
include hT

/-- Lines under one label are linked if none of them but the last takes it. -/
theorem linked_siblings_iff : ∀ {ls earlier : List (Line α)}, (∀ l ∈ ls, l.parent = T) →
    (Linked root earlier ls ↔ (ls ≠ [] → defs earlier T = 1 ∧ ∀ l ∈ ls.dropLast, l.label ≠ T))
  | [], earlier, _ => by simp [Linked]
  | [l], earlier, h => by
    have hp := h l (List.mem_cons_self ..)
    simp [Linked, LinkedTo, hp, hT]
  | l :: l' :: ls, earlier, h => by
    have hp := h l (List.mem_cons_self ..)
    rw [Linked, linked_siblings_iff fun m hm => h m (List.mem_cons_of_mem _ hm), LinkedTo, hp, or_iff_right hT,
      List.dropLast_cons_cons]
    constructor
    · rintro ⟨h1, h2⟩ -
      obtain ⟨h3, h4⟩ := h2 (by simp)
      refine ⟨h1, fun m hm => ?_⟩
      rcases List.mem_cons.mp hm with rfl | hm
      · intro he
        rw [defs_cons_self he] at h3
        omega
      · exact h4 m hm
    · intro h'
      obtain ⟨h1, h2⟩ := h' (by simp)
      refine ⟨h1, fun _ => ⟨?_, fun m hm => h2 m (List.mem_cons_of_mem _ hm)⟩⟩
      rw [defs_cons_ne (h2 l (List.mem_cons_self ..)), h1]

/-- What a label comes to through lines that are all below `T`. -/
theorem resolve_siblings : ∀ {ls : List (Line α)}, (∀ l ∈ ls, l.parent = T) → (∀ l ∈ ls.tail, l.label ≠ T) →
    ∀ {x : α}, x ≠ root → resolve root (ls ++ earlier) x =
      match ls.find? (·.label = x) with
      | some l => (resolve root earlier T).map (· ++ [l.id])
      | none => resolve root earlier x
  | [], _, _, x, _ => rfl
  | l :: ls, hp, ht, x, hx => by
    have hpl := fun m hm => hp m (List.mem_cons_of_mem l hm)
    have htl : ∀ m ∈ ls.tail, m.label ≠ T := fun m hm => ht m (List.mem_of_mem_tail hm)
    rw [List.cons_append, List.find?_cons]
    by_cases hl : l.label = x
    · rw [resolve_cons_self hx hl, decide_eq_true hl, hp l (List.mem_cons_self ..),
        resolve_siblings hpl htl hT]
      have hnone : ls.find? (·.label = T) = none := by
        rw [List.find?_eq_none]
        intro m hm
        simpa using ht m hm
      rw [hnone]
    · rw [resolve_cons_ne hl, decide_eq_false hl]
      exact resolve_siblings hpl htl hx

/-- A label below one of them, on a path that is as deep as it is long. -/
theorem resolve_sibling_iff {ls path : List (Line α)} {top : Line α} {P : List ℕ} {m : ℕ}
    (hp : ∀ l ∈ ls, l.parent = T) (ht : ∀ l ∈ ls.tail, l.label ≠ T) (htop : top.label = T)
    (hP : P.length = path.length) (hx : x ≠ root) :
    resolve root (ls ++ top :: path) x = some (P ++ [top.id, m]) ↔
      (∃ l, ls.find? (·.label = x) = some l ∧ l.id = m) ∧ resolve root path top.parent = some P := by
  rw [resolve_siblings hT hp ht hx, resolve_cons_self hT htop]
  cases hf : ls.find? (·.label = x) with
  | none =>
    -- too high up
    refine iff_of_false (fun h => ?_) (by simp)
    have := resolve_length h
    rw [List.length_append, List.length_cons, hP] at this
    simp at this
  | some l =>
    dsimp only
    rw [Option.map_map]
    constructor
    · intro h
      obtain ⟨q, hq, he⟩ := Option.map_eq_some_iff.mp h
      have he : q ++ [top.id, l.id] = P ++ [top.id, m] := by simpa using he
      obtain ⟨rfl, hm⟩ := List.append_inj_left' he rfl, List.append_inj_right' he rfl
      simp only [List.cons.injEq, and_true, true_and] at hm
      exact ⟨⟨l, rfl, hm⟩, hq⟩
    · rintro ⟨⟨_, ⟨⟩, rfl⟩, h⟩
      rw [h]
      simp

end Siblings

/-! ### Lines at one depth -/

/-- Lines that should all come to the same depth, two or more below the root:
each has to hang from a line before all of them. -/
theorem linked_leads_iff {N : ℕ} (hN : 2 ≤ N) : ∀ {ls : List (Line α × List ℕ)},
    (∀ p ∈ ls, p.2.length = N) → ∀ earlier : List (Line α),
    (Linked root earlier (ls.map (·.1)) ∧ Leads root earlier ls ↔
      ls.Pairwise (fun p q => p.1.label ≠ q.1.parent) ∧
      ∀ p ∈ ls, p.1.parent ≠ root ∧ defs earlier p.1.parent = 1 ∧
        (resolve root earlier p.1.parent).map (· ++ [p.1.id]) = some p.2)
  | [], _, earlier => by simp [Linked, Leads]
  | (l, arcs) :: ls, h, earlier => by
    have hlen := h _ (List.mem_cons_self ..)
    rw [List.map_cons, Linked, Leads, List.pairwise_cons, List.forall_mem_cons]
    have hrest : ∀ p ∈ ls, p.2.length = N := fun p hp => h p (List.mem_cons_of_mem _ hp)
    have ih := linked_leads_iff hN hrest (l :: earlier)
    have hfirst : LinkedTo root earlier l ∧ (resolve root earlier l.parent).map (· ++ [l.id]) = some arcs ↔
        l.parent ≠ root ∧ defs earlier l.parent = 1 ∧
          (resolve root earlier l.parent).map (· ++ [l.id]) = some arcs := by
      constructor
      · rintro ⟨hl, hr⟩
        have hroot : l.parent ≠ root := by
          intro he
          rw [he, resolve_root] at hr
          cases hr
          simp only [List.nil_append, List.length_singleton] at hlen
          omega
        exact ⟨hroot, hl.resolve_left hroot, hr⟩
      · rintro ⟨-, hl, hr⟩
        exact ⟨Or.inr hl, hr⟩
    constructor
    · rintro ⟨⟨hl, hls⟩, hr, hrs⟩
      have hf := hfirst.mp ⟨hl, hr⟩
      obtain ⟨hpair, hall⟩ := ih.mp ⟨hls, hrs⟩
      -- a line below this one would be deeper
      have hne : ∀ q ∈ ls, l.label ≠ q.1.parent := by
        intro q hq he
        obtain ⟨hq0, -, hqr⟩ := hall q hq
        have hql := h q (List.mem_cons_of_mem _ hq)
        rw [resolve_cons_self hq0 he, hr, Option.map_some, Option.some_inj] at hqr
        rw [← hqr, List.length_append, hlen] at hql
        simp at hql
      refine ⟨⟨hne, hpair⟩, hf, fun q hq => ?_⟩
      obtain ⟨hq0, hq1, hqr⟩ := hall q hq
      rw [defs_cons_ne (hne q hq)] at hq1
      rw [resolve_cons_ne (hne q hq)] at hqr
      exact ⟨hq0, hq1, hqr⟩
    · rintro ⟨⟨hne, hpair⟩, hf, hall⟩
      obtain ⟨hl, hr⟩ := hfirst.mpr hf
      obtain ⟨hls, hrs⟩ := ih.mpr ⟨hpair, fun q hq => by
        rw [defs_cons_ne (hne q hq), resolve_cons_ne (hne q hq)]
        exact hall q hq⟩
      exact ⟨⟨hl, hls⟩, hr, hrs⟩

end Labels
