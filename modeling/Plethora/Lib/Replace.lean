/-
# Literal replacement

`replace pat rep s` is `s` with every occurrence of `pat` replaced, from the
left and without overlaps: what a template is filled in with. A text is cut
where a character stands that the pattern has not: replacing in the whole is
replacing in the parts (`replace_append_text`); a text without the pattern's
first character stays, and so does another label (`Inert`).

One replacement after the other rescans what the ones before have put in; to
fill in a template is to replace all its labels at once (`fill`). A replacement
that has not the pattern's first character changes whatever has the pattern
(`replace_eq_self_iff`).

Key definitions: `replace`, `Inert`, `fill`.
Key theorems: `replace_fill`, `replace_of_not_mem`, `replace_append_text`,
`fill_label`, `replace_eq_self_iff`, `dropWhile_replace`.
-/
import Mathlib.Tactic.Common
import Mathlib.Data.Nat.Init
import Mathlib.Data.List.TakeWhile
import Plethora.Lib.Pieces
import Mathlib.Data.List.Infix
import Mathlib.Data.List.Nodup

namespace Replace

variable {α : Type} [DecidableEq α]

/-- The replacement, with so many characters of an occurrence yet to skip. -/
def go (pat rep : List α) : List α → ℕ → List α
  | [], _ => []
  | _ :: t, k + 1 => go pat rep t k
  | c :: t, 0 => if pat <+: c :: t then rep ++ go pat rep t (pat.length - 1) else c :: go pat rep t 0

/-- Every occurrence of `pat` replaced by `rep`. -/
def replace (pat rep s : List α) : List α := go pat rep s 0

variable {pat rep : List α}

@[simp] theorem replace_nil : replace pat rep [] = [] := rfl

theorem go_eq_drop : ∀ (s : List α) (k : ℕ), go pat rep s k = replace pat rep (s.drop k)
  | [], k => by
    rw [List.drop_nil]
    cases k <;> rfl
  | _ :: _, 0 => rfl
  | _ :: t, k + 1 => go_eq_drop t k

theorem replace_cons (c : α) (t : List α) : replace pat rep (c :: t) =
    if pat <+: c :: t then rep ++ replace pat rep (t.drop (pat.length - 1)) else c :: replace pat rep t := by
  rw [replace, go, go_eq_drop]
  rfl

/-- The pattern does not start here. -/
theorem replace_cons_of_head {c p : α} (hp : pat.head? = some p) (h : c ≠ p) (t : List α) :
    replace pat rep (c :: t) = c :: replace pat rep t := by
  rw [replace_cons, if_neg]
  rintro ⟨u, hu⟩
  cases pat with
  | nil => cases hp
  | cons q ps =>
    cases hp
    exact h (List.cons.inj hu).1.symm

/-- A stretch without the pattern's first character stays. -/
theorem replace_append_of_not_mem {p : α} (hp : pat.head? = some p) : ∀ {s : List α}, p ∉ s → ∀ t : List α,
    replace pat rep (s ++ t) = s ++ replace pat rep t
  | [], _, _ => rfl
  | c :: s, h, t => by
    obtain ⟨hc, hs⟩ := not_or.mp (List.mem_cons.not.mp h)
    rw [List.cons_append, replace_cons_of_head hp (Ne.symm hc), replace_append_of_not_mem hp hs,
      List.cons_append]

theorem replace_of_not_mem {p : α} (hp : pat.head? = some p) {s : List α} (h : p ∉ s) :
    replace pat rep s = s := by
  have h' : replace pat rep (s ++ []) = s ++ replace pat rep [] := replace_append_of_not_mem hp h []
  rwa [replace_nil, List.append_nil] at h'

/-! ### Filling in a template -/

/-- A stretch that replacing `pat` leaves as it is, whatever follows. -/
def Inert (pat s : List α) : Prop := ∀ rep t, replace pat rep (s ++ t) = s ++ replace pat rep t

theorem inert_of_not_mem {p : α} (hp : pat.head? = some p) {s : List α} (h : p ∉ s) : Inert pat s :=
  fun _ t => replace_append_of_not_mem hp h t

theorem Inert.append {s s' : List α} (h : Inert pat s) (h' : Inert pat s') : Inert pat (s ++ s') :=
  fun rep t => by rw [List.append_assoc, h, h', List.append_assoc]

theorem inert_nil : Inert pat [] := fun _ _ => rfl

/-- Another label, neither of the two the beginning of the other. -/
theorem inert_label {p : α} {l : List α} (hp : pat.head? = some p) (hl : l.head? = some p) (hq : p ∉ l.tail)
    (h : ¬ pat <+: l) (h' : ¬ l <+: pat) : Inert pat l := by
  cases l with
  | nil => cases hl
  | cons q qs =>
    intro rep t
    cases hl
    rw [List.tail_cons] at hq
    rw [List.cons_append, replace_cons, if_neg, replace_append_of_not_mem hp hq, List.cons_append]
    intro hpre
    rcases List.prefix_or_prefix_of_prefix hpre (List.prefix_append (p :: qs) t) with h1 | h1
    · exact h h1
    · exact h' h1

/-- A label in a text that has it once is replaced there. -/
theorem replace_fill {s s' : List α} (hp : pat ≠ []) (h : Inert pat s) (h' : Inert pat s') :
    replace pat rep (s ++ (pat ++ s')) = s ++ (rep ++ s') := by
  have hs' : replace pat rep s' = s' := by
    have h0 := h' rep []
    rwa [List.append_nil, replace_nil, List.append_nil] at h0
  rw [h]
  cases pat with
  | nil => exact absurd rfl hp
  | cons p ps =>
    have hpre : p :: ps <+: p :: (ps ++ s') := List.prefix_append (p :: ps) s'
    rw [List.cons_append, replace_cons, if_pos hpre, List.length_cons, Nat.add_sub_cancel, List.drop_left, hs']

omit [DecidableEq α] in
/-- No occurrence reaches over a character that the pattern has not. -/
theorem prefix_append_cons_iff {c : α} {s t : List α} (hc : c ∉ pat) : pat <+: s ++ c :: t ↔ pat <+: s := by
  refine ⟨fun h => ?_, fun h => h.trans (List.prefix_append ..)⟩
  rcases Nat.lt_or_ge s.length pat.length with hlt | hge
  · -- then the character is in the pattern
    refine absurd ?_ hc
    obtain ⟨u, hu⟩ := h
    have hget : (pat ++ u)[s.length]? = some c := by rw [hu]; simp
    rw [List.getElem?_append_left hlt] at hget
    exact List.mem_of_getElem? hget
  · exact List.prefix_of_prefix_length_le h (List.prefix_append ..) hge

theorem replace_append_cons {c : α} (hc : c ∉ pat) (hp : pat ≠ []) (t : List α) : ∀ s : List α,
    replace pat rep (s ++ c :: t) = replace pat rep s ++ c :: replace pat rep t := by
  intro s
  -- on the length, as an occurrence skips ahead
  induction hn : s.length using Nat.strong_induction_on generalizing s with
  | _ n ih =>
    cases s with
    | nil =>
      rw [List.nil_append, replace_cons, if_neg, replace_nil, List.nil_append]
      intro hpre
      cases pat with
      | nil => exact hp rfl
      | cons p ps => exact hc ((List.cons_prefix_cons.mp hpre).1 ▸ List.mem_cons_self ..)
    | cons d s =>
      rw [List.cons_append, replace_cons, ← List.cons_append, replace_cons]
      by_cases hpre : pat <+: d :: s
      · rw [if_pos ((prefix_append_cons_iff hc).mpr hpre), if_pos hpre]
        have hlen : pat.length - 1 ≤ s.length := by
          have := hpre.length_le
          rw [List.length_cons] at this
          omega
        rw [List.drop_append_of_le_length hlen, ih _ ?_ _ rfl, List.append_assoc]
        rw [← hn, List.length_drop, List.length_cons]
        omega
      · rw [if_neg fun h => hpre ((prefix_append_cons_iff hc).mp h), if_neg hpre, ih _ ?_ _ rfl,
          List.cons_append]
        rw [← hn]
        exact Nat.lt_succ_self _

/-- **Replacing in the whole is replacing in the parts**, cut before a text
whose first character the pattern has not. -/
theorem replace_append_text {c : α} {u : List α} (hu : u.head? = some c) (hc : c ∉ pat) (hp : pat ≠ [])
    (s t : List α) : replace pat rep (s ++ (u ++ t)) = replace pat rep s ++ replace pat rep (u ++ t) := by
  cases u with
  | nil => cases hu
  | cons d u =>
    cases hu
    have h : replace pat rep ([] ++ c :: (u ++ t)) = replace pat rep [] ++ c :: replace pat rep (u ++ t) :=
      replace_append_cons hc hp (u ++ t) []
    rw [List.nil_append, replace_nil, List.nil_append] at h
    rw [List.cons_append, replace_append_cons hc hp, h]

/-! ### All labels at once -/

/-- The template with every label of a table replaced, so many characters of
one yet to skip. -/
def fillFrom (table : List (List α × List α)) : List α → ℕ → List α
  | [], _ => []
  | _ :: t, k + 1 => fillFrom table t k
  | c :: t, 0 =>
    match table.find? fun e => e.1.isPrefixOf (c :: t) with
    | some e => e.2 ++ fillFrom table t (e.1.length - 1)
    | none => c :: fillFrom table t 0

/-- The labels of a table replaced, each by its text, all in one pass. -/
def fill (table : List (List α × List α)) (template : List α) : List α := fillFrom table template 0

theorem fillFrom_drop (table : List (List α × List α)) : ∀ s t : List α,
    fillFrom table (s ++ t) s.length = fill table t
  | [], _ => rfl
  | _ :: s, t => fillFrom_drop table s t

section Fill

variable {table : List (List α × List α)} {p : α} (hp : ∀ l ∈ table.map (·.1), l.head? = some p)
include hp

/-- A stretch where no label can begin. -/
theorem fill_append_of_not_mem : ∀ {s : List α}, p ∉ s → ∀ t : List α, fill table (s ++ t) = s ++ fill table t
  | [], _, _ => rfl
  | c :: s, h, t => by
    obtain ⟨hc, hs⟩ := not_or.mp (List.mem_cons.not.mp h)
    have hnone : table.find? (fun e => e.1.isPrefixOf (c :: (s ++ t))) = none := by
      rw [List.find?_eq_none]
      intro e he hpre
      obtain ⟨l, hl⟩ := List.head?_eq_some_iff.mp (hp e.1 (List.mem_map_of_mem he))
      rw [hl, List.isPrefixOf_iff_prefix] at hpre
      exact hc (List.cons_prefix_cons.mp hpre).1
    rw [List.cons_append, fill, fillFrom, hnone]
    exact congrArg _ (fill_append_of_not_mem hs t)

variable (hapart : ∀ l ∈ table.map (·.1), ∀ l' ∈ table.map (·.1), l <+: l' → l = l') (hnodup : (table.map (·.1)).Nodup)
include hapart hnodup

/-- A label, of which none begins another. -/
theorem fill_label {l r : List α} (he : (l, r) ∈ table) (t : List α) : fill table (l ++ t) = r ++ fill table t := by
  have hl : l ∈ table.map (·.1) := List.mem_map_of_mem he
  have hfind : table.find? (fun e => e.1.isPrefixOf (l ++ t)) = some (l, r) := by
    have hsome : (table.find? (fun e => e.1.isPrefixOf (l ++ t))).isSome = true :=
      List.find?_isSome.mpr ⟨(l, r), he, by simp⟩
    obtain ⟨found, hfound⟩ := Option.isSome_iff_exists.mp hsome
    have hmem := List.mem_of_find?_eq_some hfound
    have hpre : found.1 <+: l ++ t := List.isPrefixOf_iff_prefix.mp (by simpa using List.find?_some hfound)
    have hlabel : found.1 = l := by
      rcases List.prefix_or_prefix_of_prefix hpre (List.prefix_append l t) with h | h
      · exact hapart _ (List.mem_map_of_mem hmem) _ hl h
      · exact (hapart _ hl _ (List.mem_map_of_mem hmem) h).symm
    rw [hfound, List.inj_on_of_nodup_map hnodup hmem he hlabel]
  obtain ⟨l', rfl⟩ := List.head?_eq_some_iff.mp (hp l hl)
  rw [List.cons_append] at hfind ⊢
  rw [fill, fillFrom, hfind]
  exact congrArg _ (fillFrom_drop table l' t)

end Fill

/-! ### What a replacement leaves -/

/-- A text without the pattern stays. -/
theorem replace_of_no_occurrence : ∀ {s : List α}, ¬ pat <:+: s → replace pat rep s = s
  | [], _ => replace_nil
  | c :: s, h => by
    rw [List.infix_cons_iff, not_or] at h
    rw [replace_cons, if_neg h.1, replace_of_no_occurrence h.2]

section Count

variable {p : α} (hrep : p ∉ rep)
include hrep

/-- A pattern's character gets no more frequent by a replacement without it. -/
theorem count_replace_le (s : List α) : (replace pat rep s).count p ≤ s.count p := by
  -- on the length, as an occurrence skips ahead
  induction hn : s.length using Nat.strong_induction_on generalizing s with
  | _ n ih =>
    cases s with
    | nil => exact le_rfl
    | cons c s =>
      rw [List.length_cons] at hn
      rw [replace_cons]
      by_cases hpre : pat <+: c :: s
      · have ih' := ih _ (by rw [List.length_drop]; omega) (s.drop (pat.length - 1)) rfl
        have hdrop := (List.drop_sublist (pat.length - 1) s).count_le p
        have hcons : s.count p ≤ (c :: s).count p := (List.sublist_cons_self c s).count_le p
        rw [if_pos hpre, List.count_append, List.count_eq_zero_of_not_mem hrep]
        omega
      · have ih' := ih _ (by omega) s rfl
        rw [if_neg hpre, List.count_cons, List.count_cons]
        exact Nat.add_le_add_right ih' _

variable (hp : pat.head? = some p)
include hp

theorem count_replace_lt : ∀ {s : List α}, pat <:+: s → (replace pat rep s).count p < s.count p
  | [], h => by
    rw [List.infix_nil.mp h] at hp
    cases hp
  | c :: s, h => by
    rw [replace_cons]
    by_cases hpre : pat <+: c :: s
    · obtain rfl : c = p := by
        cases pat with
        | nil => cases hp
        | cons d pat =>
          cases hp
          exact (List.cons_prefix_cons.mp hpre).1.symm
      have hle := @count_replace_le α _ pat rep c hrep (s.drop (pat.length - 1))
      have hdrop := (List.drop_sublist (pat.length - 1) s).count_le c
      rw [if_pos hpre, List.count_append, List.count_eq_zero_of_not_mem hrep, List.count_cons_self]
      omega
    · have ih := count_replace_lt ((List.infix_cons_iff.mp h).resolve_left hpre)
      rw [if_neg hpre, List.count_cons, List.count_cons]
      exact Nat.add_lt_add_right ih _

/-- **A replacement changes exactly what has the pattern.** -/
theorem replace_eq_self_iff {s : List α} : replace pat rep s = s ↔ ¬ pat <:+: s := by
  refine ⟨fun h hin => ?_, replace_of_no_occurrence⟩
  have hlt := count_replace_lt hrep hp hin
  rw [h] at hlt
  exact lt_irrefl _ hlt

end Count

section Apart

variable {a : α} (hpat : a ∉ pat) (hne : pat ≠ []) (hrep : a ∉ rep)
include hpat hne hrep

/-- A character of neither text is not touched. -/
theorem mem_replace_iff {s : List α} : a ∈ replace pat rep s ↔ a ∈ s := by
  constructor
  · intro h
    have hle := @count_replace_le α _ pat rep a hrep s
    have hpos := List.count_pos_iff.mpr h
    exact List.count_pos_iff.mp (by omega)
  · intro h
    obtain ⟨u, v, rfl⟩ := List.append_of_mem h
    rw [replace_append_cons hpat hne]
    simp

/-- What comes from it on stays too, if no occurrence can begin there. -/
theorem dropWhile_replace {p : α} (hp : pat.head? = some p) {s : List α} (hs : p ∉ s.dropWhile (· ≠ a)) :
    (replace pat rep s).dropWhile (· ≠ a) = s.dropWhile (· ≠ a) := by
  by_cases ha : a ∈ s
  · obtain ⟨u, v, rfl, hu⟩ := List.eq_append_cons_of_mem ha
    rw [Pieces.dropWhile_append_cons hu] at hs ⊢
    have hv : replace pat rep v = v := replace_of_not_mem hp fun h => hs (List.mem_cons_of_mem _ h)
    rw [replace_append_cons hpat hne, hv,
      Pieces.dropWhile_append_cons fun h => hu ((mem_replace_iff hpat hne hrep).mp h)]
  · have ha' : a ∉ replace pat rep s := fun h => ha ((mem_replace_iff hpat hne hrep).mp h)
    rw [List.dropWhile_eq_nil_iff.mpr (Pieces.ne_of_not_mem ha'), List.dropWhile_eq_nil_iff.mpr (Pieces.ne_of_not_mem ha)]

end Apart

end Replace
