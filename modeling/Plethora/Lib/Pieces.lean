/-
# The pieces between separators

`List.splitOn` cuts a list at a separator. There is one piece more than there
are separators (`length_splitOn`), and the pieces have all other elements
(`sum_length_splitOn`): what is joined and split again comes back only if no
separator was in it. The last piece is empty exactly if the list is, or a
separator comes last (`getLast?_splitOn`).

What is before the first separator and what is after it are cut apart by
`takeWhile` and `dropWhile`, and told by the list (`append_cons_inj`).

A list of pieces that a function keeps from growing comes back from it in any
order only if the function keeps each (`eq_of_perm_map`).

Key theorems: `length_splitOn`, `sum_length_splitOn`, `not_mem_of_mem_splitOn`,
`getLast?_splitOn`, `intercalate_dropped_iff`, `count_intercalate`,
`append_cons_inj`, `eq_of_perm_map`, `exists_perm_of_perm_map_some`.
-/
import Mathlib.Tactic.Common
import Mathlib.Algebra.GroupWithZero.Nat
import Mathlib.Algebra.Order.Group.Nat
import Mathlib.Algebra.BigOperators.Group.List.Basic
import Mathlib.Data.List.DropRight

namespace Pieces

section Splitting

variable {α : Type} [BEq α]

theorem length_splitOn (a : α) : ∀ t : List α, (t.splitOn a).length = t.count a + 1
  | [] => rfl
  | c :: t => by
    have ih := length_splitOn a t
    rw [List.splitOn_cons_eq_if_modifyHead, List.count_cons]
    by_cases h : (c == a) = true
    · rw [if_pos h, if_pos h, List.length_cons, ih]
    · rw [if_neg h, if_neg h, List.length_modifyHead, ih]

theorem sum_length_splitOn (a : α) : ∀ t : List α, ((t.splitOn a).map List.length).sum + t.count a = t.length
  | [] => rfl
  | c :: t => by
    have ih := sum_length_splitOn a t
    rw [List.splitOn_cons_eq_if_modifyHead, List.count_cons, List.length_cons]
    by_cases h : (c == a) = true
    · rw [if_pos h, if_pos h, List.map_cons, List.sum_cons, List.length_nil]
      omega
    · obtain ⟨p, ps, hp⟩ := List.exists_cons_of_ne_nil (List.splitOn_ne_nil a t)
      rw [hp, List.map_cons, List.sum_cons] at ih
      rw [if_neg h, if_neg h, hp, List.modifyHead_cons, List.map_cons, List.sum_cons, List.length_cons]
      omega

/-- Joined pieces have a separator between any two, and their own. -/
theorem count_intercalate [LawfulBEq α] (a : α) : ∀ {ls : List (List α)}, ls ≠ [] →
    (([a] : List α).intercalate ls).count a + 1 = ls.length + (ls.map (List.count a)).sum
  | [], h => absurd rfl h
  | [l], _ => by
    rw [List.intercalate_singleton, List.map_singleton, List.sum_singleton, List.length_singleton, Nat.add_comm]
  | l :: l' :: ls, _ => by
    have ih := @count_intercalate _ a (l' :: ls) (List.cons_ne_nil _ _)
    rw [List.intercalate_cons_cons, List.count_append, List.count_append, List.count_singleton_self, List.map_cons,
      List.sum_cons, List.length_cons]
    omega

/-- No piece has a separator. -/
theorem not_mem_of_mem_splitOn [LawfulBEq α] {a : α} {p : List α} : ∀ {t : List α}, p ∈ t.splitOn a → a ∉ p
  | [], h => by
    rw [List.splitOn_nil, List.mem_singleton] at h
    exact h ▸ List.not_mem_nil
  | c :: t, h => by
    have ih : ∀ q ∈ t.splitOn a, a ∉ q := fun q hq => not_mem_of_mem_splitOn hq
    obtain ⟨q, qs, hq⟩ := List.exists_cons_of_ne_nil (List.splitOn_ne_nil a t)
    rw [hq] at ih
    rw [List.splitOn_cons_eq_if_modifyHead, hq] at h
    by_cases hc : (c == a) = true
    · rw [if_pos hc] at h
      rcases List.mem_cons.mp h with rfl | h
      · exact List.not_mem_nil
      · exact ih p h
    · rw [if_neg hc, List.modifyHead_cons] at h
      rcases List.mem_cons.mp h with rfl | h
      · intro hm
        rcases List.mem_cons.mp hm with rfl | hm
        · exact hc BEq.rfl
        · exact ih q List.mem_cons_self hm
      · exact ih p (List.mem_cons_of_mem _ h)

/-- The last piece is empty exactly if nothing, or a separator, comes last. -/
theorem getLast?_splitOn [LawfulBEq α] (a : α) : ∀ t : List α,
    (t.splitOn a).getLast? = some [] ↔ t = [] ∨ t.getLast? = some a
  | [] => by simp [List.splitOn_nil]
  | [c] => by
    rw [List.splitOn_cons_eq_if_modifyHead, List.splitOn_nil]
    by_cases hc : (c == a) = true
    · simp [eq_of_beq hc]
    · have hne : ¬ c = a := fun h => hc (h ▸ BEq.rfl)
      simp [hne]
  | c :: d :: t => by
    have ih := getLast?_splitOn a (d :: t)
    obtain ⟨p, ps, hp⟩ := List.exists_cons_of_ne_nil (List.splitOn_ne_nil a (d :: t))
    have hjoined : [a].intercalate ((d :: t).splitOn a) = d :: t := List.intercalate_splitOn a
    rw [hp] at ih hjoined
    rw [List.splitOn_cons_eq_if_modifyHead, hp, List.getLast?_cons_cons]
    simp only [reduceCtorEq, false_or] at ih ⊢
    rw [← ih]
    by_cases hc : (c == a) = true
    · rw [if_pos hc, List.getLast?_cons_cons]
    · rw [if_neg hc, List.modifyHead_cons]
      cases ps with
      | nil =>
        -- the only piece of what follows, which is not empty
        rw [List.intercalate_singleton] at hjoined
        simp [hjoined]
      | cons q qs => rw [List.getLast?_cons_cons, List.getLast?_cons_cons]

omit [BEq α] in
/-- Pieces are left off the end of what comes after a piece that is not empty. -/
theorem rdropWhile_append_cons {l l' : List (List α)} {p : List α} (hp : p ≠ []) :
    (l ++ p :: l').rdropWhile (·.isEmpty) = l ++ p :: l'.rdropWhile (·.isEmpty) := by
  induction l' using List.reverseRecOn with
  | nil => rw [List.rdropWhile_concat_neg _ _ _ (by simpa using hp), List.rdropWhile_nil]
  | append_singleton l' q ih =>
    have hassoc : l ++ p :: (l' ++ [q]) = (l ++ p :: l') ++ [q] := by simp
    rw [hassoc]
    by_cases hq : q = []
    · rw [List.rdropWhile_concat_pos _ _ _ (by simpa using hq), List.rdropWhile_concat_pos _ _ _ (by simpa using hq),
        ih]
    · rw [List.rdropWhile_concat_neg _ _ _ (by simpa using hq), List.rdropWhile_concat_neg _ _ _ (by simpa using hq),
        hassoc]

/-- Pieces without the empty ones at the end are the list again exactly if it
does not end with a separator. -/
theorem intercalate_dropped_iff [LawfulBEq α] {a : α} {t : List α} (ht : t ≠ []) :
    [a].intercalate ((t.splitOn a).rdropWhile (·.isEmpty)) = t ↔ t.getLast? ≠ some a := by
  have hpne := List.splitOn_ne_nil a t
  have hlast : t.getLast? = some a ↔ (t.splitOn a).getLast hpne = [] := by
    have hempty := getLast?_splitOn a t
    rw [or_iff_right ht, List.getLast?_eq_some_getLast hpne, Option.some.injEq] at hempty
    exact hempty.symm
  rw [ne_eq, hlast]
  constructor
  · intro h he
    have hne : (t.splitOn a).rdropWhile (·.isEmpty) ≠ [] := by
      intro hnil
      rw [hnil] at h
      exact ht h.symm
    have hsplit := List.splitOn_intercalate a
      (fun p hp => not_mem_of_mem_splitOn ((List.rdropWhile_prefix _ _).subset hp)) hne
    rw [h] at hsplit
    exact List.rdropWhile_eq_self_iff.mp hsplit.symm hpne (by simpa using he)
  · intro he
    have hall : (t.splitOn a).rdropWhile (·.isEmpty) = t.splitOn a :=
      List.rdropWhile_eq_self_iff.mpr fun _ hd => he (by simpa using hd)
    rw [hall]
    exact List.intercalate_splitOn a

end Splitting

section First

variable {α : Type} [DecidableEq α] {a : α} {s s' : List α}

theorem ne_of_not_mem (h : a ∉ s) : ∀ c ∈ s, decide (c ≠ a) = true :=
  fun _ hc => decide_eq_true fun he => h (he ▸ hc)

theorem takeWhile_append_cons (h : a ∉ s) (t : List α) : (s ++ a :: t).takeWhile (· ≠ a) = s := by
  rw [List.takeWhile_append_of_pos (ne_of_not_mem h), List.takeWhile_cons_of_neg (by simp), List.append_nil]

theorem dropWhile_append_cons (h : a ∉ s) (t : List α) : (s ++ a :: t).dropWhile (· ≠ a) = a :: t := by
  rw [List.dropWhile_append_of_pos (ne_of_not_mem h), List.dropWhile_cons_of_neg (by simp)]

/-- The first separator parts a list in one way. -/
theorem append_cons_inj {t t' : List α} (h : a ∉ s) (h' : a ∉ s') (he : s ++ a :: t = s' ++ a :: t') :
    s = s' ∧ t = t' := by
  have hs : s = s' := by rw [← takeWhile_append_cons h t, he, takeWhile_append_cons h' t']
  subst hs
  exact ⟨rfl, List.tail_eq_of_cons_eq (List.append_cancel_left he)⟩

end First

section Perm

variable {β : Type} {f : β → β} {size : β → ℕ}

theorem eq_of_sum_eq (hle : ∀ b, size (f b) ≤ size b) : ∀ l : List β,
    ((l.map f).map size).sum = (l.map size).sum → ∀ b ∈ l, size (f b) = size b
  | [], _, _, hb => absurd hb List.not_mem_nil
  | b :: l, h, b', hb' => by
    have hrest : ∀ l : List β, ((l.map f).map size).sum ≤ (l.map size).sum := by
      intro l
      induction l with
      | nil => exact le_rfl
      | cons c l ih =>
        simp only [List.map_cons, List.sum_cons]
        exact Nat.add_le_add (hle c) ih
    simp only [List.map_cons, List.sum_cons] at h
    have hb := hle b
    have hl := hrest l
    rcases List.mem_cons.mp hb' with rfl | hb'
    · omega
    · exact eq_of_sum_eq hle l (by omega) b' hb'

/-- A function that makes nothing larger and what it leaves as large the same
keeps every element, if it keeps them all in some order. -/
theorem eq_of_perm_map (hle : ∀ b, size (f b) ≤ size b) (heq : ∀ b, size (f b) = size b → f b = b) {l : List β}
    (h : (l.map f).Perm l) : ∀ b ∈ l, f b = b :=
  fun b hb => heq b (eq_of_sum_eq hle l (h.map size).sum_eq b hb)

theorem exists_perm_of_perm_map_some {l : List (Option β)} {r : List β} (h : l.Perm (r.map some)) :
    ∃ r' : List β, l = r'.map some ∧ r'.Perm r := by
  refine ⟨l.filterMap id, ?_, ?_⟩
  · have hall : ∀ b ∈ l, ∃ c, b = some c := by
      intro b hb
      obtain ⟨c, -, hc⟩ := List.mem_map.mp (h.mem_iff.mp hb)
      exact ⟨c, hc.symm⟩
    clear h
    induction l with
    | nil => rfl
    | cons b l ih =>
      obtain ⟨c, rfl⟩ := hall b (List.mem_cons_self ..)
      have hhead : (some c :: l).filterMap id = c :: l.filterMap id := rfl
      rw [hhead, List.map_cons, ← ih fun b hb => hall b (List.mem_cons_of_mem _ hb)]
  · have hfilter := h.filterMap id
    rwa [List.filterMap_map, Function.id_comp, List.filterMap_some] at hfilter

end Perm

end Pieces
