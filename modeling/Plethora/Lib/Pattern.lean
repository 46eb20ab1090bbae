/-
# Patterns with runs and looks

The regular expressions that need no groups: a sequence of single elements,
runs that take as much as they can and give it back one by one, and looks at
what stands before and after a position. `ends` lists what can be left of a
text after a match at its beginning, in the order a backtracking matcher tries
them, so the match is the first of the list.

A text is cut at the first position with a match (`cut`), and each match is
replaced, from left to right (`sub`); a look before a position sees the text
as it was.

Key definitions: `Item`, `ends`, `cut`, `sub`.
Key theorems: `mem_many_iff`, `cut_pieces`, `head?_many_last`,
`subFrom_of_match`, `subFrom_of_not_match`.
-/
import Mathlib.Data.List.DropRight
import Mathlib.Tactic.Common

namespace Pattern

variable {α : Type}

/-- The parts of a pattern; a look is at the element before a position and at
what is after it. -/
inductive Item (α : Type)
  | one (p : α → Bool)
  | many (p : α → Bool)
  | look (p : Option α → List α → Bool)

namespace Item

/-- `(?<!p)`. -/
def notBehind (p : α → Bool) : Item α := look fun before _ => !before.any p

/-- `(?!p)`. -/
def notAhead (p : α → Bool) : Item α := look fun _ t => !t.head?.any p

end Item

/-- What can be left after a run, the longest one first, and what comes after
it. -/
def many (p : α → Bool) (next : Option α → List α → List (List α)) : Option α → List α → List (List α)
  | before, [] => next before []
  | before, c :: t => (if p c then many p next (some c) t else []) ++ next before (c :: t)

/-- What can be left after a match, in the order tried. -/
def ends : List (Item α) → Option α → List α → List (List α)
  | [], _, t => [t]
  | .one _ :: _, _, [] => []
  | .one p :: items, _, c :: t => if p c then ends items (some c) t else []
  | .many p :: items, before, t => many p (ends items) before t
  | .look p :: items, before, t => if p before t then ends items before t else []

/-- There is a match at the beginning. -/
def isMatch (items : List (Item α)) (t : List α) : Bool := !(ends items none t).isEmpty

/-- What is before and after the first match. -/
def cut (items : List (Item α)) : Option α → List α → Option (List α × List α)
  | before, [] => (ends items before []).head?.map fun rest => ([], rest)
  | before, c :: t =>
    match (ends items before (c :: t)).head? with
    | some rest => some ([], rest)
    | none => (cut items (some c) t).map fun p => (c :: p.1, p.2)

/-- Every match replaced, so many elements already taken. -/
def subFrom (items : List (Item α)) (replacement : List α) : Option α → ℕ → List α → List α
  | _, _, [] => []
  | _, taken + 1, c :: t => subFrom items replacement (some c) taken t
  | before, 0, c :: t =>
    match (ends items before (c :: t)).head? with
    | some rest => replacement ++ subFrom items replacement (some c) (t.length - rest.length) t
    | none => c :: subFrom items replacement (some c) 0 t

/-- Every match replaced, for a pattern that matches no empty text. -/
def sub (items : List (Item α)) (replacement : List α) (t : List α) : List α := subFrom items replacement none 0 t

theorem mem_many_iff {p : α → Bool} {next : Option α → List α → List (List α)} {r : List α} :
    ∀ {t : List α} {before : Option α}, r ∈ many p next before t ↔
      ∃ run rest, t = run ++ rest ∧ (∀ c ∈ run, p c = true) ∧ r ∈ next (run.getLast?.or before) rest
  | [], before => by
    constructor
    · intro h
      exact ⟨[], [], rfl, fun _ hc => absurd hc List.not_mem_nil, h⟩
    · rintro ⟨run, rest, ht, -, h⟩
      obtain ⟨rfl, rfl⟩ := List.append_eq_nil_iff.mp ht.symm
      exact h
  | c :: t, before => by
    have ih := @mem_many_iff p next r t (some c)
    rw [many, List.mem_append]
    constructor
    · rintro (h | h)
      · split at h
        · rename_i hc
          obtain ⟨run, rest, rfl, hrun, h⟩ := ih.mp h
          refine ⟨c :: run, rest, rfl, List.forall_mem_cons.mpr ⟨hc, hrun⟩, ?_⟩
          rwa [List.getLast?_cons, Option.some_or, ← Option.or_some]
        · exact absurd h List.not_mem_nil
      · exact ⟨[], c :: t, rfl, fun _ hc => absurd hc List.not_mem_nil, h⟩
    · rintro ⟨run, rest, ht, hrun, h⟩
      cases run with
      | nil =>
        rw [List.nil_append] at ht
        subst ht
        exact .inr h
      | cons d run =>
        obtain ⟨rfl, rfl⟩ := List.cons.inj ht
        obtain ⟨hd, hrun⟩ := List.forall_mem_cons.mp hrun
        refine .inl ?_
        rw [if_pos hd]
        refine ih.mpr ⟨run, rest, rfl, hrun, ?_⟩
        rwa [List.getLast?_cons, Option.some_or, ← Option.or_some] at h

/-- What is left after a match is the end of the text. -/
theorem suffix_of_mem_ends {r : List α} : ∀ {items : List (Item α)} {before : Option α} {t : List α},
    r ∈ ends items before t → r <:+ t
  | [], _, _, h => List.mem_singleton.mp h ▸ List.suffix_rfl
  | .one _ :: _, _, [], h => absurd h List.not_mem_nil
  | .one p :: items, before, c :: t, h => by
    rw [ends] at h
    split at h
    · exact (suffix_of_mem_ends h).trans (List.suffix_cons c t)
    · exact absurd h List.not_mem_nil
  | .many p :: items, before, t, h => by
    obtain ⟨run, rest, rfl, -, h⟩ := mem_many_iff.mp h
    exact (suffix_of_mem_ends h).trans (List.suffix_append run rest)
  | .look p :: items, before, t, h => by
    rw [ends] at h
    split at h
    · exact suffix_of_mem_ends h
    · exact absurd h List.not_mem_nil

/-- The pieces stand in the text around the match. -/
theorem cut_pieces {items : List (Item α)} {k e : List α} : ∀ {t : List α} {before : Option α},
    cut items before t = some (k, e) → ∃ separator, t = k ++ (separator ++ e)
  | t, before, h => by
    have hmatch : ∀ {rest : List α}, (ends items before t).head? = some rest → some ([], rest) = some (k, e) →
        ∃ separator, t = k ++ (separator ++ e) := by
      intro rest hrest hpair
      cases hpair
      obtain ⟨separator, hs⟩ := suffix_of_mem_ends (List.mem_of_mem_head? hrest)
      exact ⟨separator, hs.symm⟩
    cases t with
    | nil =>
      obtain ⟨rest, hrest, hpair⟩ := Option.map_eq_some_iff.mp h
      exact hmatch hrest (congrArg some hpair)
    | cons c t =>
      rw [cut] at h
      split at h
      · rename_i rest hrest
        exact hmatch hrest h
      · obtain ⟨p, hp, hpair⟩ := Option.map_eq_some_iff.mp h
        cases hpair
        obtain ⟨separator, hs⟩ := cut_pieces hp
        exact ⟨separator, congrArg (c :: ·) hs⟩

/-- A run at the end of a pattern takes all it can. -/
theorem head?_many_last {p : α → Bool} : ∀ (t : List α) (before : Option α),
    (ends [.many p] before t).head? = some (t.dropWhile p)
  | [], _ => rfl
  | c :: t, before => by
    have ih := head?_many_last (p := p) t (some c)
    rw [ends] at ih ⊢
    rw [many, List.dropWhile_cons, List.head?_append]
    by_cases hc : p c = true
    · rw [if_pos hc, if_pos hc, ih, Option.some_or]
    · rw [if_neg hc, if_neg hc]
      rfl

section Replacing

variable {items : List (Item α)} {replacement : List α} {before : Option α}

theorem subFrom_drop : ∀ {n : ℕ} {t : List α} {before : Option α},
    subFrom items replacement before n t =
      subFrom items replacement ((t.take n).getLast?.or before) 0 (t.drop n)
  | 0, t, before => by
    rw [List.take_zero, List.drop_zero]
    rfl
  | n + 1, [], before => by
    rw [List.drop_nil, subFrom, subFrom]
  | n + 1, c :: t, before => by
    rw [subFrom, subFrom_drop, List.take_succ_cons, List.drop_succ_cons, List.getLast?_cons, Option.some_or,
      ← Option.or_some]

theorem subFrom_of_not_match {c : α} {t : List α} (h : (ends items before (c :: t)).head? = none) :
    subFrom items replacement before 0 (c :: t) = c :: subFrom items replacement (some c) 0 t := by
  rw [subFrom, h]

/-- A match of one element and some more. -/
theorem subFrom_of_match {c : α} {taken rest : List α}
    (h : (ends items before (c :: (taken ++ rest))).head? = some rest) :
    subFrom items replacement before 0 (c :: (taken ++ rest)) =
      replacement ++ subFrom items replacement (taken.getLast?.or (some c)) 0 rest := by
  have hlength : (taken ++ rest).length - rest.length = taken.length := by
    rw [List.length_append, Nat.add_sub_cancel]
  rw [subFrom, h]
  simp only [hlength]
  rw [subFrom_drop, List.take_left, List.drop_left]

/-- A pattern that looks at nothing before it. -/
theorem subFrom_before (h : ∀ before t, ends items before t = ends items none t) :
    ∀ (n : ℕ) (t : List α), subFrom items replacement before n t = subFrom items replacement none n t
  | _, [] => by
    rw [subFrom, subFrom]
  | 0, c :: t => by
    rw [subFrom, subFrom, h before]
  | n + 1, c :: t => by
    rw [subFrom, subFrom]

end Replacing

end Pattern
