/-
# Escaping by entities

A table gives some elements a name each; to escape a list is to put a mark and
the name for each of these. No name begins another one, so a mark is followed
by at most one of them, and putting the elements back for the entities, from
the left, undoes it (`restore_escape`). What is escaped has none of the named
elements but the mark, and that only at the beginning of an entity
(`not_mem_escape`, `entity_of_mark`).

Key definitions: `Table`, `Table.escape`, `Table.restore`.
Key theorems: `Table.not_mem_escape`, `Table.entity_of_mark`, `Table.restore_escape`.
-/
import Mathlib.Data.List.Infix
import Mathlib.Tactic.Common

namespace Entities

/-- The names of some elements, one of them the mark before a name. -/
structure Table (α : Type) [DecidableEq α] where
  mark : α
  entries : List (List α × α)
  /-- No name begins another. -/
  apart : ∀ e ∈ entries, ∀ e' ∈ entries, e.1 <+: e'.1 → e = e'
  /-- The mark stands in no name. -/
  unmarked : ∀ e ∈ entries, mark ∉ e.1
  /-- The mark has a name. -/
  marked : ∃ e ∈ entries, e.2 = mark

namespace Table

variable {α : Type} [DecidableEq α] (T : Table α)

/-- The name of an element. -/
def name (c : α) : Option (List α) := (T.entries.find? (·.2 = c)).map (·.1)

def escape (t : List α) : List α :=
  t.flatMap fun c =>
    match T.name c with
    | some e => T.mark :: e
    | none => [c]

/-- The entity whose name a text begins with. -/
def entity (t : List α) : Option (List α × α) := T.entries.find? fun e => e.1.isPrefixOf t

/-- The text with every entity replaced, from the left, so many elements of one
yet to skip. -/
def restoreFrom : List α → ℕ → List α
  | [], _ => []
  | _ :: t, k + 1 => restoreFrom t k
  | c :: t, 0 =>
    if c = T.mark then
      match T.entity t with
      | some e => e.2 :: restoreFrom t e.1.length
      | none => c :: restoreFrom t 0
    else c :: restoreFrom t 0

def restore (t : List α) : List α := T.restoreFrom t 0

variable {T} {c : α} {e : List α}

theorem name_eq_some (h : T.name c = some e) : (e, c) ∈ T.entries := by
  obtain ⟨entry, hfind, rfl⟩ := Option.map_eq_some_iff.mp h
  have hc : entry.2 = c := by simpa using List.find?_some hfind
  rw [← hc]
  exact List.mem_of_find?_eq_some hfind

theorem name_mark : ∃ e, T.name T.mark = some e := by
  obtain ⟨entry, hmem, hmark⟩ := T.marked
  have hsome : (T.entries.find? (·.2 = T.mark)).isSome = true :=
    List.find?_isSome.mpr ⟨entry, hmem, decide_eq_true hmark⟩
  obtain ⟨found, hfound⟩ := Option.isSome_iff_exists.mp hsome
  exact ⟨found.1, by rw [name, hfound]; rfl⟩

theorem ne_mark_of_name (h : T.name c = none) : c ≠ T.mark := by
  rintro rfl
  obtain ⟨e, he⟩ := @name_mark _ _ T
  rw [he] at h
  cases h

theorem escape_cons_some (h : T.name c = some e) (t : List α) : T.escape (c :: t) = T.mark :: (e ++ T.escape t) := by
  rw [escape, List.flatMap_cons, h]
  rfl

theorem escape_cons_none (h : T.name c = none) (t : List α) : T.escape (c :: t) = c :: T.escape t := by
  rw [escape, List.flatMap_cons, h]
  rfl

/-- A text of elements without names is left as it is. -/
theorem escape_of_plain : ∀ {t : List α}, (∀ c ∈ t, T.name c = none) → T.escape t = t
  | [], _ => rfl
  | c :: t, h => by
    obtain ⟨hc, ht⟩ := List.forall_mem_cons.mp h
    rw [escape_cons_none hc, escape_of_plain ht]

theorem mark_mem_escape {t : List α} (hc : c ∈ t) (h : T.name c ≠ none) : T.mark ∈ T.escape t := by
  obtain ⟨e, he⟩ := Option.ne_none_iff_exists'.mp h
  refine List.mem_flatMap.mpr ⟨c, hc, ?_⟩
  rw [he]
  exact List.mem_cons_self

/-- Nothing that has a name is left, but the mark and what names are made of. -/
theorem not_mem_escape (h : T.name c ≠ none) (hmark : c ≠ T.mark) (hnames : ∀ e ∈ T.entries, c ∉ e.1) :
    ∀ t : List α, c ∉ T.escape t
  | [] => List.not_mem_nil
  | d :: t => by
    have ih := not_mem_escape h hmark hnames t
    cases hd : T.name d with
    | some e =>
      rw [escape_cons_some hd, List.mem_cons, List.mem_append, not_or, not_or]
      exact ⟨hmark, hnames _ (name_eq_some hd), ih⟩
    | none =>
      rw [escape_cons_none hd, List.mem_cons, not_or]
      refine ⟨?_, ih⟩
      rintro rfl
      exact h hd

/-- **Every mark begins an entity.** -/
theorem entity_of_mark : ∀ {t before after : List α}, T.escape t = before ++ T.mark :: after →
    ∃ e ∈ T.entries, e.1 <+: after
  | [], _, _, h => by simp [escape] at h
  | c :: t, before, after, h => by
    cases hc : T.name c with
    | none =>
      rw [escape_cons_none hc] at h
      cases before with
      | nil => exact absurd (List.cons.inj h).1 (ne_mark_of_name hc)
      | cons b before => exact entity_of_mark (List.cons.inj h).2
    | some e =>
      have hmem := name_eq_some hc
      rw [escape_cons_some hc] at h
      cases before with
      | nil => exact ⟨_, hmem, (List.cons.inj h).2 ▸ List.prefix_append ..⟩
      | cons b before =>
        rcases List.append_eq_append_iff.mp (List.cons.inj h).2 with ⟨between, -, hrest⟩ | ⟨between, he, hrest⟩
        · exact entity_of_mark hrest
        · -- the mark would be in the name, or is where the rest begins
          cases between with
          | nil => exact entity_of_mark (show T.escape t = [] ++ T.mark :: after from hrest.symm)
          | cons d between =>
            obtain rfl := (List.cons.inj hrest).1
            refine absurd ?_ (T.unmarked _ hmem)
            rw [he]
            exact List.mem_append_right _ List.mem_cons_self

/-! ### Undoing it -/

/-- The one entity that a text begins with is found. -/
theorem entity_append (h : (e, c) ∈ T.entries) (t : List α) : T.entity (e ++ t) = some (e, c) := by
  have hsome : (T.entity (e ++ t)).isSome = true :=
    List.find?_isSome.mpr ⟨_, h, List.isPrefixOf_iff_prefix.mpr (List.prefix_append ..)⟩
  obtain ⟨found, hfound⟩ := Option.isSome_iff_exists.mp hsome
  have hmem : found ∈ T.entries := List.mem_of_find?_eq_some hfound
  have hfits : found.1.isPrefixOf (e ++ t) = true := by
    rw [entity] at hfound
    simpa using List.find?_some hfound
  have hpre : found.1 <+: e ++ t := List.isPrefixOf_iff_prefix.mp hfits
  rw [hfound]
  rcases List.prefix_or_prefix_of_prefix hpre (List.prefix_append e t) with hp | hp
  · rw [T.apart _ hmem _ h hp]
  · rw [T.apart _ h _ hmem hp]

theorem restoreFrom_append : ∀ (s t : List α), T.restoreFrom (s ++ t) s.length = T.restore t
  | [], [] => rfl
  | [], _ :: _ => rfl
  | _ :: s, t => restoreFrom_append s t

/-- **What is escaped is restored.** -/
theorem restore_escape : ∀ t : List α, T.restore (T.escape t) = t
  | [] => rfl
  | c :: t => by
    have ih := restore_escape t
    cases hc : T.name c with
    | none =>
      rw [escape_cons_none hc, restore, restoreFrom, if_neg (ne_mark_of_name hc), ← restore, ih]
    | some e =>
      rw [escape_cons_some hc, restore, restoreFrom, if_pos rfl]
      simp only [entity_append (name_eq_some hc)]
      rw [restoreFrom_append, ih]

theorem escape_injective : Function.Injective T.escape := fun s t h => by
  rw [← restore_escape s, h, restore_escape t]

end Table

end Entities
