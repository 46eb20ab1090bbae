/-
# The first value of a key

Two ways to read the entries out of a list, `f` and `g`, where the first entry
of a key counts. They agree on a key exactly if the first element that either
finds the key in has for the one what the other finds from there on
(`lookup_eq_iff`): whatever comes later makes no difference.

Key definitions: `Bears`.
Key theorems: `lookup_append_of_not_bears`, `lookup_eq_iff`.
-/
import Mathlib.Tactic.Common

namespace FirstWins

section Lookup

variable {κ β : Type} [BEq κ] [LawfulBEq κ] [DecidableEq κ]

theorem lookup_cons_if (k : κ) (v : β) (es : List (κ × β)) (j : κ) :
    ((k, v) :: es).lookup j = if j = k then some v else es.lookup j := by
  rw [List.lookup_cons]
  by_cases h : j = k
  · rw [if_pos h, beq_iff_eq.mpr h]
  · rw [if_neg h, beq_eq_false_iff_ne.mpr h]

end Lookup

section Readings

variable {α κ β : Type} [BEq κ] [LawfulBEq κ] {f g : α → Option (κ × β)} {k : κ}

/-- The element has an entry of the key. -/
def Bears (f : α → Option (κ × β)) (k : κ) (a : α) : Prop := ∃ v, f a = some (k, v)

theorem lookup_cons_of_bears {a : α} {v : β} (h : f a = some (k, v)) (as : List α) :
    ((a :: as).filterMap f).lookup k = some v := by
  rw [List.filterMap_cons_some h, List.lookup_cons_self]

theorem lookup_cons_of_not_bears {a : α} (h : ¬ Bears f k a) (as : List α) :
    ((a :: as).filterMap f).lookup k = (as.filterMap f).lookup k := by
  cases ha : f a with
  | none => rw [List.filterMap_cons_none ha]
  | some e =>
    obtain ⟨j, v⟩ := e
    have hne : k ≠ j := by
      rintro rfl
      exact h ⟨v, ha⟩
    rw [List.filterMap_cons_some ha, List.lookup_cons, beq_eq_false_iff_ne.mpr hne]

theorem lookup_append_of_not_bears : ∀ {before : List α}, (∀ a ∈ before, ¬ Bears f k a) → ∀ after : List α,
    ((before ++ after).filterMap f).lookup k = (after.filterMap f).lookup k
  | [], _, _ => rfl
  | a :: before, h, after => by
    obtain ⟨ha, hb⟩ := List.forall_mem_cons.mp h
    rw [List.cons_append, lookup_cons_of_not_bears ha]
    exact lookup_append_of_not_bears hb after

/-- **Two ways to read a list agree on a key** exactly if what one finds in the
first element that bears it, the other one finds from there on. -/
theorem lookup_eq_iff : ∀ {as : List α}, (as.filterMap f).lookup k = (as.filterMap g).lookup k ↔
    ∀ before a after, as = before ++ a :: after → (∀ b ∈ before, ¬ Bears f k b ∧ ¬ Bears g k b) →
      (∀ v, f a = some (k, v) → ((a :: after).filterMap g).lookup k = some v) ∧
      ∀ v, g a = some (k, v) → ((a :: after).filterMap f).lookup k = some v := by
  intro as
  constructor
  · rintro h before a after rfl hb
    rw [lookup_append_of_not_bears fun b hm => (hb b hm).1, lookup_append_of_not_bears fun b hm => (hb b hm).2] at h
    refine ⟨fun v hv => ?_, fun v hv => ?_⟩
    · rw [← h, lookup_cons_of_bears hv]
    · rw [h, lookup_cons_of_bears hv]
  · intro h
    induction as with
    | nil => rfl
    | cons a as ih =>
      obtain ⟨hf, hg⟩ := h [] a as rfl fun b hb => absurd hb List.not_mem_nil
      by_cases hfa : Bears f k a
      · obtain ⟨v, hv⟩ := hfa
        rw [hf v hv, lookup_cons_of_bears hv]
      · by_cases hga : Bears g k a
        · obtain ⟨v, hv⟩ := hga
          rw [hg v hv, lookup_cons_of_bears hv]
        · rw [lookup_cons_of_not_bears hfa, lookup_cons_of_not_bears hga]
          refine ih fun before b after he hb => ?_
          refine h (a :: before) b after (by rw [he, List.cons_append]) ?_
          exact List.forall_mem_cons.mpr ⟨⟨hfa, hga⟩, hb⟩

end Readings

end FirstWins
