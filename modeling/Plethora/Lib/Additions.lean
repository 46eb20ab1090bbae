/-
# Additions to a cell that are not atomic

Calls add to a cell, each its amount: a call looks the cell up and stores the
sum later, and the steps of the calls come in any order.

A call that stores while no other one is between its look and its store adds
its amount. One that stores while another is there takes something away: what
the cell holds from then on, and what any call is going to store, leaves out
the amount of one of the two (`Lost`). So where all amounts are positive, the
cell comes to the sum of all exactly if the calls are apart, and to less
otherwise (`cell_eq`, `cell_lt`).

Key definitions: `Additions.State`, `Additions.Step`, `Additions.Apart`.
Key theorems: `Additions.orderly_step`, `Additions.lost_step`, `Additions.cell_eq`, `Additions.cell_lt`.
-/
import Plethora.Lib.Runs
import Mathlib.Algebra.Order.BigOperators.Group.Finset

namespace Additions

structure State (ι α : Type) where
  cell : α
  /-- The sum a call is going to store. -/
  held : ι → Option α
  /-- The calls that have stored theirs. -/
  stored : Finset ι

inductive Action
  | look
  | store
  deriving DecidableEq

variable {ι α : Type} [DecidableEq ι] [AddCommMonoid α]

def start (v : α) : State ι α := { cell := v, held := fun _ => none, stored := ∅ }

inductive Step (amount : ι → α) : State ι α → ι × Action → State ι α → Prop
  | look {s : State ι α} {i : ι} (hi : s.held i = none) (hnot : i ∉ s.stored) :
      Step amount s (i, .look) { s with held := Function.update s.held i (some (s.cell + amount i)) }
  | store {s : State ι α} {i : ι} {x : α} (hi : s.held i = some x) :
      Step amount s (i, .store) { cell := x, held := Function.update s.held i none, stored := insert i s.stored }

/-- No call stores while another one is going to. -/
def Apart (steps : List (State ι α × ι × Action)) : Prop :=
  ∀ p ∈ steps, p.2.2 = .store → ∀ j, j ≠ p.2.1 → p.1.held j = none

variable {amount : ι → α} {v x : α} {s t : State ι α} {i j : ι}

/-- The value with the amounts of some of the calls that have stored theirs. -/
def Sum (amount : ι → α) (v : α) (s : State ι α) (counted : Finset ι) (x : α) : Prop :=
  counted ⊆ s.stored ∧ x = v + ∑ k ∈ counted, amount k

/-- The cell has every amount that was stored, and every sum that is going to
be stored is up to date. -/
structure Orderly (amount : ι → α) (v : α) (s : State ι α) : Prop where
  cell : s.cell = v + ∑ k ∈ s.stored, amount k
  held : ∀ k x, s.held k = some x → k ∉ s.stored ∧ x = s.cell + amount k

/-- Of the amounts of `i` and `j`, no value counts both. -/
structure Lost (amount : ι → α) (v : α) (i j : ι) (s : State ι α) : Prop where
  ne : i ≠ j
  first : i ∈ s.stored
  second : j ∈ s.stored ∨ (s.held j).isSome
  cell : ∃ counted, Sum amount v s counted s.cell ∧ ¬(i ∈ counted ∧ j ∈ counted)
  held : ∀ k x, s.held k = some x → k ∉ s.stored ∧
    ∃ counted y, Sum amount v s counted y ∧ x = y + amount k ∧ ¬(i ∈ counted ∧ (j ∈ counted ∨ j = k))

omit [DecidableEq ι] in
theorem orderly_start (v : α) : Orderly amount v (start v : State ι α) where
  cell := by simp [start]
  held k x h := by cases h

/-- **While calls are apart.** -/
theorem orderly_step {e : ι × Action} (hstep : Step amount s e t) (h : Orderly amount v s)
    (hapart : e.2 = .store → ∀ j, j ≠ e.1 → s.held j = none) : Orderly amount v t := by
  cases hstep with
  | @look i hi hnot =>
    refine ⟨h.cell, fun k x hk => ?_⟩
    simp only [Function.update_apply] at hk
    split at hk
    next heq =>
      subst heq
      exact ⟨hnot, (Option.some.inj hk).symm⟩
    next => exact h.held k x hk
  | @store i x hi =>
    obtain ⟨hnot, rfl⟩ := h.held i x hi
    refine ⟨?_, fun k y hk => ?_⟩
    · rw [Finset.sum_insert hnot, h.cell, add_assoc, add_comm (amount i)]
    · simp only [Function.update_apply] at hk
      split at hk
      next => cases hk
      next hne =>
        rw [hapart rfl k hne] at hk
        cases hk

omit [DecidableEq ι] in
theorem Sum.mono {counted : Finset ι} (h : Sum amount v s counted x) (hs : s.stored ⊆ t.stored) :
    Sum amount v t counted x :=
  ⟨h.1.trans hs, h.2⟩

/-- What is left out stays so. -/
theorem lost_step {e : ι × Action} (hstep : Step amount s e t) (h : Lost amount v i j s) : Lost amount v i j t := by
  cases hstep with
  | @look k hk hnot =>
    have hjk : j ≠ k := by
      rintro rfl
      rcases h.second with hj | hj
      · exact hnot hj
      · simp [hk] at hj
    refine ⟨h.ne, h.first, ?_, h.cell, fun l x hl => ?_⟩
    · simpa [Function.update_apply, hjk] using h.second
    · simp only [Function.update_apply] at hl
      split at hl
      next heq =>
        subst heq
        obtain ⟨counted, hsum, hmiss⟩ := h.cell
        exact ⟨hnot, counted, s.cell, hsum, (Option.some.inj hl).symm, fun hc => hmiss ⟨hc.1, hc.2.resolve_right hjk⟩⟩
      next => exact h.held l x hl
  | @store k x hk =>
    obtain ⟨hnot, counted, y, hsum, rfl, hmiss⟩ := h.held k x hk
    refine ⟨h.ne, Finset.mem_insert_of_mem h.first, ?_, ⟨insert k counted, ⟨?_, ?_⟩, fun hc => ?_⟩, fun l x hl => ?_⟩
    · simp only [Finset.mem_insert, Function.update_apply]
      by_cases hjk : j = k
      · exact .inl (.inl hjk)
      · simpa [hjk] using h.second
    · exact Finset.insert_subset_insert k hsum.1
    · show y + amount k = _
      rw [Finset.sum_insert fun hc => hnot (hsum.1 hc), hsum.2, add_assoc, add_comm (amount k)]
    · -- the one that stored first is not the one that stores now
      have hik : i ≠ k := fun he => hnot (he ▸ h.first)
      have hi := (Finset.mem_insert.mp hc.1).resolve_left hik
      exact hmiss ⟨hi, (Finset.mem_insert.mp hc.2).symm⟩
    · simp only [Function.update_apply] at hl
      split at hl
      next => cases hl
      next hne =>
        obtain ⟨hl', counted', y', hsum', hx, hmiss'⟩ := h.held l x hl
        refine ⟨?_, counted', y', hsum'.mono (Finset.subset_insert k s.stored), hx, hmiss'⟩
        exact fun hc => (Finset.mem_insert.mp hc).elim hne hl'

/-- **The first call that stores too early** and the one that is still to store
do not count each other. -/
theorem lost_of_store (hstep : Step amount s (i, .store) t) (h : Orderly amount v s) (hne : i ≠ j)
    (hj : (s.held j).isSome) : Lost amount v i j t := by
  cases hstep with
  | @store _ x hi =>
    obtain ⟨hnot, rfl⟩ := h.held i x hi
    obtain ⟨y, hy⟩ := Option.isSome_iff_exists.mp hj
    have hjnot := (h.held j y hy).1
    have hcell : Sum amount v s s.stored s.cell := ⟨Finset.Subset.refl _, h.cell⟩
    refine ⟨hne, Finset.mem_insert_self .., ?_, ⟨insert i s.stored, ⟨Finset.Subset.refl _, ?_⟩, fun hc => ?_⟩,
      fun k x hk => ?_⟩
    · right
      simpa [Function.update_of_ne hne.symm] using hj
    · show s.cell + amount i = _
      rw [Finset.sum_insert hnot, h.cell, add_assoc, add_comm (amount i)]
    · exact (Finset.mem_insert.mp hc.2).elim (fun he => hne he.symm) hjnot
    · simp only [Function.update_apply] at hk
      split at hk
      next => cases hk
      next hki =>
        obtain ⟨hknot, rfl⟩ := h.held k x hk
        refine ⟨fun hc => ?_, s.stored, s.cell, hcell.mono (Finset.subset_insert i s.stored), rfl, fun hc => hnot hc.1⟩
        exact (Finset.mem_insert.mp hc).elim hki hknot

theorem orderly_or_lost {steps : List (State ι α × ι × Action)} (hrun : Run (Step amount) s steps t)
    (h : Orderly amount v s) : (Apart steps ∧ Orderly amount v t) ∨ (¬ Apart steps ∧ ∃ i j, Lost amount v i j t) := by
  induction hrun with
  | nil s => exact .inl ⟨fun p hp => absurd hp List.not_mem_nil, h⟩
  | @cons s t u e steps step rest ih =>
    have hsplit : Apart ((s, e) :: steps) ↔ (e.2 = .store → ∀ j, j ≠ e.1 → s.held j = none) ∧ Apart steps :=
      List.forall_mem_cons
    by_cases hapart : e.2 = .store → ∀ j, j ≠ e.1 → s.held j = none
    · rcases ih (orderly_step step h hapart) with ⟨hrest, hu⟩ | ⟨hrest, hu⟩
      · exact .inl ⟨hsplit.mpr ⟨hapart, hrest⟩, hu⟩
      · exact .inr ⟨fun ha => hrest (hsplit.mp ha).2, hu⟩
    · refine .inr ⟨fun ha => hapart (hsplit.mp ha).1, ?_⟩
      simp only [Classical.not_imp, not_forall] at hapart
      obtain ⟨hstore, j, hne, hj⟩ := hapart
      have hlost : Lost amount v e.1 j t := by
        obtain ⟨i, action⟩ := e
        cases hstore
        exact lost_of_store step h hne.symm (Option.isSome_iff_ne_none.mpr hj)
      exact ⟨e.1, j, (rest.throughout (fun _ _ _ hstep h => lost_step hstep h) hlost).2⟩

/-- **Calls that are apart count.** -/
theorem cell_eq {steps : List (State ι α × ι × Action)} (hrun : Run (Step amount) (start v) steps t)
    (hapart : Apart steps) : t.cell = v + ∑ k ∈ t.stored, amount k := by
  rcases orderly_or_lost hrun (orderly_start v) with ⟨-, ht⟩ | ⟨hno, -⟩
  · exact ht.cell
  · exact absurd hapart hno

/-- **Of calls that are not apart, some do not count**, once all have stored. -/
theorem cell_lt [PartialOrder α] [IsOrderedCancelAddMonoid α] {steps : List (State ι α × ι × Action)}
    (hrun : Run (Step amount) (start v) steps t) (hapart : ¬ Apart steps) (hall : ∀ k, t.held k = none)
    (hpos : ∀ k ∈ t.stored, 0 < amount k) : t.cell < v + ∑ k ∈ t.stored, amount k := by
  rcases orderly_or_lost hrun (orderly_start v) with ⟨ha, -⟩ | ⟨-, i, j, ht⟩
  · exact absurd ha hapart
  obtain ⟨counted, ⟨hsub, hcell⟩, hmiss⟩ := ht.cell
  have hj : j ∈ t.stored := ht.second.resolve_right (by simp [hall j])
  obtain ⟨k, hk, hnot⟩ : ∃ k ∈ t.stored, k ∉ counted := by
    by_cases hi : i ∈ counted
    · exact ⟨j, hj, fun hc => hmiss ⟨hi, hc⟩⟩
    · exact ⟨i, ht.first, hi⟩
  rw [hcell]
  apply add_lt_add_right
  exact Finset.sum_lt_sum_of_subset hsub hk hnot (hpos k hk) fun l hl _ => (hpos l hl).le

end Additions
