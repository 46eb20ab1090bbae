/-
# Filling a slot once, under a lock

Threads that share a slot look whether it is filled, without a lock. One that
finds it empty takes the lock, looks again, and fills the slot if it still is
empty; every thread passes in the end. Steps of any number of threads come in
any order.

The second look is what counts: between it and the filling no other thread has
the lock, so in any run the slot is filled at most once, and a thread that has
passed has left it filled (`inv_step`, `fills_le_one`).

Key definitions: `Once.State`, `Once.Step`, `Once.Inv`, `Once.fills`.
Key theorems: `Once.inv_step`, `Once.fills_le_one`.
-/
import Plethora.Lib.Runs
import Mathlib.Logic.Function.Basic
import Mathlib.Data.List.Basic

namespace Once

/-- Where a thread stands. -/
inductive Place
  | away
  | waiting
  | inside
  | filling
  | leaving
  | past
  deriving DecidableEq, Repr

/-- Between taking the lock and giving it back. -/
def Place.holds : Place → Prop
  | .inside | .filling | .leaving => True
  | _ => False

structure State (ι : Type) where
  filled : Bool
  lock : Option ι
  place : ι → Place

inductive Action
  | look
  | acquire
  | recheck
  | fill
  | release
  | back
  deriving DecidableEq, Repr

variable {ι : Type}

/-- Nobody has looked yet. -/
def start : State ι := { filled := false, lock := none, place := fun _ => .away }

/-- The lock is with the thread that stands where it is held, and where the
threads stand tells whether the slot is filled. -/
structure Inv (s : State ι) : Prop where
  owner : ∀ i, s.lock = some i ↔ (s.place i).holds
  empty : ∀ i, s.place i = .filling → s.filled = false
  full : ∀ i, s.place i = .leaving ∨ s.place i = .past → s.filled = true

theorem inv_start : Inv (start : State ι) where
  owner i := by simp [start, Place.holds]
  empty i h := by cases h
  full i h := by rcases h with h | h <;> cases h

/-- Two threads that stand where the lock is held are one. -/
theorem Inv.holds_unique {s : State ι} (h : Inv s) {i j : ι} (hi : (s.place i).holds) (hj : (s.place j).holds) :
    i = j :=
  Option.some.inj (((h.owner i).mpr hi).symm.trans ((h.owner j).mpr hj))

variable [DecidableEq ι]

def State.move (s : State ι) (i : ι) (p : Place) : State ι := { s with place := Function.update s.place i p }

/-- What one thread does next. -/
inductive Step : State ι → ι × Action → State ι → Prop
  | look {s : State ι} {i : ι} (hi : s.place i = .away) :
      Step s (i, .look) (s.move i (if s.filled then .past else .waiting))
  | acquire {s : State ι} {i : ι} (hi : s.place i = .waiting) (hfree : s.lock = none) :
      Step s (i, .acquire) { s.move i .inside with lock := some i }
  | recheck {s : State ι} {i : ι} (hi : s.place i = .inside) :
      Step s (i, .recheck) (s.move i (if s.filled then .leaving else .filling))
  | fill {s : State ι} {i : ι} (hi : s.place i = .filling) :
      Step s (i, .fill) { s.move i .leaving with filled := true }
  | release {s : State ι} {i : ι} (hi : s.place i = .leaving) :
      Step s (i, .release) { s.move i .past with lock := none }
  | back {s : State ι} {i : ι} (hi : s.place i = .past) : Step s (i, .back) (s.move i .away)

theorem place_move (s : State ι) (i j : ι) (p : Place) :
    (s.move i p).place j = if j = i then p else s.place j := Function.update_apply ..

/-- What a move of one thread keeps: the lock and the slot are as they were. -/
theorem inv_move {s : State ι} (h : Inv s) {i : ι} {p : Place} (hholds : p.holds ↔ (s.place i).holds)
    (hempty : p = .filling → s.filled = false) (hfull : p = .leaving ∨ p = .past → s.filled = true) :
    Inv (s.move i p) where
  owner j := by
    rw [place_move]
    split
    next heq => exact heq ▸ (h.owner i).trans hholds.symm
    next => exact h.owner j
  empty j hj := by
    rw [place_move] at hj
    split at hj
    · exact hempty hj
    · exact h.empty j hj
  full j hj := by
    rw [place_move] at hj
    split at hj
    · exact hfull hj
    · exact h.full j hj

theorem inv_step {s t : State ι} {e : ι × Action} (hstep : Step s e t) (h : Inv s) : Inv t := by
  cases hstep with
  | @look i hi =>
    refine inv_move h ?_ ?_ ?_ <;> cases hf : s.filled <;> simp [hi, Place.holds]
  | @acquire i hi hfree =>
    have hfree' : ∀ j, ¬(s.place j).holds := fun j hj => by simpa [hfree] using (h.owner j).mpr hj
    refine ⟨fun j => ?_, fun j hj => ?_, fun j hj => ?_⟩
    · simp only [Option.some.injEq, place_move]
      split
      next heq => exact iff_of_true heq.symm trivial
      next hne => exact iff_of_false (fun heq => hne heq.symm) (hfree' j)
    · simp only [place_move] at hj
      split at hj
      · cases hj
      · exact h.empty j hj
    · simp only [place_move] at hj
      split at hj
      · rcases hj with hj | hj <;> cases hj
      · exact h.full j hj
  | @recheck i hi =>
    refine inv_move h ?_ ?_ ?_ <;> cases hf : s.filled <;> simp [hi, Place.holds]
  | @fill i hi =>
    have hmove : ∀ j, ({ s.move i .leaving with filled := true } : State ι).place j =
        if j = i then .leaving else s.place j := fun j => place_move s i j .leaving
    refine ⟨fun j => ?_, fun j hj => ?_, fun _ _ => rfl⟩
    · rw [hmove]
      split
      next heq => exact heq ▸ (h.owner i).trans (by simp [hi, Place.holds])
      next => exact h.owner j
    · -- a second thread that is filling would have the lock as well
      rw [hmove] at hj
      split at hj
      · cases hj
      next hne => exact absurd (h.holds_unique (by simp [hj, Place.holds]) (by simp [hi, Place.holds])) hne
  | @release i hi =>
    have hmove : ∀ j, ({ s.move i .past with lock := none } : State ι).place j =
        if j = i then .past else s.place j := fun j => place_move s i j .past
    refine ⟨fun j => ?_, fun j hj => ?_, fun j hj => ?_⟩
    · rw [hmove]
      refine iff_of_false (fun heq => by cases heq) ?_
      split
      next => exact id
      next hne => exact fun hj => hne (h.holds_unique hj (by simp [hi, Place.holds]))
    · rw [hmove] at hj
      split at hj
      · cases hj
      · exact h.empty j hj
    · rw [hmove] at hj
      split at hj
      · exact h.full i (.inl hi)
      · exact h.full j hj
  | @back i hi =>
    exact inv_move h (by simp [hi, Place.holds]) (by simp) (by simp)

/-- How often the slot is filled in a run. -/
def fills (steps : List (State ι × ι × Action)) : ℕ := steps.countP (·.2.2 = .fill)

/-- No step empties the slot, and only a filling fills it. -/
theorem filled_of_step {s t : State ι} {e : ι × Action} (hstep : Step s e t) (h : Inv s) :
    (e.2 = .fill → s.filled = false) ∧ (t.filled = true ↔ s.filled = true ∨ e.2 = .fill) := by
  cases hstep with
  | fill hi => exact ⟨fun _ => h.empty _ hi, by simp⟩
  | _ => exact ⟨fun he => Action.noConfusion he, by simp [State.move]⟩

/-- A filled slot is not filled again. -/
theorem fills_of_filled {s u : State ι} {steps : List (State ι × ι × Action)} (hrun : Run Step s steps u) (h : Inv s)
    (hf : s.filled = true) : fills steps = 0 := by
  induction hrun with
  | nil => rfl
  | @cons s t u e steps step rest ih =>
    have hne : e.2 ≠ .fill := fun he => by simp [(filled_of_step step h).1 he] at hf
    have hrest := ih (inv_step step h) ((filled_of_step step h).2.mpr (.inl hf))
    simpa [fills, List.countP_cons, hne] using hrest

theorem fills_le_one {s u : State ι} {steps : List (State ι × ι × Action)} (hrun : Run Step s steps u) (h : Inv s) :
    fills steps ≤ 1 := by
  induction hrun with
  | nil => exact Nat.zero_le 1
  | @cons s t u e steps step rest ih =>
    by_cases he : e.2 = .fill
    · have hzero := fills_of_filled rest (inv_step step h) ((filled_of_step step h).2.mpr (.inr he))
      simp only [fills] at hzero ⊢
      simp [he, hzero]
    · simpa [fills, List.countP_cons, he] using ih (inv_step step h)

end Once
