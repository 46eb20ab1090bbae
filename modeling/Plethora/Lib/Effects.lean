/-
# Calls that change a state, throw, or never return

`Eff ε σ α` is a call on a state `σ`: it returns a value, throws an `ε` with
the state as it then is, or is still running when the stack it was given is
used up (`unfinished`). A mutually recursive group of methods is written as
one body that takes the recursive method as an argument, tied by recursion on
the depth of the stack.

`Ensures x s Q E` is partial correctness from the state `s`: what the call
returns satisfies `Q`, a state it throws in satisfies `E`. A body is verified
statement by statement (`ensures_bind`), a callee by its own `Ensures`.

What a call keeps, whether it returns or throws (`Keeps`), its parts keep.

`Finishes x s Q` says in addition that the call comes to an end: it returns in
`Q`, or throws. `Ends x s P` is about calls whose exceptions are caught: they
come to an end, and leave a state with `P` either way.

Key definitions: `Outcome`, `Eff`, `Ensures`, `Keeps`, `Finishes`, `Ends`.
Key theorems: `ensures_bind`, `ensures_mono`, `ensures_lift`, `keeps_bind`,
`finishes_bind`, `finishes_cases`, `ends_bind`.
-/
import Mathlib.Tactic.Common

/-- How a call ends. -/
inductive Outcome (ε σ α : Type)
  | returned (value : α) (state : σ)
  | thrown (error : ε) (state : σ)
  | unfinished

/-- A call on a state `σ` that may throw an `ε`. -/
def Eff (ε σ α : Type) : Type := σ → Outcome ε σ α

namespace Eff

variable {ε σ α β : Type}

instance : Monad (Eff ε σ) where
  pure a := fun s => .returned a s
  bind x f := fun s =>
    match x s with
    | .returned a s' => f a s'
    | .thrown e s' => .thrown e s'
    | .unfinished => .unfinished

theorem bind_apply (x : Eff ε σ α) (f : α → Eff ε σ β) (s : σ) : (x >>= f) s =
    match x s with
    | .returned a s' => f a s'
    | .thrown e s' => .thrown e s'
    | .unfinished => .unfinished := rfl

def get : Eff ε σ σ := fun s => .returned s s

def modify (f : σ → σ) : Eff ε σ Unit := fun s => .returned () (f s)

/-- A computation that throws but changes nothing. -/
def lift (x : Except ε α) : Eff ε σ α := fun s =>
  match x with
  | .ok a => .returned a s
  | .error e => .thrown e s

/-- No stack is left. -/
def overflow : Eff ε σ α := fun _ => .unfinished

/-- Run from `s`, the call returns only values and states in `Q` and throws
only in states in `E`. -/
def Ensures (x : Eff ε σ α) (s : σ) (Q : α → σ → Prop) (E : σ → Prop) : Prop :=
  match x s with
  | .returned a s' => Q a s'
  | .thrown _ s' => E s'
  | .unfinished => True

variable {s : σ} {Q : α → σ → Prop} {E : σ → Prop}

theorem ensures_pure {a : α} (h : Q a s) : Ensures (pure a : Eff ε σ α) s Q E := h

/-- Reading the state, then the rest in it. -/
theorem ensures_get_bind {f : σ → Eff ε σ α} (h : Ensures (f s) s Q E) : Ensures (get >>= f) s Q E := h

/-- Changing the state, then the rest in the new one. -/
theorem ensures_modify_bind {g : σ → σ} {f : Unit → Eff ε σ α} (h : Ensures (f ()) (g s) Q E) :
    Ensures (modify g >>= f) s Q E := h

theorem ensures_overflow : Ensures (overflow : Eff ε σ α) s Q E := trivial

theorem ensures_lift {x : Except ε α} (h : ∀ a, x = .ok a → Q a s) (he : ∀ e, x = .error e → E s) :
    Ensures (lift x : Eff ε σ α) s Q E := by
  cases x with
  | ok a => exact h a rfl
  | error e => exact he e rfl

/-- One statement, then the rest from wherever it returned. -/
theorem ensures_bind {x : Eff ε σ α} {f : α → Eff ε σ β} {R : β → σ → Prop} (hx : Ensures x s Q E)
    (hf : ∀ a s', Q a s' → Ensures (f a) s' R E) : Ensures (x >>= f) s R E := by
  unfold Ensures at hx ⊢
  simp only [bind]
  cases hr : x s with
  | returned a s' =>
    rw [hr] at hx
    exact hf a s' hx
  | thrown e s' =>
    rw [hr] at hx
    exact hx
  | unfinished => trivial

theorem ensures_mono {x : Eff ε σ α} {Q' : α → σ → Prop} {E' : σ → Prop} (hx : Ensures x s Q E)
    (hQ : ∀ a s', Q a s' → Q' a s') (hE : ∀ s', E s' → E' s') : Ensures x s Q' E' := by
  unfold Ensures at hx ⊢
  cases hr : x s with
  | returned a s' =>
    rw [hr] at hx
    exact hQ a s' hx
  | thrown e s' =>
    rw [hr] at hx
    exact hE s' hx
  | unfinished => trivial

/-- A call that returned has its postcondition. -/
theorem Ensures.returned {x : Eff ε σ α} {a : α} {s' : σ} (hx : Ensures x s Q E)
    (h : x s = .returned a s') : Q a s' := by
  rw [Ensures, h] at hx
  exact hx

theorem Ensures.thrown {x : Eff ε σ α} {e : ε} {s' : σ} (hx : Ensures x s Q E)
    (h : x s = .thrown e s') : E s' := by
  rw [Ensures, h] at hx
  exact hx

/-- From a state with the invariant, the call comes only to states with it. -/
def Keeps (I : σ → Prop) (x : Eff ε σ α) : Prop := ∀ s, I s → Ensures x s (fun _ s' => I s') I

section Keeps

variable {I : σ → Prop}

theorem keeps_pure (a : α) : Keeps I (pure a : Eff ε σ α) := fun _ h => h

theorem keeps_get : Keeps I (get : Eff ε σ σ) := fun _ h => h

theorem keeps_modify {f : σ → σ} (h : ∀ s, I s → I (f s)) : Keeps I (modify f : Eff ε σ Unit) := h

theorem keeps_overflow : Keeps I (overflow : Eff ε σ α) := fun _ _ => trivial

theorem keeps_lift (x : Except ε α) : Keeps I (lift x : Eff ε σ α) := fun _ h =>
  ensures_lift (fun _ _ => h) fun _ _ => h

theorem keeps_bind {x : Eff ε σ α} {f : α → Eff ε σ β} (hx : Keeps I x) (hf : ∀ a, Keeps I (f a)) :
    Keeps I (x >>= f) := fun s h => ensures_bind (hx s h) fun a s' h' => hf a s' h'

end Keeps

/-- Run from `s`, the call comes to an end, and what it returns is in `Q`. -/
def Finishes (x : Eff ε σ α) (s : σ) (Q : α → σ → Prop) : Prop :=
  match x s with
  | .returned a s' => Q a s'
  | .thrown _ _ => True
  | .unfinished => False

theorem finishes_pure {a : α} (h : Q a s) : Finishes (pure a : Eff ε σ α) s Q := h

theorem finishes_get_bind {f : σ → Eff ε σ α} (h : Finishes (f s) s Q) : Finishes (get >>= f) s Q := h

theorem finishes_modify_bind {g : σ → σ} {f : Unit → Eff ε σ α} (h : Finishes (f ()) (g s) Q) :
    Finishes (modify g >>= f) s Q := h

theorem finishes_lift {x : Except ε α} (h : ∀ a, x = .ok a → Q a s) : Finishes (lift x : Eff ε σ α) s Q := by
  cases x with
  | ok a => exact h a rfl
  | error e => trivial

theorem finishes_bind {x : Eff ε σ α} {f : α → Eff ε σ β} {R : β → σ → Prop} (hx : Finishes x s Q)
    (hf : ∀ a s', Q a s' → Finishes (f a) s' R) : Finishes (x >>= f) s R := by
  unfold Finishes at hx ⊢
  simp only [bind]
  cases hr : x s with
  | returned a s' =>
    rw [hr] at hx
    exact hf a s' hx
  | thrown e s' => trivial
  | unfinished =>
    rw [hr] at hx
    exact hx.elim

theorem finishes_mono {x : Eff ε σ α} {Q' : α → σ → Prop} (hx : Finishes x s Q)
    (hQ : ∀ a s', Q a s' → Q' a s') : Finishes x s Q' := by
  unfold Finishes at hx ⊢
  cases hr : x s with
  | returned a s' =>
    rw [hr] at hx
    exact hQ a s' hx
  | thrown e s' => trivial
  | unfinished =>
    rw [hr] at hx
    exact hx.elim

/-- How a call that comes to an end does. -/
theorem finishes_cases {x : Eff ε σ α} (hx : Finishes x s Q) :
    (∃ a s', x s = .returned a s' ∧ Q a s') ∨ ∃ e s', x s = .thrown e s' := by
  unfold Finishes at hx
  cases hr : x s with
  | returned a s' =>
    rw [hr] at hx
    exact Or.inl ⟨a, s', rfl, hx⟩
  | thrown e s' => exact Or.inr ⟨e, s', rfl⟩
  | unfinished =>
    rw [hr] at hx
    exact hx.elim

/-- Run from `s`, the call comes to an end, in a state with `P` whether it
returns or throws. -/
def Ends (x : Eff ε σ α) (s : σ) (P : σ → Prop) : Prop :=
  match x s with
  | .returned _ s' => P s'
  | .thrown _ s' => P s'
  | .unfinished => False

section Ends

variable {P R : σ → Prop}

theorem ends_get_bind {f : σ → Eff ε σ α} (h : Ends (f s) s P) : Ends (get >>= f) s P := h

theorem ends_modify_bind {g : σ → σ} {f : Unit → Eff ε σ α} (h : Ends (f ()) (g s) P) :
    Ends (modify g >>= f) s P := h

theorem ends_lift (x : Except ε α) (h : P s) : Ends (lift x : Eff ε σ α) s P := by
  cases x <;> exact h

theorem ends_bind {x : Eff ε σ α} {f : α → Eff ε σ β} (hx : Ends x s P) (hf : ∀ a s', P s' → Ends (f a) s' R)
    (hPR : ∀ s', P s' → R s') : Ends (x >>= f) s R := by
  unfold Ends at hx ⊢
  simp only [bind]
  cases hr : x s with
  | returned a s' =>
    rw [hr] at hx
    exact hf a s' hx
  | thrown e s' =>
    rw [hr] at hx
    exact hPR s' hx
  | unfinished =>
    rw [hr] at hx
    exact hx.elim

theorem ends_mono {x : Eff ε σ α} (hx : Ends x s P) (hPR : ∀ s', P s' → R s') : Ends x s R := by
  unfold Ends at hx ⊢
  cases hr : x s with
  | returned a s' =>
    rw [hr] at hx
    exact hPR s' hx
  | thrown e s' =>
    rw [hr] at hx
    exact hPR s' hx
  | unfinished =>
    rw [hr] at hx
    exact hx.elim

end Ends

/-- The state a call leaves, also where it throws. -/
def left (x : Eff ε σ α) (s : σ) : σ :=
  match x s with
  | .returned _ s' => s'
  | .thrown _ s' => s'
  | .unfinished => s

theorem Ends.left {x : Eff ε σ α} {P : σ → Prop} (hx : Ends x s P) : P (x.left s) := by
  unfold Ends at hx
  unfold Eff.left
  cases hr : x s with
  | returned a s' =>
    rw [hr] at hx
    exact hx
  | thrown e s' =>
    rw [hr] at hx
    exact hx
  | unfinished =>
    rw [hr] at hx
    exact hx.elim

end Eff
