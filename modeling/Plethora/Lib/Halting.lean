/-
# Machines that halt

A machine takes steps until it has none. Where every step makes a measure
smaller, it halts within as many steps as the measure of its state says
(`step_runFor`), in a state that does not depend on how many more it is given
(`runFor_eq`). So the state it halts in is that of any state it comes to
(`final_of_step`), and what every step keeps holds there (`runFor_invariant`).

Key definitions: `runFor`, `final`.
Key theorems: `step_runFor`, `runFor_eq`, `final_of_step`, `runFor_invariant`.
-/
import Mathlib.Tactic.Common

namespace Halting

variable {σ : Type} {step : σ → Option σ}

/-- The state after so many steps, or where the machine halts before. -/
def runFor (step : σ → Option σ) : ℕ → σ → σ
  | 0, s => s
  | n + 1, s =>
    match step s with
    | none => s
    | some t => runFor step n t

theorem runFor_of_halted {s : σ} (h : step s = none) (n : ℕ) : runFor step n s = s := by
  cases n with
  | zero => rfl
  | succ n => rw [runFor, h]

theorem runFor_succ {s t : σ} (h : step s = some t) (n : ℕ) : runFor step (n + 1) s = runFor step n t := by
  rw [runFor, h]

/-- What holds at first and is kept by every step holds in the end. -/
theorem runFor_invariant {Inv : σ → Prop} (hstep : ∀ s t, step s = some t → Inv s → Inv t) :
    ∀ (n : ℕ) {s : σ}, Inv s → Inv (runFor step n s)
  | 0, _, h => h
  | n + 1, s, h => by
    cases hs : step s with
    | none => rwa [runFor_of_halted hs]
    | some t =>
      rw [runFor_succ hs]
      exact runFor_invariant hstep n (hstep s t hs h)

section Measured

variable {measure : σ → ℕ} (hmeasure : ∀ s t, step s = some t → measure t < measure s)
include hmeasure

/-- **The machine halts** within its measure. -/
theorem step_runFor : ∀ {n : ℕ} {s : σ}, measure s ≤ n → step (runFor step n s) = none
  | n, s, h => by
    cases hs : step s with
    | none => rwa [runFor_of_halted hs]
    | some t =>
      have hlt := hmeasure s t hs
      cases n with
      | zero => omega
      | succ n =>
        rw [runFor_succ hs]
        exact step_runFor (show measure t ≤ n by omega)

theorem runFor_eq : ∀ {n k : ℕ} {s : σ}, measure s ≤ n → measure s ≤ k → runFor step n s = runFor step k s
  | n, k, s, hn, hk => by
    cases hs : step s with
    | none => rw [runFor_of_halted hs, runFor_of_halted hs]
    | some t =>
      have hlt := hmeasure s t hs
      cases n with
      | zero => omega
      | succ n =>
        cases k with
        | zero => omega
        | succ k =>
          rw [runFor_succ hs, runFor_succ hs]
          exact runFor_eq (show measure t ≤ n by omega) (show measure t ≤ k by omega)

end Measured

/-- The state that a machine with this measure halts in. -/
def final (step : σ → Option σ) (measure : σ → ℕ) (s : σ) : σ := runFor step (measure s) s

variable {measure : σ → ℕ}

theorem final_of_halted {s : σ} (h : step s = none) : final step measure s = s := runFor_of_halted h _

/-- A step leads to the same end. -/
theorem final_of_step (hmeasure : ∀ s t, step s = some t → measure t < measure s) {s t : σ} (h : step s = some t) :
    final step measure s = final step measure t := by
  have hlt := hmeasure s t h
  obtain ⟨n, hn⟩ : ∃ n, measure s = n + 1 := Nat.exists_eq_succ_of_ne_zero (by omega)
  rw [final, hn, runFor_succ h]
  exact runFor_eq hmeasure (by omega) (Nat.le_refl _)

end Halting
