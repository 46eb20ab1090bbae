/-
# A window over what was seen last

A list of fixed length whose items move one place to the front when a new one
comes in at the end: a loop copies each item from the place behind it
(`shiftLeft`), and the new one is put in the last place. However often that is
done, the window is the end of all that was there and came (`push_foldl`).

Key definitions: `Window.shiftLeft`, `Window.push`.
Key theorems: `Window.shiftLeft_eq`, `Window.push_eq`, `Window.push_foldl`.
-/
import Mathlib.Data.List.Basic
import Mathlib.Tactic.Common

namespace Window

variable {α : Type}

/-- The loop over the first `n` places: each is given what is behind it. -/
def shiftLeft (n : ℕ) (d : List α) : List α :=
  (List.range n).foldl (fun d j => match d[j + 1]? with
    | some x => d.set j x
    | none => d) d

/-- The window of `n + 1` places with a new item in the last one. -/
def push (n : ℕ) (d : List α) (x : α) : List α := (shiftLeft n d).set n x

/-- After `k` rounds of the loop, the first `k` places hold what was behind them. -/
theorem shiftLeft_take (d : List α) : ∀ k < d.length, shiftLeft k d = d.tail.take k ++ d.drop k
  | 0, _ => by simp [shiftLeft]
  | k + 1, h => by
    have ih := shiftLeft_take d k (by omega)
    have hlen : (d.tail.take k).length = k := by
      rw [List.length_take, List.length_tail]
      omega
    have hnext : (d.tail.take k ++ d.drop k)[k + 1]? = d[k + 1]? := by
      rw [List.getElem?_append_right (by omega), hlen, List.getElem?_drop]
      congr 1
      omega
    have hsome : d[k + 1]? = some d[k + 1] := List.getElem?_eq_getElem h
    have hdrop : d.drop k = d[k] :: d.drop (k + 1) := List.drop_eq_getElem_cons (by omega)
    have htail : d.tail.take (k + 1) = d.tail.take k ++ [d[k + 1]] := by
      rw [List.take_add_one, List.getElem?_tail, hsome]
      rfl
    unfold shiftLeft at ih ⊢
    rw [List.range_succ, List.foldl_append, ih, List.foldl_cons, List.foldl_nil, hnext, hsome]
    simp only
    rw [List.set_append_right _ _ (by omega), hlen, Nat.sub_self, hdrop, List.set_cons_zero, htail]
    simp

theorem shiftLeft_eq {n : ℕ} {d : List α} (h : d.length = n + 1) : shiftLeft n d = d.tail ++ d.drop n := by
  rw [shiftLeft_take d n (by omega), List.take_of_length_le]
  rw [List.length_tail]
  omega

/-- The window moves on by one. -/
theorem push_eq {n : ℕ} {d : List α} (h : d.length = n + 1) (x : α) : push n d x = d.tail ++ [x] := by
  have hlen : d.tail.length = n := by
    rw [List.length_tail]
    omega
  obtain ⟨y, hy⟩ : ∃ y, d.drop n = [y] := by
    apply List.length_eq_one_iff.mp
    rw [List.length_drop]
    omega
  rw [push, shiftLeft_eq h, List.set_append_right _ _ (by omega), hlen, Nat.sub_self, hy]
  rfl

theorem push_length {n : ℕ} {d : List α} (h : d.length = n + 1) (x : α) : (push n d x).length = n + 1 := by
  rw [push_eq h, List.length_append, List.length_tail, List.length_singleton]
  omega

/-- **The window is the end** of what was there at first and what came since. -/
theorem push_foldl {n : ℕ} : ∀ (xs : List α) {d : List α}, d.length = n + 1 →
    xs.foldl (push n) d = (d ++ xs).drop xs.length
  | [], d, _ => by simp
  | x :: xs, d, h => by
    rw [List.foldl_cons, push_foldl xs (push_length h x), push_eq h]
    cases d with
    | nil => simp at h
    | cons y d => simp

end Window
