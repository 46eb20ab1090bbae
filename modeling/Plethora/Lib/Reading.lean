/-
# Items read one after another

A list that is written as items in a row and a mark after the last of them is
read by a reader of one item, which leaves what comes after it. `items` reads
on until it comes to the mark; every item takes at least one element, so as many
rounds as there are elements are enough.

What is read of a row of written items is what was written (`items_flatMap`),
and a row is read only if each of its items is (`good_of_items`).

Key definitions: `expect`, `cutAtLast`, `items`.
Key theorems: `expect_append`, `cutAtLast_append`, `items_flatMap`, `good_of_items`.
-/
import Mathlib.Tactic.Common
import Mathlib.Order.Defs.LinearOrder
import Plethora.Lib.Pieces

namespace ItemReader

section Pieces

variable {σ : Type} [DecidableEq σ]

/-- A list without what it has to begin with. -/
def expect (literal t : List σ) : Option (List σ) := if literal <+: t then some (t.drop literal.length) else none

@[simp] theorem expect_append (literal t : List σ) : expect literal (literal ++ t) = some t := by
  rw [expect, if_pos (List.prefix_append ..), List.drop_left]

theorem expect_eq_none {literal t : List σ} (h : ¬ literal <+: t) : expect literal t = none := if_neg h

theorem expect_cons_ne {a b : σ} (h : a ≠ b) (literal t : List σ) : expect (a :: literal) (b :: t) = none :=
  expect_eq_none fun hp => h (List.cons_prefix_cons.mp hp).1

/-- What is before the last separator, and what is after it. -/
def cutAtLast (a : σ) (t : List σ) : Option (List σ × List σ) :=
  (expect [a] (t.reverse.dropWhile (· ≠ a))).map fun front => (front.reverse, (t.reverse.takeWhile (· ≠ a)).reverse)

theorem cutAtLast_append {a : σ} {s t : List σ} (h : a ∉ t) : cutAtLast a (s ++ a :: t) = some (s, t) := by
  have hrev : (s ++ a :: t).reverse = t.reverse ++ a :: s.reverse := by simp
  have ht : a ∉ t.reverse := by simpa using h
  rw [cutAtLast, hrev, Pieces.dropWhile_append_cons ht, Pieces.takeWhile_append_cons ht]
  show (expect [a] ([a] ++ s.reverse)).map _ = _
  rw [expect_append, Option.map_some, List.reverse_reverse, List.reverse_reverse]

end Pieces

section Items

variable {σ α β : Type} {read : List σ → Option (α × List σ)} {mark : List σ → Option (List σ)}

/-- The items up to the mark, in so many rounds, and what comes after it. -/
def items (read : List σ → Option (α × List σ)) (mark : List σ → Option (List σ)) :
    ℕ → List σ → Option (List α × List σ)
  | 0, _ => none
  | n + 1, t =>
    match mark t with
    | some rest => some ([], rest)
    | none => do
      let (a, rest) ← read t
      let (more, rest) ← items read mark n rest
      return (a :: more, rest)

theorem items_of_mark {t rest : List σ} (h : mark t = some rest) (n : ℕ) :
    items read mark (n + 1) t = some ([], rest) := by
  rw [items, h]

theorem items_of_read {t rest : List σ} {a : α} (hm : mark t = none) (h : read t = some (a, rest)) (n : ℕ) :
    items read mark (n + 1) t = (items read mark n rest).map fun p => (a :: p.1, p.2) := by
  rw [items, hm, h]
  cases hi : items read mark n rest <;> simp [hi]

theorem items_of_none {t : List σ} (hm : mark t = none) (h : read t = none) (n : ℕ) :
    items read mark (n + 1) t = none := by
  rw [items, hm, h]
  rfl

variable {written : β → List σ} {value : β → α}

/-- **A row of written items is read**, with what comes after its mark. -/
theorem items_flatMap {t rest : List σ} (hend : mark t = some rest) : ∀ {bs : List β},
    (∀ b ∈ bs, ∀ t, mark (written b ++ t) = none ∧ read (written b ++ t) = some (value b, t)) →
    ∀ {n : ℕ}, bs.length < n → items read mark n (bs.flatMap written ++ t) = some (bs.map value, rest)
  | _, _, 0, hn => absurd hn (Nat.not_lt_zero _)
  | [], _, n + 1, _ => items_of_mark hend n
  | b :: bs, h, n + 1, hn => by
    obtain ⟨hm, hr⟩ := h b List.mem_cons_self (bs.flatMap written ++ t)
    have ih := items_flatMap hend (fun c hc => h c (List.mem_cons_of_mem _ hc)) (Nat.lt_of_succ_lt_succ hn)
    rw [List.flatMap_cons, List.append_assoc, items_of_read hm hr, ih]
    rfl

/-- A row that is read has no item that is not. -/
theorem good_of_items {good : β → Prop} {t : List σ} {r : List α × List σ} : ∀ {bs : List β} {n : ℕ},
    (∀ b ∈ bs, ∀ t, mark (written b ++ t) = none ∧
      (good b → read (written b ++ t) = some (value b, t)) ∧ (¬ good b → read (written b ++ t) = none)) →
    items read mark n (bs.flatMap written ++ t) = some r → ∀ b ∈ bs, good b
  | [], _, _, _ => nofun
  | _ :: _, 0, _, hr => by cases hr
  | b :: bs, n + 1, h, hr => by
    obtain ⟨hm, hgood, hbad⟩ := h b List.mem_cons_self (bs.flatMap written ++ t)
    rw [List.flatMap_cons, List.append_assoc] at hr
    by_cases hb : good b
    · rw [items_of_read hm (hgood hb), Option.map_eq_some_iff] at hr
      obtain ⟨p, hp, -⟩ := hr
      exact List.forall_mem_cons.mpr ⟨hb, good_of_items (fun c hc => h c (List.mem_cons_of_mem _ hc)) hp⟩
    · rw [items_of_none hm (hbad hb)] at hr
      cases hr

theorem length_le_flatMap (h : ∀ b, written b ≠ []) (bs : List β) : bs.length ≤ (bs.flatMap written).length := by
  induction bs with
  | nil => simp
  | cons b bs ih =>
    have hpos := List.length_pos_of_ne_nil (h b)
    rw [List.flatMap_cons, List.length_append, List.length_cons]
    omega

end Items

end ItemReader
