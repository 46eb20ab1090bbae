/-
# Texts of floating-point numbers

The grammar that the libraries of several languages share: digits with at most
one point among them, and an exponent. Each of the readers takes what it finds
from the front of a text and gives the rest, `none` where the number is not
well formed; what else a library takes (words, suffixes, hexadecimal digits) it
puts together from these. Which number a text shows is in `FloatValue`.

A number begins with a digit or a point (`decimal_head`), and digits are a
number with or without a point among them (`decimal_digits`, `decimal_point`).

Key definitions: `significand`, `exponent`, `decimal`, `hexadecimal`.
Key theorems: `decimal_head`, `decimal_digits`, `decimal_point`.
-/
import Mathlib.Data.List.TakeWhile
import Mathlib.Tactic.Common

namespace FloatText

def isHexDigit (c : Char) : Bool := c.isDigit || ('a' ≤ c && c ≤ 'f') || ('A' ≤ c && c ≤ 'F')

/-- The text without a sign in front. -/
def unsigned : List Char → List Char
  | '+' :: t => t
  | '-' :: t => t
  | t => t

/-- The rest after digits, of which there is at least one, and a point. -/
def significand (digit : Char → Bool) (t : List Char) : Option (List Char) :=
  match t.dropWhile digit with
  | '.' :: fraction =>
    if t.takeWhile digit = [] ∧ fraction.takeWhile digit = [] then none else some (fraction.dropWhile digit)
  | rest => if t.takeWhile digit = [] then none else some rest

/-- The rest after the number of an exponent. -/
def exponent (t : List Char) : Option (List Char) :=
  if (unsigned t).takeWhile Char.isDigit = [] then none else some ((unsigned t).dropWhile Char.isDigit)

/-- The rest after a significand and the exponent, if there is one. -/
def decimal (t : List Char) : Option (List Char) :=
  match significand Char.isDigit t with
  | none => none
  | some ('e' :: rest) => exponent rest
  | some ('E' :: rest) => exponent rest
  | some rest => some rest

/-- The rest after a hexadecimal significand and its binary exponent. -/
def hexadecimal (t : List Char) : Option (List Char) :=
  match t with
  | '0' :: x :: rest =>
    if x = 'x' ∨ x = 'X' then
      match significand isHexDigit rest with
      | some ('p' :: rest) => exponent rest
      | some ('P' :: rest) => exponent rest
      | _ => none
    else none
  | _ => none

theorem significand_head {digit : Char → Bool} {c : Char} {t : List Char} (hd : digit c = false) (hp : c ≠ '.') :
    significand digit (c :: t) = none := by
  have hn : ¬ digit c = true := by simp [hd]
  unfold significand
  rw [List.dropWhile_cons_of_neg hn, List.takeWhile_cons_of_neg hn]
  split
  · rename_i fraction h
    exact absurd (List.cons.inj h).1 hp
  · rfl

theorem decimal_head {c : Char} {t : List Char} (hd : c.isDigit = false) (hp : c ≠ '.') : decimal (c :: t) = none := by
  rw [decimal, significand_head hd hp]

theorem hexadecimal_head {c : Char} {t : List Char} (h : c ≠ '0') : hexadecimal (c :: t) = none := by
  unfold hexadecimal
  split
  · rename_i x rest he
    exact absurd (List.cons.inj he).1 h
  · rfl

/-! ### Digits -/

section Digits

variable {t fraction : List Char} (hd : ∀ c ∈ t, c.isDigit = true) (hne : t ≠ [])

include hd hne

theorem decimal_digits : decimal t = some [] := by
  have hdrop : t.dropWhile Char.isDigit = [] := List.dropWhile_eq_nil_iff.mpr hd
  have htake : t.takeWhile Char.isDigit = t := List.takeWhile_eq_self_iff.mpr hd
  have hsig : significand Char.isDigit t = some [] := by
    simp only [significand, hdrop, htake, hne, if_false]
  rw [decimal, hsig]

theorem decimal_point (hf : ∀ c ∈ fraction, c.isDigit = true) : decimal (t ++ '.' :: fraction) = some [] := by
  have hpoint : ¬ Char.isDigit '.' = true := by decide
  have hdrop : (t ++ '.' :: fraction).dropWhile Char.isDigit = '.' :: fraction := by
    rw [List.dropWhile_append_of_pos hd, List.dropWhile_cons_of_neg hpoint]
  have htake : (t ++ '.' :: fraction).takeWhile Char.isDigit = t := by
    rw [List.takeWhile_append_of_pos hd, List.takeWhile_cons_of_neg hpoint, List.append_nil]
  have hsig : significand Char.isDigit (t ++ '.' :: fraction) = some [] := by
    rw [significand, hdrop, htake]
    simp only [hne, false_and, if_false]
    rw [List.dropWhile_eq_nil_iff.mpr hf]
  rw [decimal, hsig]

end Digits

end FloatText
