/-
# The numbers that texts of floating-point numbers show

A significand is a whole number over a power of the base, as many places as
there are digits after the point, and an exponent scales it by a power of ten,
or of two for hexadecimal digits. The number is exact: rounding it to a format
is left to those who have one.

Key definitions: `ofDigits`, `significandValue`, `exponentValue`, `decimalValue`,
`hexadecimalValue`.
Key theorems: `decimalValue_digits`, `hexadecimalValue_eq_none`.
-/
import Plethora.Lib.FloatText
import Mathlib.Algebra.Field.Rat

namespace FloatText

def digitValue (c : Char) : ℕ :=
  if c.isDigit then c.toNat - '0'.toNat
  else if 'a' ≤ c ∧ c ≤ 'f' then c.toNat - 'a'.toNat + 10
  else c.toNat - 'A'.toNat + 10

/-- The number of digits, after those of `n`. -/
def ofDigits (base : ℕ) (n : ℕ) (t : List Char) : ℕ := t.foldl (fun n c => base * n + digitValue c) n

def significandValue (base : ℕ) (digit : Char → Bool) (t : List Char) : ℚ :=
  match t.dropWhile digit with
  | '.' :: fraction =>
    ofDigits base 0 (t.takeWhile digit ++ fraction.takeWhile digit) / (base : ℚ) ^ (fraction.takeWhile digit).length
  | _ => ofDigits base 0 (t.takeWhile digit)

/-- The number of an exponent, whatever comes after it. -/
def exponentValue (t : List Char) : ℤ :=
  if t.head? = some '-' then -ofDigits 10 0 ((unsigned t).takeWhile Char.isDigit)
  else ofDigits 10 0 ((unsigned t).takeWhile Char.isDigit)

/-- The exponent behind a significand that left this rest, 0 without one. -/
def scale (mark : Char) : Option (List Char) → ℤ
  | some (c :: rest) => if c.toLower = mark then exponentValue rest else 0
  | _ => 0

/-- The number of a text that `decimal` takes. -/
def decimalValue (t : List Char) : Option ℚ :=
  (decimal t).map fun _ =>
    significandValue 10 Char.isDigit t * (10 : ℚ) ^ scale 'e' (significand Char.isDigit t)

/-- The number of a text that `hexadecimal` takes. -/
def hexadecimalValue (t : List Char) : Option ℚ :=
  (hexadecimal t).map fun _ =>
    significandValue 16 isHexDigit (t.drop 2) * (2 : ℚ) ^ scale 'p' (significand isHexDigit (t.drop 2))

theorem hexadecimalValue_eq_none {t : List Char} (h : hexadecimal t = none) : hexadecimalValue t = none := by
  rw [hexadecimalValue, h]
  rfl

/-- Digits alone are the number they show. -/
theorem decimalValue_digits {t : List Char} (hd : ∀ c ∈ t, c.isDigit = true) (hne : t ≠ []) :
    decimalValue t = some (ofDigits 10 0 t : ℚ) := by
  have hdrop : t.dropWhile Char.isDigit = [] := List.dropWhile_eq_nil_iff.mpr hd
  have htake : t.takeWhile Char.isDigit = t := List.takeWhile_eq_self_iff.mpr hd
  have hsig : significand Char.isDigit t = some [] := by
    simp only [significand, hdrop, htake, hne, if_false]
  have hval : significandValue 10 Char.isDigit t = ofDigits 10 0 t := by
    simp only [significandValue, hdrop, htake]
  have hscale : scale 'e' (some []) = 0 := rfl
  rw [decimalValue, decimal_digits hd hne, Option.map_some, hsig, hval, hscale, zpow_zero, mul_one]

end FloatText
