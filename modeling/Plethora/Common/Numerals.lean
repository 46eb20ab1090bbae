/-
# Numbers and words in texts

How the Java code reads a number or a truth value out of a text:
`Long.valueOf`, with the digits of every script that `Character.digit` takes
for decimal ones, `Util.getLong` and `Util.getInt`, which fall back to a
default, and `equalsIgnoreCase` with the words the code compares with.

A metric's first value is a text of which `Util.isNumeric` and
`Util.isBoolean` say what it shows.

An integer's own text is its decimal digits, after a minus sign for a negative
one (`toList_toString`).

Key definitions: `Character.digit`, `Long.valueOf`, `Util.getLong`,
`Character.fold`, `equalsIgnoreCase`, `Util.isNumeric`, `Util.isBoolean`.
Key theorems: `toList_toString`, `toString_inj`.
-/
import Plethora.Common.Java
import Plethora.Lib.FloatText

namespace Plethora

namespace Character

/-- The zeros of the decimal digits, in the first plane. -/
def decimalZeros : List ℕ :=
  [0x30, 0x660, 0x6F0, 0x7C0, 0x966, 0x9E6, 0xA66, 0xAE6, 0xB66, 0xBE6, 0xC66, 0xCE6, 0xD66, 0xE50, 0xED0,
    0xF20, 0x1040, 0x1090, 0x17E0, 0x1810, 0x1946, 0x19D0, 0x1A80, 0x1A90, 0x1B50, 0x1BB0, 0x1C40, 0x1C50,
    0xA620, 0xA8D0, 0xA900, 0xA9D0, 0xAA50, 0xABF0, 0xFF10]

/-- `Character.digit(c, 10)`. -/
def digit (c : Char) : Option ℕ :=
  (decimalZeros.find? fun z => z ≤ c.toNat ∧ c.toNat < z + 10).map (c.toNat - ·)

/-- The lower-case letter that a character equals when case is ignored, for
the characters that equal an ASCII letter. -/
def fold (c : Char) : Char :=
  if c.toNat = 0x130 ∨ c.toNat = 0x131 then 'i' -- the dotted capital and the dotless small one
  else if c.toNat = 0x17F then 's' -- the long s
  else if c.toNat = 0x212A then 'k' -- the Kelvin sign
  else c.toLower

end Character

/-- `word.equalsIgnoreCase(t)`, for a word of small ASCII letters and digits. -/
def equalsIgnoreCase (word t : Text) : Bool := t.map Character.fold = word

namespace Long

/-- The digits after those of `n`. -/
def digits (n : ℕ) : Text → Option ℕ
  | [] => some n
  | c :: t => (Character.digit c).bind fun d => digits (10 * n + d) t

/-- The number a text without a sign shows. -/
def magnitude (t : Text) : Option ℕ := if t = [] then none else digits 0 t

/-- `Long.valueOf(s)`, `none` for a `NumberFormatException`. -/
def valueOf : Text → Option Int64
  | '-' :: t => (magnitude t).bind fun n => if n ≤ 2 ^ 63 then some (Int64.ofInt (-n)) else none
  | '+' :: t => (magnitude t).bind fun n => if n < 2 ^ 63 then some (Int64.ofNat n) else none
  | t => (magnitude t).bind fun n => if n < 2 ^ 63 then some (Int64.ofNat n) else none

end Long

/-- Whether `Double.parseDouble` reads a text, which it trims first. -/
def Double.parses (t : Text) : Bool :=
  let body := FloatText.unsigned (trim t)
  let suffixes : List Text := [[], ['f'], ['F'], ['d'], ['D']]
  decide (body = "NaN".toList ∨ body = "Infinity".toList ∨
    (∃ rest ∈ FloatText.decimal body, rest ∈ suffixes) ∨ ∃ rest ∈ FloatText.hexadecimal body, rest ∈ suffixes)

namespace Util

/-- `getLong(value, def)`. -/
def getLong (value : Option Text) (dflt : Int64) : Int64 := (value.bind Long.valueOf).getD dflt

/-- `getInt(value, def)`: the low 32 bits of the number. -/
def getInt (value : Option Text) (dflt : Int32) : Int32 := ((value.bind Long.valueOf).map Int64.toInt32).getD dflt

/-- `isNumeric(textvalue)`: null is no number format exception. -/
def isNumeric (textvalue : Option Text) : Except JavaError Bool :=
  match textvalue with
  | none => .error .nullPointer
  | some t => .ok (Double.parses t)

/-- `isBoolean(textvalue)`. -/
def isBoolean (textvalue : Option Text) : Bool :=
  textvalue.any fun t => equalsIgnoreCase "true".toList t || equalsIgnoreCase "false".toList t

end Util

/-! ### Numbers as texts -/

theorem toList_toString : ∀ n : ℤ,
    (toString n).toList = (if n < 0 then ['-'] else []) ++ Nat.toDigits 10 n.natAbs
  | .ofNat n => Nat.toList_repr
  | .negSucc n => by
    show ("-" ++ Nat.repr (n + 1)).toList = _
    rw [String.toList_append, Nat.toList_repr, if_pos (Int.negSucc_lt_zero n)]
    rfl

theorem mem_toString {n : ℤ} {c : Char} (h : c ∈ (toString n).toList) : c = '-' ∨ c.isDigit = true := by
  rw [toList_toString, List.mem_append] at h
  rcases h with h | h
  · split at h
    · exact Or.inl (List.mem_singleton.mp h)
    · exact absurd h List.not_mem_nil
  · exact Or.inr (Nat.isDigit_of_mem_toDigits (by decide) (by decide) h)

theorem toString_inj {a b : ℤ} (h : (toString a).toList = (toString b).toList) : a = b := by
  have hdigits : ∀ {m k : ℕ}, Nat.toDigits 10 m = Nat.toDigits 10 k → m = k := by
    intro m k h
    have hof := congrArg (fun t => Nat.ofDigitChars 10 t 0) h
    simpa using hof
  have hsign : ∀ {m k : ℕ}, '-' :: Nat.toDigits 10 m ≠ Nat.toDigits 10 k := by
    intro m k h
    have hmem : '-' ∈ Nat.toDigits 10 k := by
      rw [← h]
      exact List.mem_cons_self
    exact absurd (Nat.isDigit_of_mem_toDigits (by decide) (by decide) hmem) (by decide)
  rw [toList_toString, toList_toString] at h
  by_cases ha : a < 0
  · by_cases hb : b < 0
    · rw [if_pos ha, if_pos hb] at h
      have := hdigits (List.append_cancel_left h)
      omega
    · rw [if_pos ha, if_neg hb] at h
      exact absurd h hsign
  · by_cases hb : b < 0
    · rw [if_neg ha, if_pos hb] at h
      exact absurd h.symm hsign
    · rw [if_neg ha, if_neg hb] at h
      have := hdigits h
      omega

end Plethora
