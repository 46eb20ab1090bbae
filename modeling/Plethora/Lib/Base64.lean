/-
# Base64

Three bytes are printed as four letters of six bits each; a last group of one
or two bytes is filled up with `=`. Reading takes texts of whole groups only,
with nothing after a group that is filled up.

Key definitions: `Base64.print`, `Base64.parse`.
Key theorems: `Base64.parse_print`, `Base64.mem_print`.
-/
import Mathlib.Tactic.Common

namespace Base64

/-- The letter of six bits. -/
def letter (n : ℕ) : Char :=
  if n < 26 then Char.ofNat (65 + n)
  else if n < 52 then Char.ofNat (71 + n)
  else if n < 62 then Char.ofNat (n - 4)
  else if n = 62 then '+'
  else '/'

/-- The six bits of a letter. -/
def value (c : Char) : Option ℕ :=
  if 65 ≤ c.toNat ∧ c.toNat ≤ 90 then some (c.toNat - 65)
  else if 97 ≤ c.toNat ∧ c.toNat ≤ 122 then some (c.toNat - 71)
  else if 48 ≤ c.toNat ∧ c.toNat ≤ 57 then some (c.toNat + 4)
  else if c = '+' then some 62
  else if c = '/' then some 63
  else none

def print : List UInt8 → List Char
  | [] => []
  | [a] => [letter (a.toNat / 4), letter (a.toNat % 4 * 16), '=', '=']
  | [a, b] => [letter (a.toNat / 4), letter (a.toNat % 4 * 16 + b.toNat / 16), letter (b.toNat % 16 * 4), '=']
  | a :: b :: c :: bytes =>
    letter (a.toNat / 4) :: letter (a.toNat % 4 * 16 + b.toNat / 16) :: letter (b.toNat % 16 * 4 + c.toNat / 64) ::
      letter (c.toNat % 64) :: print bytes

/-- The byte of its low eight bits. -/
def byte (n : ℕ) : UInt8 := UInt8.ofNat n

def parse : List Char → Option (List UInt8)
  | [] => some []
  | p :: q :: r :: s :: rest =>
    match value p, value q, value r, value s with
    | some a, some b, some c, some d =>
      (parse rest).map fun bytes => byte (a * 4 + b / 16) :: byte (b % 16 * 16 + c / 4) :: byte (c % 4 * 64 + d) :: bytes
    | some a, some b, some c, none =>
      if s = '=' ∧ rest = [] then some [byte (a * 4 + b / 16), byte (b % 16 * 16 + c / 4)] else none
    | some a, some b, none, none =>
      if r = '=' ∧ s = '=' ∧ rest = [] then some [byte (a * 4 + b / 16)] else none
    | _, _, _, _ => none
  | _ => none

theorem value_letter {n : ℕ} (h : n < 64) : value (letter n) = some n := by
  have hall : ∀ k : Fin 64, value (letter k) = some k.val := by decide
  exact hall ⟨n, h⟩

theorem value_pad : value '=' = none := rfl

theorem byte_eq {a : UInt8} {n : ℕ} (h : n = a.toNat) : byte n = a := by
  rw [byte, h]
  exact UInt8.ofNat_toNat

/-- **What is printed is read back.** -/
theorem parse_print : ∀ bytes : List UInt8, parse (print bytes) = some bytes
  | [] => rfl
  | [a] => by
    have ha := a.toNat_lt
    have h1 : value (letter (a.toNat / 4)) = some (a.toNat / 4) := value_letter (by omega)
    have h2 : value (letter (a.toNat % 4 * 16)) = some (a.toNat % 4 * 16) := value_letter (by omega)
    have hbyte : byte (a.toNat / 4 * 4 + a.toNat % 4 * 16 / 16) = a := byte_eq (by omega)
    simp only [print, parse, h1, h2, value_pad, and_self, if_true, hbyte]
  | [a, b] => by
    have ha := a.toNat_lt
    have hb := b.toNat_lt
    have h1 : value (letter (a.toNat / 4)) = some (a.toNat / 4) := value_letter (by omega)
    have h2 : value (letter (a.toNat % 4 * 16 + b.toNat / 16)) = some (a.toNat % 4 * 16 + b.toNat / 16) :=
      value_letter (by omega)
    have h3 : value (letter (b.toNat % 16 * 4)) = some (b.toNat % 16 * 4) := value_letter (by omega)
    have hfirst : byte (a.toNat / 4 * 4 + (a.toNat % 4 * 16 + b.toNat / 16) / 16) = a := byte_eq (by omega)
    have hsecond : byte ((a.toNat % 4 * 16 + b.toNat / 16) % 16 * 16 + b.toNat % 16 * 4 / 4) = b := byte_eq (by omega)
    simp only [print, parse, h1, h2, h3, value_pad, and_self, if_true, hfirst, hsecond]
  | a :: b :: c :: bytes => by
    have ha := a.toNat_lt
    have hb := b.toNat_lt
    have hc := c.toNat_lt
    have h1 : value (letter (a.toNat / 4)) = some (a.toNat / 4) := value_letter (by omega)
    have h2 : value (letter (a.toNat % 4 * 16 + b.toNat / 16)) = some (a.toNat % 4 * 16 + b.toNat / 16) :=
      value_letter (by omega)
    have h3 : value (letter (b.toNat % 16 * 4 + c.toNat / 64)) = some (b.toNat % 16 * 4 + c.toNat / 64) :=
      value_letter (by omega)
    have h4 : value (letter (c.toNat % 64)) = some (c.toNat % 64) := value_letter (by omega)
    have hfirst : byte (a.toNat / 4 * 4 + (a.toNat % 4 * 16 + b.toNat / 16) / 16) = a := byte_eq (by omega)
    have hsecond : byte ((a.toNat % 4 * 16 + b.toNat / 16) % 16 * 16 + (b.toNat % 16 * 4 + c.toNat / 64) / 4) = b :=
      byte_eq (by omega)
    have hthird : byte ((b.toNat % 16 * 4 + c.toNat / 64) % 4 * 64 + c.toNat % 64) = c := byte_eq (by omega)
    simp only [print, parse, h1, h2, h3, h4, parse_print bytes, Option.map_some, hfirst, hsecond, hthird]

/-- What is printed are letters, and padding. -/
theorem mem_print {c : Char} : ∀ {bytes : List UInt8}, c ∈ print bytes → c = '=' ∨ ∃ n < 64, c = letter n
  | [], h => absurd h List.not_mem_nil
  | [a], h => by
    have ha := a.toNat_lt
    simp only [print, List.mem_cons, List.not_mem_nil, or_false] at h
    rcases h with rfl | rfl | rfl | rfl
    · exact Or.inr ⟨_, by omega, rfl⟩
    · exact Or.inr ⟨_, by omega, rfl⟩
    · exact Or.inl rfl
    · exact Or.inl rfl
  | [a, b], h => by
    have ha := a.toNat_lt
    have hb := b.toNat_lt
    simp only [print, List.mem_cons, List.not_mem_nil, or_false] at h
    rcases h with rfl | rfl | rfl | rfl
    · exact Or.inr ⟨_, by omega, rfl⟩
    · exact Or.inr ⟨_, by omega, rfl⟩
    · exact Or.inr ⟨_, by omega, rfl⟩
    · exact Or.inl rfl
  | a :: b :: d :: bytes, h => by
    have ha := a.toNat_lt
    have hb := b.toNat_lt
    have hd := d.toNat_lt
    simp only [print, List.mem_cons] at h
    rcases h with rfl | rfl | rfl | rfl | h
    · exact Or.inr ⟨_, by omega, rfl⟩
    · exact Or.inr ⟨_, by omega, rfl⟩
    · exact Or.inr ⟨_, by omega, rfl⟩
    · exact Or.inr ⟨_, by omega, rfl⟩
    · exact mem_print h

end Base64
