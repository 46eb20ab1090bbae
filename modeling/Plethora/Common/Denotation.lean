/-
# The number that a text denotes

`Double.parseDouble` and `Long.valueOf` take different texts: the first trims
and takes fractions, exponents, hexadecimal digits, suffixes and words, the
second takes digits of other scripts, and no more than 64 bits. Where both take
a text it is a sign and ASCII digits, and the long is the number that the text
denotes: `Double.denotes_of_valueOf`.

Key definitions: `Double.denotes`.
Key theorems: `Long.valueOf_eq_some`, `Double.denotes_of_valueOf`.
-/
import Plethora.Common.Numerals
import Plethora.Lib.FloatValue

namespace Plethora

/-- The number a text shows that `Double.parseDouble` reads, exact; none for
"NaN" and the infinities. -/
def Double.denotes (t : Text) : Option ℚ :=
  let body := FloatText.unsigned (trim t)
  let magnitude := (FloatText.hexadecimalValue body).or (FloatText.decimalValue body)
  if Double.parses t = false then none
  else if (trim t).head? = some '-' then magnitude.map fun q => -q
  else magnitude

namespace Long

theorem digits_isSome : ∀ {t : Text} {n k : ℕ}, digits n t = some k → ∀ c ∈ t, (Character.digit c).isSome = true
  | [], _, _, _, c, hc => absurd hc List.not_mem_nil
  | d :: t, n, k, h, c, hc => by
    obtain ⟨v, hv, h⟩ := Option.bind_eq_some_iff.mp h
    rcases List.mem_cons.mp hc with rfl | hc
    · rw [hv]
      rfl
    · exact digits_isSome h c hc

/-- A digit is no character before the digit zero of ASCII. -/
theorem le_of_digit {c : Char} (h : (Character.digit c).isSome = true) : 0x30 ≤ c.toNat := by
  rw [Character.digit, Option.isSome_map] at h
  obtain ⟨z, hz⟩ := Option.isSome_iff_exists.mp h
  have hle : z ≤ c.toNat ∧ c.toNat < z + 10 := by simpa using List.find?_some hz
  have hmin : ∀ z ∈ Character.decimalZeros, 0x30 ≤ z := by decide
  exact (hmin z (List.mem_of_find?_eq_some hz)).trans hle.1

theorem digit_of_isDigit {c : Char} (h : c.isDigit = true) : Character.digit c = some (FloatText.digitValue c) := by
  have hrange : 0x30 ≤ c.toNat ∧ c.toNat < 0x30 + 10 := by
    rw [Char.isDigit, Bool.and_eq_true, decide_eq_true_eq, decide_eq_true_eq] at h
    have h1 : '0'.val.toNat ≤ c.val.toNat := UInt32.le_iff_toNat_le.mp h.1
    have h2 : c.val.toNat ≤ '9'.val.toNat := UInt32.le_iff_toNat_le.mp h.2
    have hc : c.val.toNat = c.toNat := rfl
    have h0 : '0'.val.toNat = 48 := rfl
    have h9 : '9'.val.toNat = 57 := rfl
    omega
  have hfind : Character.decimalZeros.find? (fun z => decide (z ≤ c.toNat ∧ c.toNat < z + 10)) = some 0x30 :=
    List.find?_cons_of_pos (decide_eq_true hrange)
  rw [Character.digit, hfind, FloatText.digitValue, if_pos h]
  rfl

theorem digits_of_isDigit : ∀ {t : Text} (n : ℕ), (∀ c ∈ t, c.isDigit = true) →
    digits n t = some (FloatText.ofDigits 10 n t)
  | [], _, _ => rfl
  | c :: t, n, h => by
    have ih := digits_of_isDigit (10 * n + FloatText.digitValue c) fun d hd => h d (List.mem_cons_of_mem _ hd)
    rw [digits, digit_of_isDigit (h c List.mem_cons_self), Option.bind_some, ih]
    rfl

/-- A text read as a long is a sign, or none, and digits. -/
theorem valueOf_eq_some {s : Text} {k : Int64} (h : valueOf s = some k) :
    ∃ body n, body ≠ [] ∧ digits 0 body = some n ∧
      (s = '-' :: body ∧ k.toInt = -n ∨ (s = '+' :: body ∨ s = body) ∧ k.toInt = n) := by
  have hmag : ∀ {body : Text} {n : ℕ}, magnitude body = some n → body ≠ [] ∧ digits 0 body = some n := by
    intro body n hb
    unfold magnitude at hb
    by_cases hne : body = []
    · rw [if_pos hne] at hb
      cases hb
    · rw [if_neg hne] at hb
      exact ⟨hne, hb⟩
  have hpos : ∀ {body : Text}, ((magnitude body).bind fun n => if n < 2 ^ 63 then some (Int64.ofNat n) else none) = some k →
      ∃ n, body ≠ [] ∧ digits 0 body = some n ∧ k.toInt = n := by
    intro body hb
    obtain ⟨n, hn, hk⟩ := Option.bind_eq_some_iff.mp hb
    obtain ⟨hlt, hk⟩ := Option.ite_none_right_eq_some.mp hk
    refine ⟨n, (hmag hn).1, (hmag hn).2, ?_⟩
    rw [← Option.some.inj hk]
    exact Int64.toInt_ofNat_of_lt hlt
  unfold valueOf at h
  split at h
  · rename_i t
    obtain ⟨n, hn, hk⟩ := Option.bind_eq_some_iff.mp h
    obtain ⟨hle, hk⟩ := Option.ite_none_right_eq_some.mp hk
    refine ⟨t, n, (hmag hn).1, (hmag hn).2, Or.inl ⟨rfl, ?_⟩⟩
    rw [← Option.some.inj hk]
    exact Int64.toInt_ofInt_of_le (by omega) (by omega)
  · rename_i t
    obtain ⟨n, hne, hn, hk⟩ := hpos h
    exact ⟨t, n, hne, hn, Or.inr ⟨Or.inl rfl, hk⟩⟩
  · obtain ⟨n, hne, hn, hk⟩ := hpos h
    exact ⟨s, n, hne, hn, Or.inr ⟨Or.inr rfl, hk⟩⟩

end Long

namespace Double

/-- The characters, other than digits, that stand in numbers. -/
theorem digit_eq_none : ∀ c ∈ ".eEfFdDxXNI+-".toList, Character.digit c = none := by decide

section Digits

variable {body : Text} (hb : ∀ c ∈ body, (Character.digit c).isSome = true)
include hb

theorem not_mem_of_digits {c : Char} (hc : c ∈ ".eEfFdDxXNI+-".toList) : c ∉ body := fun hmem => by
  have h := hb c hmem
  rw [digit_eq_none c hc] at h
  cases h

/-- What reads no further than ASCII digits leaves the others. -/
theorem decimal_of_digits {rest : Text} (h : FloatText.decimal body = some rest) : rest = body.dropWhile Char.isDigit := by
  have hsub : ∀ c ∈ body.dropWhile Char.isDigit, c ∈ body := fun c hc => (List.dropWhile_suffix _).subset hc
  have hsig : ∀ r, FloatText.significand Char.isDigit body = some r → r = body.dropWhile Char.isDigit := by
    intro r hr
    unfold FloatText.significand at hr
    split at hr
    · rename_i fraction hdrop
      exact absurd (hsub '.' (by rw [hdrop]; exact List.mem_cons_self)) (not_mem_of_digits hb (by decide))
    · exact (Option.some.inj (Option.ite_none_left_eq_some.mp hr).2).symm
  unfold FloatText.decimal at h
  split at h
  · cases h
  · rename_i r hr
    exact absurd (hsub 'e' (by rw [← hsig _ hr]; exact List.mem_cons_self)) (not_mem_of_digits hb (by decide))
  · rename_i r hr
    exact absurd (hsub 'E' (by rw [← hsig _ hr]; exact List.mem_cons_self)) (not_mem_of_digits hb (by decide))
  · rename_i r _ _ hr
    rw [← Option.some.inj h]
    exact hsig r hr

/-- No suffix begins with a digit, so the ASCII digits are all there is. -/
theorem dropWhile_of_digits {rest : Text} (h : FloatText.decimal body = some rest)
    (hr : rest ∈ ([[], ['f'], ['F'], ['d'], ['D']] : List Text)) : body.dropWhile Char.isDigit = [] := by
  have hdrop := decimal_of_digits hb h
  have hsub : ∀ c ∈ rest, c ∈ body := fun c hc => (List.dropWhile_suffix _).subset (hdrop ▸ hc)
  have hsuffix : ∀ r ∈ ([[], ['f'], ['F'], ['d'], ['D']] : List Text), r ≠ [] → ∃ c ∈ r, c ∈ ".eEfFdDxXNI+-".toList := by
    simp
  rw [← hdrop]
  by_contra hnil
  obtain ⟨c, hc, hmem⟩ := hsuffix rest hr hnil
  exact not_mem_of_digits hb hmem (hsub c hc)

theorem ne_word_of_digits {word : Text} (hw : word ∈ ["NaN".toList, "Infinity".toList]) : body ≠ word := by
  rintro rfl
  have hinitial : ∀ w ∈ ["NaN".toList, "Infinity".toList], 'N' ∈ w ∨ 'I' ∈ w := by decide
  exact (hinitial _ hw).elim (not_mem_of_digits hb (by decide)) (not_mem_of_digits hb (by decide))

theorem hexadecimal_of_digits : FloatText.hexadecimal body = none := by
  unfold FloatText.hexadecimal
  split
  · rename_i x rest
    refine if_neg fun hx => ?_
    have hmem : x ∈ '0' :: x :: rest := List.mem_cons_of_mem _ List.mem_cons_self
    rcases hx with rfl | rfl
    · exact not_mem_of_digits hb (by decide) hmem
    · exact not_mem_of_digits hb (by decide) hmem
  · rfl

theorem unsigned_of_digits : FloatText.unsigned body = body := by
  unfold FloatText.unsigned
  split
  · exact absurd List.mem_cons_self (not_mem_of_digits hb (by decide))
  · exact absurd List.mem_cons_self (not_mem_of_digits hb (by decide))
  · rfl

end Digits

/-- **A long that a text of a floating-point number is read as is the number
that the text denotes.** -/
theorem denotes_of_valueOf {s : Text} {k : Int64} (hp : parses s = true) (hk : Long.valueOf s = some k) :
    denotes s = some (k.toInt : ℚ) := by
  obtain ⟨body, n, hne, hn, hsign⟩ := Long.valueOf_eq_some hk
  have hb := Long.digits_isSome hn
  have hle : ∀ c ∈ body, 0x21 ≤ c.toNat := fun c hc => (by decide : 0x21 ≤ 0x30).trans (Long.le_of_digit (hb c hc))
  have htrim : trim s = s := by
    refine trim_of_le fun c hc => ?_
    rcases hsign with ⟨rfl, -⟩ | ⟨rfl | rfl, -⟩
    · rcases List.mem_cons.mp hc with rfl | hc
      · decide
      · exact hle c hc
    · rcases List.mem_cons.mp hc with rfl | hc
      · decide
      · exact hle c hc
    · exact hle c hc
  have hunsigned : FloatText.unsigned s = body := by
    rcases hsign with ⟨rfl, -⟩ | ⟨rfl | rfl, -⟩
    · rfl
    · rfl
    · exact unsigned_of_digits hb
  have hor := of_decide_eq_true hp
  rw [htrim, hunsigned, hexadecimal_of_digits hb] at hor
  have hrest : body.dropWhile Char.isDigit = [] := by
    rcases hor with h | h | ⟨rest, h, hr⟩ | ⟨rest, h, -⟩
    · exact absurd h (ne_word_of_digits hb (by decide))
    · exact absurd h (ne_word_of_digits hb (by decide))
    · exact dropWhile_of_digits hb (Option.mem_def.mp h) hr
    · cases h
  have hdigits : ∀ c ∈ body, c.isDigit = true := List.dropWhile_eq_nil_iff.mp hrest
  have hvalue : FloatText.ofDigits 10 0 body = n :=
    Option.some.inj ((Long.digits_of_isDigit 0 hdigits).symm.trans hn)
  have hmagnitude : (FloatText.hexadecimalValue body).or (FloatText.decimalValue body) = some (n : ℚ) := by
    rw [FloatText.hexadecimalValue_eq_none (hexadecimal_of_digits hb), FloatText.decimalValue_digits hdigits hne, hvalue]
    rfl
  unfold denotes
  simp only [hp, htrim, hunsigned, hmagnitude]
  rcases hsign with ⟨rfl, hint⟩ | ⟨hs, hint⟩
  · rw [hint]
    simp
  · have hhead : s.head? ≠ some '-' := by
      intro hminus
      rcases hs with rfl | rfl
      · cases hminus
      · exact not_mem_of_digits hb (by decide) (List.mem_of_mem_head? hminus)
    rw [hint]
    simp [hhead]

end Double

end Plethora
