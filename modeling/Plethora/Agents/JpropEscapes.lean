/-
# Escapes as Java and as Python read them

`Properties.load` reads an item's escapes from left to right. `getJavaProperties`
takes the first backslash of each run away, but for one before a `u`, halves
what is left of the run, and decodes the rest as a Python literal.

Both come to the same for a lone backslash before a character that Java has no
escape for, for a well-formed `\uxxxx`, and for two or three backslashes before
a character that neither Python nor Java has an escape for (`convert_eq`).
After `\t`, `\n`, `\r` and `\f` Python has the letter, and of four backslashes
or more it loses some.

Key definitions: `isEscape`, `Tame`.
Key theorems: `subFrom_VALID_ESC_DELIM_drop`, `convert_eq`.
-/
import Plethora.Agents.Jprop

namespace Plethora

namespace Plethoralib

namespace Jprop

open Pattern

/-- The characters a backslash makes an escape with, in Python. -/
def isEscape (c : Char) : Bool :=
  (simpleEscapes.lookup c).isSome || isOctal c || c = 'x' || c = 'u' || c = 'U' || c = 'N'

/-- An item whose escapes come out the same. -/
inductive Tame : Text → Prop
  | nil : Tame []
  | plain {c : Char} {t : Text} (hc : c ≠ '\\') (rest : Tame t) : Tame (c :: t)
  | escaped {c : Char} {t : Text} (hc : c ∉ ['\\', 't', 'n', 'r', 'f', 'u']) (rest : Tame t) : Tame ('\\' :: c :: t)
  | unicode {a b c d : Char} {n : ℕ} {t : Text} (digits : PropertiesFile.unicode a b c d = some n) (rest : Tame t) :
      Tame ('\\' :: 'u' :: a :: b :: c :: d :: t)
  | two {c : Char} {t : Text} (hc : isEscape c = false) (rest : Tame t) : Tame ('\\' :: '\\' :: c :: t)
  | three {c : Char} {t : Text} (hc : isEscape c = false) (rest : Tame t) : Tame ('\\' :: '\\' :: '\\' :: c :: t)

/-- An item without backslashes. -/
theorem tame_of_not_mem : ∀ {t : Text}, '\\' ∉ t → Tame t
  | [], _ => .nil
  | _ :: _, h => .plain (fun he => h (he ▸ List.mem_cons_self)) (tame_of_not_mem fun hm => h (List.mem_cons_of_mem _ hm))

/-! ### The two substitutions -/

section Substitutions

variable {before : Option Char} {c : Char} {t : Text}

/-- The first backslash of a run goes. -/
theorem subFrom_VALID_ESC_DELIM_drop (hb : before.any isBackslash = false) (hu : t.head? ≠ some 'u') :
    subFrom VALID_ESC_DELIM [] before 0 ('\\' :: t) = subFrom VALID_ESC_DELIM [] (some '\\') 0 t := by
  have hahead : t.head?.any (· = 'u') = false := by
    cases t with
    | nil => rfl
    | cons d t => exact decide_eq_false fun he => hu (congrArg some he)
  have hends : (ends VALID_ESC_DELIM before ('\\' :: ([] ++ t))).head? = some t := by
    simp [VALID_ESC_DELIM, Item.notBehind, Item.notAhead, ends, hb, hahead, isBackslash]
  exact subFrom_of_match hends

/-- Everything else stays. -/
theorem subFrom_VALID_ESC_DELIM_keep (h : c ≠ '\\' ∨ before.any isBackslash = true ∨ t.head? = some 'u') :
    subFrom VALID_ESC_DELIM [] before 0 (c :: t) = c :: subFrom VALID_ESC_DELIM [] (some c) 0 t := by
  refine subFrom_of_not_match ?_
  simp only [VALID_ESC_DELIM, Item.notBehind, Item.notAhead, ends, isBackslash]
  by_cases hb : before.any isBackslash = true
  · rw [hb]
    rfl
  · by_cases hc : c = '\\'
    · have hu := (h.resolve_left (not_not_intro hc)).resolve_left hb
      simp [hu]
    · simp [hc]

/-- Two backslashes become one. -/
theorem subFrom_ESCAPED_ESC_DELIM_two :
    subFrom ESCAPED_ESC_DELIM ['\\'] before 0 ('\\' :: '\\' :: t) =
      '\\' :: subFrom ESCAPED_ESC_DELIM ['\\'] (some '\\') 0 t :=
  @subFrom_of_match _ _ _ _ _ ['\\'] _ rfl

theorem subFrom_ESCAPED_ESC_DELIM_keep (h : c ≠ '\\' ∨ t.head? ≠ some '\\') :
    subFrom ESCAPED_ESC_DELIM ['\\'] before 0 (c :: t) = c :: subFrom ESCAPED_ESC_DELIM ['\\'] (some c) 0 t := by
  refine subFrom_of_not_match ?_
  simp only [ESCAPED_ESC_DELIM, ends, isBackslash]
  by_cases hc : c = '\\'
  · have ht := h.resolve_left (not_not_intro hc)
    cases t with
    | nil => simp [ends]
    | cons d t =>
      have hd : isBackslash d = false := decide_eq_false fun he => ht (congrArg some he)
      simp [ends, hd]
  · simp [hc]

end Substitutions

/-! ### Decoding -/

section Decoding

variable (names : Text → Option ℕ) {c : Char} {t : Text}

theorem decodeFrom_plain (hc : c ≠ '\\') : decodeFrom names 0 (c :: t) = (decodeFrom names 0 t).map (c.toNat :: ·) := by
  rw [decodeFrom, if_neg hc]

/-- A backslash that makes no escape stays. -/
theorem decodeFrom_kept (hc : isEscape c = false) :
    decodeFrom names 0 ('\\' :: c :: t) = (decodeFrom names 0 t).map fun units => 92 :: c.toNat :: units := by
  simp only [isEscape, Bool.or_eq_false_iff, decide_eq_false_iff_not, Option.isSome_eq_false_iff,
    Option.isNone_iff_eq_none] at hc
  obtain ⟨⟨⟨⟨⟨hsimple, hoctal⟩, hx⟩, hu⟩, hU⟩, hN⟩ := hc
  have hescape : escape names (c :: t) = some ([92, c.toNat], 1) := by
    simp only [escape, hsimple, hoctal, hx, hu, hU, hN, if_false, Bool.false_eq_true]
  rw [decodeFrom, if_pos rfl, hescape]
  rfl

theorem decodeFrom_unicode {a b c d : Char} :
    decodeFrom names 0 ('\\' :: 'u' :: a :: b :: c :: d :: t) =
      (PropertiesFile.unicode a b c d).bind fun n => (decodeFrom names 0 t).map (n :: ·) := by
  have hnumber : hexNumber 4 0 (a :: b :: c :: d :: t) = PropertiesFile.unicode a b c d := by
    unfold PropertiesFile.unicode
    simp only [hexNumber, Nat.mul_comm 16, Nat.zero_mul, Nat.zero_add]
    rfl
  have hescape : escape names ('u' :: a :: b :: c :: d :: t) =
      (PropertiesFile.unicode a b c d).map fun n => ([n], 5) := by
    rw [← hnumber]
    rfl
  rw [decodeFrom, if_pos rfl, hescape]
  cases PropertiesFile.unicode a b c d with
  | none => rfl
  | some n => rfl

end Decoding

/-! ### Items -/

theorem unescape_plain {c : Char} (hc : c ≠ '\\') (t : Text) :
    PropertiesFile.unescape (c :: t) = (PropertiesFile.unescape t).map (c.toNat :: ·) := by
  rw [PropertiesFile.unescape]
  · cases PropertiesFile.unescape t <;> rfl
  all_goals
    intros
    exact absurd ‹_› hc

theorem unescape_escaped {c : Char} (hc : c ∉ ['t', 'n', 'r', 'f', 'u']) (t : Text) :
    PropertiesFile.unescape ('\\' :: c :: t) = (PropertiesFile.unescape t).map (c.toNat :: ·) := by
  simp only [List.mem_cons, List.not_mem_nil, or_false, not_or] at hc
  obtain ⟨ht, hn, hr, hf, hu⟩ := hc
  rw [PropertiesFile.unescape]
  · cases PropertiesFile.unescape t <;> rfl
  · intro a b c' d s he
    exact absurd he hu
  · exact hu
  · exact ht
  · exact hr
  · exact hn
  · exact hf

theorem unescape_unicode (a b c d : Char) (t : Text) :
    PropertiesFile.unescape ('\\' :: 'u' :: a :: b :: c :: d :: t) =
      (PropertiesFile.unicode a b c d).bind fun n => (PropertiesFile.unescape t).map (n :: ·) := by
  rw [PropertiesFile.unescape]
  cases PropertiesFile.unicode a b c d with
  | none => rfl
  | some n => cases PropertiesFile.unescape t <;> rfl

/-- A hexadecimal digit is no backslash. -/
theorem ne_backslash_of_hexDigit {c : Char} {n : ℕ} (h : PropertiesFile.hexDigit c = some n) : c ≠ '\\' := by
  rintro rfl
  cases h

theorem ne_backslash_of_unicode {a b c d : Char} {n : ℕ} (h : PropertiesFile.unicode a b c d = some n) :
    a ≠ '\\' ∧ b ≠ '\\' ∧ c ≠ '\\' ∧ d ≠ '\\' := by
  obtain ⟨_, ha, h⟩ := Option.bind_eq_some_iff.mp h
  obtain ⟨_, hb, h⟩ := Option.bind_eq_some_iff.mp h
  obtain ⟨_, hc, h⟩ := Option.bind_eq_some_iff.mp h
  obtain ⟨_, hd, -⟩ := Option.bind_eq_some_iff.mp h
  exact ⟨ne_backslash_of_hexDigit ha, ne_backslash_of_hexDigit hb, ne_backslash_of_hexDigit hc,
    ne_backslash_of_hexDigit hd⟩

/-- What the two substitutions leave of an item. -/
def substituted (before : Option Char) (item : Text) : Text :=
  subFrom ESCAPED_ESC_DELIM ['\\'] none 0 (subFrom VALID_ESC_DELIM [] before 0 item)

section Substituted

variable {before : Option Char} {c : Char} {t : Text}

theorem substituted_nil : substituted before [] = [] := by
  rw [substituted, subFrom, subFrom]

theorem subFrom_ESCAPED_ESC_DELIM_before (t : Text) :
    subFrom ESCAPED_ESC_DELIM ['\\'] before 0 t = subFrom ESCAPED_ESC_DELIM ['\\'] none 0 t :=
  subFrom_before (fun before t => by cases t <;> rfl) 0 t

theorem substituted_plain (hc : c ≠ '\\') : substituted before (c :: t) = c :: substituted (some c) t := by
  rw [substituted, subFrom_VALID_ESC_DELIM_keep (.inl hc), subFrom_ESCAPED_ESC_DELIM_keep (.inl hc),
    subFrom_ESCAPED_ESC_DELIM_before, ← substituted]

/-- A backslash in the result that no other follows. -/
theorem subFrom_ESCAPED_ESC_DELIM_backslash (hc : c ≠ '\\') :
    subFrom ESCAPED_ESC_DELIM ['\\'] none 0 ('\\' :: c :: t) =
      '\\' :: c :: subFrom ESCAPED_ESC_DELIM ['\\'] none 0 t := by
  have hhead : (c :: t).head? ≠ some '\\' := fun he => hc (Option.some.inj he)
  rw [subFrom_ESCAPED_ESC_DELIM_keep (.inr hhead), subFrom_ESCAPED_ESC_DELIM_keep (.inl hc),
    subFrom_ESCAPED_ESC_DELIM_before]

theorem substituted_unicode :
    substituted before ('\\' :: 'u' :: t) = '\\' :: 'u' :: substituted (some 'u') t := by
  have hu : 'u' ≠ '\\' := by decide
  rw [substituted, subFrom_VALID_ESC_DELIM_keep (.inr (.inr rfl)), subFrom_VALID_ESC_DELIM_keep (.inl hu),
    subFrom_ESCAPED_ESC_DELIM_backslash hu, ← substituted]

variable (hb : before.any isBackslash = false)
include hb

theorem substituted_escaped (hc : c ≠ '\\') (hu : c ≠ 'u') :
    substituted before ('\\' :: c :: t) = c :: substituted (some c) t := by
  have hhead : (c :: t).head? ≠ some 'u' := fun he => hu (Option.some.inj he)
  rw [substituted, subFrom_VALID_ESC_DELIM_drop hb hhead, ← substituted, substituted_plain hc]

theorem substituted_two (hc : c ≠ '\\') :
    substituted before ('\\' :: '\\' :: c :: t) = '\\' :: c :: substituted (some c) t := by
  have hhead : ('\\' :: c :: t).head? ≠ some 'u' := show some '\\' ≠ some 'u' by decide
  rw [substituted, subFrom_VALID_ESC_DELIM_drop hb hhead, subFrom_VALID_ESC_DELIM_keep (.inr (.inl rfl)),
    subFrom_VALID_ESC_DELIM_keep (.inl hc), subFrom_ESCAPED_ESC_DELIM_backslash hc, ← substituted]

theorem substituted_three (hc : c ≠ '\\') :
    substituted before ('\\' :: '\\' :: '\\' :: c :: t) = '\\' :: c :: substituted (some c) t := by
  have hhead : ('\\' :: '\\' :: c :: t).head? ≠ some 'u' := show some '\\' ≠ some 'u' by decide
  rw [substituted, subFrom_VALID_ESC_DELIM_drop hb hhead, subFrom_VALID_ESC_DELIM_keep (.inr (.inl rfl)),
    subFrom_VALID_ESC_DELIM_keep (.inr (.inl rfl)), subFrom_VALID_ESC_DELIM_keep (.inl hc),
    subFrom_ESCAPED_ESC_DELIM_two, subFrom_ESCAPED_ESC_DELIM_keep (.inl hc), subFrom_ESCAPED_ESC_DELIM_before,
    ← substituted]

end Substituted

theorem ne_backslash_of_not_escape {c : Char} (hc : isEscape c = false) : c ≠ '\\' := by
  rintro rfl
  cases hc

theorem not_mem_of_not_escape {c : Char} (hc : isEscape c = false) : c ∉ ['t', 'n', 'r', 'f', 'u'] := by
  intro hm
  have hall : ∀ d ∈ ['t', 'n', 'r', 'f', 'u'], isEscape d = true := by decide
  rw [hall c hm] at hc
  cases hc

theorem any_isBackslash {c : Char} (hc : c ≠ '\\') : (some c).any isBackslash = false := decide_eq_false hc

variable (names : Text → Option ℕ)

/-- What is left of a tame item is decoded as Java reads the item. -/
theorem decode_substituted {item : Text} (h : Tame item) : ∀ before : Option Char, before.any isBackslash = false →
    ∃ units, decode names (substituted before item) = some units ∧ PropertiesFile.unescape item = some units := by
  induction h with
  | nil => exact fun _ _ => ⟨[], by rw [substituted_nil]; rfl, rfl⟩
  | @plain c t hc _ ih =>
    intro before _
    obtain ⟨units, hd, hu⟩ := ih (some c) (any_isBackslash hc)
    refine ⟨c.toNat :: units, ?_, ?_⟩
    · rw [substituted_plain hc, decode, decodeFrom_plain names hc, ← decode, hd]
      rfl
    · rw [unescape_plain hc, hu]
      rfl
  | @escaped c t hc _ ih =>
    intro before hb
    obtain ⟨hslash, hrest⟩ := not_or.mp (List.mem_cons.not.mp hc)
    have hu' : c ≠ 'u' := fun he => hrest (by rw [he]; decide)
    obtain ⟨units, hd, hu⟩ := ih (some c) (any_isBackslash hslash)
    refine ⟨c.toNat :: units, ?_, ?_⟩
    · rw [substituted_escaped hb hslash hu', decode, decodeFrom_plain names hslash, ← decode, hd]
      rfl
    · rw [unescape_escaped hrest, hu]
      rfl
  | @unicode a b c d n t digits _ ih =>
    intro before _
    obtain ⟨ha, hb, hc, hd⟩ := ne_backslash_of_unicode digits
    obtain ⟨units, hdecode, hunescape⟩ := ih (some d) (any_isBackslash hd)
    refine ⟨n :: units, ?_, ?_⟩
    · rw [substituted_unicode, substituted_plain ha, substituted_plain hb, substituted_plain hc, substituted_plain hd,
        decode, decodeFrom_unicode, digits, ← decode, hdecode]
      rfl
    · rw [unescape_unicode, digits, hunescape]
      rfl
  | @two c t hc _ ih =>
    intro before hb
    have hslash := ne_backslash_of_not_escape hc
    obtain ⟨units, hd, hu⟩ := ih (some c) (any_isBackslash hslash)
    refine ⟨92 :: c.toNat :: units, ?_, ?_⟩
    · rw [substituted_two hb hslash, decode, decodeFrom_kept names hc, ← decode, hd]
      rfl
    · rw [unescape_escaped (by decide), unescape_plain hslash, hu]
      rfl
  | @three c t hc _ ih =>
    intro before hb
    have hslash := ne_backslash_of_not_escape hc
    obtain ⟨units, hd, hu⟩ := ih (some c) (any_isBackslash hslash)
    refine ⟨92 :: c.toNat :: units, ?_, ?_⟩
    · rw [substituted_three hb hslash, decode, decodeFrom_kept names hc, ← decode, hd]
      rfl
    · rw [unescape_escaped (by decide), unescape_escaped (not_mem_of_not_escape hc), hu]
      rfl

/-- **A tame item is read alike**, and without an error. -/
theorem convert_eq {item : Text} (h : Tame item) :
    ∃ units, convert names item = some units ∧ PropertiesFile.unescape item = some units :=
  decode_substituted names h none rfl

end Jprop

end Plethoralib

end Plethora
