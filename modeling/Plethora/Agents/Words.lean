/-
# Words and numbers in two languages

How the tests that a type is derived by go together. In Java and in Python
alike a text that shows a truth value is no number (`not_parses_of_isBoolean`,
`not_isNumber_of_isBoolean`), whichever of the two is tried first. The letters
of most words are told the same way where case is ignored (`map_fold_eq_iff`):
only the dotless i and the long s are letters to Java alone.

Key theorems: `map_fold_eq_iff`, `not_parses_of_isBoolean`, `not_isNumber_of_isBoolean`.
-/
import Plethora.Agents.Trimming

namespace Plethora

open Strip Plethoralib

/-- A letter that both languages tell the same way. -/
structure ToldAlike (d : Char) : Prop where
  ascii : d.toNat < 128
  dotless : d ≠ 'i'
  long : d ≠ 's'

theorem fold_eq_iff {c d : Char} (hd : ToldAlike d) : Character.fold c = d ↔ lowerChar c = d := by
  have hbig : 128 ≤ c.toNat → c.toLower ≠ d := by
    rintro hc rfl
    have h := toNat_toLower c
    have ha := hd.ascii
    split at h <;> omega
  unfold Character.fold lowerChar
  by_cases h1 : c.toNat = 0x130
  · simp [h1]
  · by_cases h2 : c.toNat = 0x131
    · simp only [h2, false_or, if_true, if_false, Nat.reduceEqDiff]
      exact iff_of_false hd.dotless.symm (hbig (by omega))
    · by_cases h3 : c.toNat = 0x17F
      · simp only [h3, or_self, if_true, if_false, Nat.reduceEqDiff]
        exact iff_of_false hd.long.symm (hbig (by omega))
      · simp [h1, h2, h3]

theorem map_fold_eq_iff : ∀ {x w : Text}, (∀ d ∈ w, ToldAlike d) → (x.map Character.fold = w ↔ lower x = w)
  | [], _, _ => Iff.rfl
  | c :: x, [], _ => iff_of_false (List.cons_ne_nil _ _) (List.cons_ne_nil _ _)
  | c :: x, d :: w, h => by
    have ih := @map_fold_eq_iff x w fun d hd => h d (List.mem_cons_of_mem _ hd)
    rw [List.map_cons, lower, List.map_cons, List.cons.injEq, List.cons.injEq, ih, ← lower,
      fold_eq_iff (h d List.mem_cons_self)]

theorem lowerChar_cases {c d : Char} (h : lowerChar c = d) (hi : d ≠ 'i') (hk : d ≠ 'k') :
    c.toNat = d.toNat ∨ 65 ≤ c.toNat ∧ c.toNat ≤ 90 ∧ c.toNat + 32 = d.toNat := by
  unfold lowerChar at h
  by_cases h1 : c.toNat = 0x130
  · rw [if_pos h1] at h
    exact absurd h.symm hi
  · rw [if_neg h1] at h
    by_cases h2 : c.toNat = 0x212A
    · rw [if_pos h2] at h
      exact absurd h.symm hk
    · rw [if_neg h2] at h
      have hlow := toNat_toLower c
      rw [h] at hlow
      split at hlow <;> omega

/-- The digit one is told from nothing else. -/
theorem map_fold_eq_one {x : Text} : x.map Character.fold = "1".toList ↔ x = "1".toList := by
  constructor
  · intro h
    obtain ⟨c, t, rfl, hc, ht⟩ := List.map_eq_cons_iff.mp h
    obtain rfl : t = [] := List.map_eq_nil_iff.mp ht
    have hlow : lowerChar c = '1' := (fold_eq_iff ⟨by decide, by decide, by decide⟩).mp hc
    rcases lowerChar_cases hlow (by decide) (by decide) with h1 | h1
    · rw [char_ext h1]
      rfl
    · have : ('1' : Char).toNat = 49 := rfl
      omega
  · rintro rfl
    rfl

/-! ### Truth values are no numbers -/

/-- The letters that `true` and `false` begin with. -/
def initials : List Char := ['t', 'T', 'f', 'F']

theorem mem_initials {c : Char} (h : lowerChar c = 't' ∨ lowerChar c = 'f') : c ∈ initials := by
  have hcases : ∀ d e : Char, d ≠ 'i' → d ≠ 'k' → e.toNat + 32 = d.toNat → lowerChar c = d → c = d ∨ c = e := by
    intro d e hi hk he hc
    rcases lowerChar_cases hc hi hk with h1 | ⟨-, -, h1⟩
    · exact Or.inl (char_ext h1)
    · exact Or.inr (char_ext (by omega))
  rcases h with h | h
  · rcases hcases 't' 'T' (by decide) (by decide) (by decide) h with rfl | rfl <;> decide
  · rcases hcases 'f' 'F' (by decide) (by decide) (by decide) h with rfl | rfl <;> decide

theorem head_of_lower {t : Text} (h : lower t ∈ ["true".toList, "false".toList]) : ∃ c ∈ initials, ∃ r, t = c :: r := by
  have hcons : ∃ c r, t = c :: r ∧ (lowerChar c = 't' ∨ lowerChar c = 'f') := by
    rcases List.mem_cons.mp h with h | h
    · obtain ⟨c, r, rfl, hc, -⟩ := List.map_eq_cons_iff.mp h
      exact ⟨c, r, rfl, Or.inl hc⟩
    · obtain ⟨c, r, rfl, hc, -⟩ := List.map_eq_cons_iff.mp (List.mem_singleton.mp h)
      exact ⟨c, r, rfl, Or.inr hc⟩
  obtain ⟨c, r, rfl, hc⟩ := hcons
  exact ⟨c, mem_initials hc, r, rfl⟩

/-- No number begins with one of these letters. -/
theorem not_number {c : Char} (hc : c ∈ initials) (r : Text) :
    FloatText.unsigned (c :: r) = c :: r ∧ FloatText.decimal (c :: r) = none ∧ FloatText.hexadecimal (c :: r) = none := by
  have hall : ∀ c ∈ initials, c.isDigit = false ∧ c ≠ '.' ∧ c ≠ '0' ∧ c ≠ '+' ∧ c ≠ '-' := by decide
  obtain ⟨hd, hp, h0, hplus, hminus⟩ := hall c hc
  refine ⟨?_, FloatText.decimal_head hd hp, FloatText.hexadecimal_head h0⟩
  unfold FloatText.unsigned
  split
  · rename_i t he
    exact absurd (List.cons.inj he).1 hplus
  · rename_i t he
    exact absurd (List.cons.inj he).1 hminus
  · rfl

/-- Whether Python takes an ASCII text for a truth value. -/
def showsBoolean (x : Text) : Bool := lower (strip isAsciiSpace x) ∈ ["true".toList, "false".toList]

theorem not_float_of_isBoolean {x : Text} (h : showsBoolean x = true) : Plethoralib.float x = false := by
  have hmem : lower (strip isAsciiSpace x) ∈ ["true".toList, "false".toList] := of_decide_eq_true h
  obtain ⟨c, hc, r, ht⟩ := head_of_lower hmem
  obtain ⟨hu, hd, -⟩ := not_number hc r
  have hwords : ∀ w ∈ ["true".toList, "false".toList], w ∉ ["nan".toList, "inf".toList, "infinity".toList] := by decide
  simp only [Plethoralib.float, ht, hu, hd, decide_eq_false_iff_not, not_or]
  refine ⟨?_, nofun⟩
  rw [← ht]
  exact hwords _ hmem

theorem not_isNumber_of_isBoolean {x : Text} (h : showsBoolean x = true) : isNumber (some x) = false := by
  unfold isNumber str
  by_cases ha : Ascii x
  · simp only [if_pos ha]
    exact not_float_of_isBoolean h
  · simp only [if_neg ha]

theorem not_parses_of_isBoolean {x : Text} (h : Util.isBoolean (some x) = true) : Double.parses x = false := by
  have hhead : ∃ c ∈ initials, ∃ r, x = c :: r := by
    have hw : x.map Character.fold = "true".toList ∨ x.map Character.fold = "false".toList := by
      rw [Util.isBoolean, Option.any_some, Bool.or_eq_true] at h
      exact h.imp of_decide_eq_true of_decide_eq_true
    have htold : ∀ c : Char, Character.fold c = 't' ∨ Character.fold c = 'f' → c ∈ initials := by
      rintro c (hc | hc)
      · exact mem_initials (Or.inl ((fold_eq_iff ⟨by decide, by decide, by decide⟩).mp hc))
      · exact mem_initials (Or.inr ((fold_eq_iff ⟨by decide, by decide, by decide⟩).mp hc))
    rcases hw with hw | hw
    · obtain ⟨c, r, rfl, hc, -⟩ := List.map_eq_cons_iff.mp hw
      exact ⟨c, htold c (Or.inl hc), r, rfl⟩
    · obtain ⟨c, r, rfl, hc, -⟩ := List.map_eq_cons_iff.mp hw
      exact ⟨c, htold c (Or.inr hc), r, rfl⟩
  obtain ⟨c, hc, r, rfl⟩ := hhead
  have hall : ∀ c ∈ initials, decide (c ≤ ' ') = false ∧ c ≠ 'N' ∧ c ≠ 'I' := by decide
  obtain ⟨hj, hN, hI⟩ := hall c hc
  obtain ⟨t, ht⟩ := List.head?_eq_some_iff.mp (@strip_head (fun c => decide (c ≤ ' ')) c r hj)
  obtain ⟨hu, hd, hx⟩ := not_number hc t
  simp only [Double.parses, trim_eq_strip, ht, hu, hd, hx, decide_eq_false_iff_not, not_or]
  refine ⟨fun h => hN (List.cons.inj h).1, fun h => hI (List.cons.inj h).1, ?_, ?_⟩ <;> simp

end Plethora
