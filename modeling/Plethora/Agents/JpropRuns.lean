/-
# Runs of backslashes as Java and as Python read them

Java halves a run of backslashes, and an odd one makes an escape with the
character after it. Python takes one away, halves what is left, rounded up, and
decodes the half, which is halved again (`substituted_run`, `decodeFrom_run`).

So an item with one run is read alike only if it is tame: a run of four or more
loses backslashes, one of two or three makes an escape in Python that it does
not make in Java, and one alone makes none (`convert_eq_iff`).

Key theorems: `substituted_run`, `decodeFrom_run`, `unescape_run`,
`escape_le`, `convert_eq_iff`.
-/
import Plethora.Agents.JpropEscapes

namespace Plethora

namespace Plethoralib

namespace Jprop

open Pattern PropertiesFile

variable {before : Option Char} {c : Char} {t : Text}

/-! ### The substitutions -/

/-- The rest of a run stays. -/
theorem subFrom_VALID_ESC_DELIM_run (hc : c ≠ '\\') : ∀ n : ℕ,
    subFrom VALID_ESC_DELIM [] (some '\\') 0 (List.replicate n '\\' ++ c :: t) =
      List.replicate n '\\' ++ c :: subFrom VALID_ESC_DELIM [] (some c) 0 t
  | 0 => subFrom_VALID_ESC_DELIM_keep (.inl hc)
  | n + 1 => by
    have ih := subFrom_VALID_ESC_DELIM_run hc n
    rw [List.replicate_succ, List.cons_append, subFrom_VALID_ESC_DELIM_keep (.inr (.inl rfl)), ih]
    rfl

/-- A run is halved, and what is over stays. -/
theorem subFrom_ESCAPED_ESC_DELIM_run (hc : c ≠ '\\') : ∀ n : ℕ,
    subFrom ESCAPED_ESC_DELIM ['\\'] none 0 (List.replicate n '\\' ++ c :: t) =
      List.replicate ((n + 1) / 2) '\\' ++ c :: subFrom ESCAPED_ESC_DELIM ['\\'] none 0 t
  | 0 => by
    show subFrom ESCAPED_ESC_DELIM ['\\'] none 0 (c :: t) = c :: _
    rw [subFrom_ESCAPED_ESC_DELIM_keep (.inl hc), subFrom_ESCAPED_ESC_DELIM_before]
  | 1 => subFrom_ESCAPED_ESC_DELIM_backslash hc
  | n + 2 => by
    have ih := subFrom_ESCAPED_ESC_DELIM_run hc n
    have hhalf : (n + 2 + 1) / 2 = (n + 1) / 2 + 1 := by omega
    rw [hhalf, List.replicate_succ, List.replicate_succ, List.replicate_succ, List.cons_append, List.cons_append,
      List.cons_append, subFrom_ESCAPED_ESC_DELIM_two, subFrom_ESCAPED_ESC_DELIM_before, ih]

/-- **What is left of a run** of two or more. -/
theorem substituted_run (hb : before.any isBackslash = false) (hc : c ≠ '\\') {n : ℕ} (hn : 2 ≤ n) :
    substituted before (List.replicate n '\\' ++ c :: t) = List.replicate (n / 2) '\\' ++ c :: substituted (some c) t := by
  obtain ⟨m, rfl⟩ : ∃ m, n = m + 2 := ⟨n - 2, by omega⟩
  have hhead : (List.replicate (m + 1) '\\' ++ c :: t).head? ≠ some 'u' := show some '\\' ≠ some 'u' by decide
  have hone : subFrom VALID_ESC_DELIM [] before 0 (List.replicate (m + 2) '\\' ++ c :: t) =
      List.replicate (m + 1) '\\' ++ c :: subFrom VALID_ESC_DELIM [] (some c) 0 t := by
    rw [List.replicate_succ, List.cons_append, subFrom_VALID_ESC_DELIM_drop hb hhead, subFrom_VALID_ESC_DELIM_run hc]
  rw [substituted, hone, subFrom_ESCAPED_ESC_DELIM_run hc, ← substituted]

theorem substituted_of_not_mem : ∀ {t : Text} {before : Option Char}, '\\' ∉ t → substituted before t = t
  | [], _, _ => substituted_nil
  | c :: t, _, h => by
    rw [substituted_plain fun he => h (he ▸ List.mem_cons_self),
      substituted_of_not_mem fun hm => h (List.mem_cons_of_mem _ hm)]

/-! ### Decoding -/

section Decoding

variable (names : Text → Option ℕ)

/-- Two backslashes are decoded to one. -/
theorem decodeFrom_run (w : Text) : ∀ i : ℕ,
    decodeFrom names 0 (List.replicate (2 * i) '\\' ++ w) = (decodeFrom names 0 w).map (List.replicate i 92 ++ ·)
  | 0 => Option.map_id'.symm
  | i + 1 => by
    have ih := decodeFrom_run w i
    have hpair : decodeFrom names 0 ('\\' :: '\\' :: (List.replicate (2 * i) '\\' ++ w)) =
        (decodeFrom names 0 (List.replicate (2 * i) '\\' ++ w)).map (92 :: ·) := rfl
    rw [Nat.mul_succ, List.replicate_succ, List.replicate_succ, List.cons_append, List.cons_append, hpair, ih,
      Option.map_map]
    rfl

theorem unescape_run (w : Text) : ∀ i : ℕ,
    unescape (List.replicate (2 * i) '\\' ++ w) = (unescape w).map (List.replicate i 92 ++ ·)
  | 0 => Option.map_id'.symm
  | i + 1 => by
    have ih := unescape_run w i
    rw [Nat.mul_succ, List.replicate_succ, List.replicate_succ, List.cons_append, List.cons_append,
      unescape_escaped (by decide), ih, Option.map_map]
    rfl

/-- Plain characters stand for themselves. -/
theorem decodeFrom_of_not_mem : ∀ {t : Text} {taken : ℕ}, '\\' ∉ t →
    decodeFrom names taken t = some ((t.drop taken).map Char.toNat)
  | [], 0, _ => rfl
  | [], _ + 1, _ => rfl
  | c :: t, 0, h => by
    rw [decodeFrom_plain names fun he => h (he ▸ List.mem_cons_self),
      decodeFrom_of_not_mem fun hm => h (List.mem_cons_of_mem _ hm)]
    rfl
  | _ :: t, taken + 1, h => by
    rw [decodeFrom, decodeFrom_of_not_mem fun hm => h (List.mem_cons_of_mem _ hm)]
    rfl

/-- A number takes as many digits. -/
theorem le_length_of_hexNumber : ∀ {k n m : ℕ} {t : Text}, hexNumber k n t = some m → k ≤ t.length
  | 0, _, _, _, _ => Nat.zero_le _
  | _ + 1, _, _, [], h => by cases h
  | k + 1, n, m, c :: t, h => by
    obtain ⟨d, -, h⟩ := Option.bind_eq_some_iff.mp h
    exact Nat.succ_le_succ (le_length_of_hexNumber h)

theorem length_codeUnits_le {n : ℕ} {units : List ℕ} (h : codeUnits n = some units) : units.length ≤ 2 := by
  unfold codeUnits at h
  split at h
  · cases h
    exact Nat.le_succ 1
  · split at h
    · cases h
      exact Nat.le_refl 2
    · cases h

theorem length_of_simpleEscapes {units : List ℕ} (h : simpleEscapes.lookup c = some units) : units.length ≤ 1 := by
  have hall : ∀ e ∈ simpleEscapes, e.2.length ≤ 1 := by decide
  exact hall (c, units) (mem_of_lookup h)

/-- A name between braces is longer than what it stands for. -/
theorem named_le {e : List ℕ × ℕ} (h : named names t = some e) : e.1.length ≤ e.2 ∧ e.2 ≤ t.length + 1 := by
  unfold named at h
  split at h
  · rename_i s
    simp only at h
    split at h
    · rename_i hname
      obtain ⟨units, hunits, rfl⟩ := Option.map_eq_some_iff.mp h
      obtain ⟨n, -, hn⟩ := Option.bind_eq_some_iff.mp hunits
      have hlength := length_codeUnits_le hn
      have hlt := hname.2
      simp only [List.length_cons]
      omega
    · cases h
  · cases h

/-- An escape stands for no more than is taken. -/
theorem escape_le (hc : isEscape c = true) {e : List ℕ × ℕ} (h : escape names (c :: t) = some e) :
    e.1.length ≤ e.2 ∧ e.2 ≤ (c :: t).length := by
  rw [escape] at h
  cases hsimple : simpleEscapes.lookup c with
  | some units =>
    rw [hsimple] at h
    cases h
    exact ⟨length_of_simpleEscapes hsimple, Nat.succ_le_succ (Nat.zero_le _)⟩
  | none =>
    rw [hsimple] at h
    simp only at h
    split at h
    · rename_i hoctal
      cases h
      have hdigit : ((c :: t).take 3).takeWhile isOctal = c :: (t.take 2).takeWhile isOctal := by
        rw [List.take_succ_cons, List.takeWhile_cons, if_pos hoctal]
      refine ⟨?_, (List.takeWhile_prefix isOctal).length_le.trans (List.take_prefix 3 (c :: t)).length_le⟩
      show 1 ≤ (((c :: t).take 3).takeWhile isOctal).length
      rw [hdigit]
      exact Nat.succ_le_succ (Nat.zero_le _)
    · rename_i hoctal
      split at h
      · obtain ⟨n, hn, rfl⟩ := Option.map_eq_some_iff.mp h
        have hle := le_length_of_hexNumber hn
        exact ⟨Nat.le_add_left 1 2, Nat.succ_le_succ hle⟩
      · split at h
        · obtain ⟨n, hn, rfl⟩ := Option.map_eq_some_iff.mp h
          have hle := le_length_of_hexNumber hn
          exact ⟨Nat.le_add_left 1 4, Nat.succ_le_succ hle⟩
        · split at h
          · obtain ⟨units, hunits, rfl⟩ := Option.map_eq_some_iff.mp h
            obtain ⟨n, hn, hunits⟩ := Option.bind_eq_some_iff.mp hunits
            have hle := le_length_of_hexNumber hn
            exact ⟨(length_codeUnits_le hunits).trans (Nat.le_add_left 2 7), Nat.succ_le_succ hle⟩
          · split at h
            · exact named_le names h
            · rename_i hx hu hU hN
              simp [isEscape, hsimple, hoctal, hx, hu, hU, hN] at hc

end Decoding

/-! ### Items with one run -/

theorem unescape_of_u (h : (unescape ('\\' :: 'u' :: t)).isSome) :
    ∃ a b c d n s, t = a :: b :: c :: d :: s ∧ PropertiesFile.unicode a b c d = some n := by
  match t, h with
  | [], h => cases h
  | [_], h => cases h
  | [_, _], h => cases h
  | [_, _, _], h => cases h
  | a :: b :: c :: d :: s, h =>
    rw [unescape_unicode] at h
    obtain ⟨units, hunits⟩ := Option.isSome_iff_exists.mp h
    obtain ⟨n, hn, -⟩ := Option.bind_eq_some_iff.mp hunits
    exact ⟨a, b, c, d, n, s, rfl, hn⟩

/-- Another escape than of a code unit is one character. -/
theorem length_unescape (ht : '\\' ∉ t) (hu : c ≠ 'u') {units : List ℕ} (h : unescape ('\\' :: c :: t) = some units) :
    units.length = (c :: t).length := by
  have hplain := unescape_of_not_mem ht
  by_cases hc : c ∈ ['t', 'n', 'r', 'f', 'u']
  · simp only [List.mem_cons, List.not_mem_nil, or_false] at hc
    rcases hc with rfl | rfl | rfl | rfl | rfl
    all_goals first | exact absurd rfl hu | skip
    all_goals
      rw [unescape, hplain] at h
      cases h
      simp
  · rw [unescape_escaped hc, hplain] at h
    cases h
    simp

theorem ne_and_not_mem (h : '\\' ∉ c :: t) : c ≠ '\\' ∧ '\\' ∉ t :=
  ⟨fun he => h (he ▸ List.mem_cons_self), fun hm => h (List.mem_cons_of_mem c hm)⟩

section Items

variable (names : Text → Option ℕ)

/-- Half a run that is even loses a backslash. -/
theorem not_alike_of_even {i : ℕ} (hi : 0 < i) (hc : c ≠ '\\') {units rest : List ℕ} :
    List.replicate i 92 ++ c.toNat :: units ≠ List.replicate (2 * i) 92 ++ rest := by
  intro h
  obtain ⟨k, rfl⟩ : ∃ k, i = k + 1 := ⟨i - 1, by omega⟩
  have hsplit : List.replicate (2 * (k + 1)) 92 = List.replicate (k + 1) 92 ++ 92 :: List.replicate k 92 := by
    rw [← List.replicate_succ, List.replicate_append_replicate, Nat.two_mul]
  rw [hsplit, List.append_assoc] at h
  have hhead := (List.cons.inj (List.append_cancel_left h)).1
  exact hc (Char.toNat_inj.mp hhead)

/-- What an escape after an odd run is decoded to, no longer than its text. -/
theorem length_decodeFrom_le (hplain : '\\' ∉ c :: t) (hc : isEscape c = true) {units : List ℕ}
    (h : decodeFrom names 0 ('\\' :: c :: t) = some units) : units.length ≤ (c :: t).length := by
  rw [decodeFrom, if_pos rfl] at h
  obtain ⟨e, he, h⟩ := Option.bind_eq_some_iff.mp h
  rw [decodeFrom_of_not_mem names hplain] at h
  cases h
  obtain ⟨hunits, htaken⟩ := escape_le names hc he
  rw [List.length_append, List.length_map, List.length_drop]
  omega

/-- A run of two or more that is decoded as Java reads it, the last of its
backslashes left over. -/
theorem eq_zero_of_odd {i r : ℕ} (hr : r < 2) (hplain : '\\' ∉ c :: t) {python java : List ℕ}
    (hpython : decodeFrom names 0 ('\\' :: c :: t) = some python)
    (hjava : unescape (List.replicate r '\\' ++ c :: t) = some java)
    (h : List.replicate i 92 ++ python = List.replicate (2 * i + 1) 92 ++ java) : isEscape c = false ∧ i = 0 := by
  have hlength := congrArg List.length h
  simp only [List.length_append, List.length_replicate] at hlength
  obtain ⟨hc, ht⟩ := ne_and_not_mem hplain
  have hrest : java.length = (c :: t).length ∨ r = 1 ∧ c = 'u' := by
    by_cases hzero : r = 0
    · rw [hzero, List.replicate_zero, List.nil_append, unescape_of_not_mem hplain] at hjava
      cases hjava
      exact .inl (List.length_map _)
    · obtain rfl : r = 1 := by omega
      by_cases hu : c = 'u'
      · exact .inr ⟨rfl, hu⟩
      · exact .inl (length_unescape ht hu hjava)
  by_cases hescape : isEscape c = true
  · exfalso
    have hle := length_decodeFrom_le names hplain hescape hpython
    rcases hrest with hrest | ⟨rfl, rfl⟩
    · omega
    · obtain ⟨a, b, c, d, n, s, rfl, hn⟩ := unescape_of_u (Option.isSome_iff_exists.mpr ⟨java, hjava⟩)
      have hs : '\\' ∉ s := fun hm => ht (by simp [hm])
      have hequal : some python = some java := by
        calc some python = decodeFrom names 0 ('\\' :: 'u' :: a :: b :: c :: d :: s) := hpython.symm
          _ = (PropertiesFile.unicode a b c d).bind fun n => some (n :: s.map Char.toNat) := by
              rw [decodeFrom_unicode, decodeFrom_of_not_mem names hs]
              rfl
          _ = unescape ('\\' :: 'u' :: a :: b :: c :: d :: s) := by
              rw [unescape_unicode, unescape_of_not_mem hs]
              rfl
          _ = some java := hjava
      cases hequal
      omega
  · rw [Bool.not_eq_true] at hescape
    refine ⟨hescape, ?_⟩
    rw [decodeFrom_kept names hescape, decodeFrom_of_not_mem names ht] at hpython
    cases hpython
    rcases hrest with hrest | ⟨-, rfl⟩
    · simp only [List.length_cons, List.length_map, List.drop_zero] at hlength hrest
      omega
    · cases hescape

/-- A run that is decoded as Java reads it is tame. -/
theorem tame_of_run (hb : before.any isBackslash = false) (hplain : '\\' ∉ c :: t) {units : List ℕ} : ∀ {n : ℕ},
    decode names (substituted before (List.replicate n '\\' ++ c :: t)) = some units →
      unescape (List.replicate n '\\' ++ c :: t) = some units → Tame (List.replicate n '\\' ++ c :: t)
  | 0, _, _ => tame_of_not_mem hplain
  | 1, hpython, hjava => by
    obtain ⟨hc, ht⟩ := ne_and_not_mem hplain
    by_cases hu : c = 'u'
    · subst hu
      obtain ⟨a, b, c, d, n, s, rfl, hn⟩ := unescape_of_u (Option.isSome_iff_exists.mpr ⟨units, hjava⟩)
      exact .unicode hn (tame_of_not_mem fun hm => ht (by simp [hm]))
    · refine .escaped (fun hm => ?_) (tame_of_not_mem ht)
      -- Python has the letter
      have hequal : some ((c :: t).map Char.toNat) = unescape ('\\' :: c :: t) := by
        calc some ((c :: t).map Char.toNat) = decode names (substituted before ('\\' :: c :: t)) := by
              rw [substituted_escaped hb hc hu, substituted_of_not_mem ht, decode, decodeFrom_of_not_mem names hplain]
              rfl
          _ = some units := hpython
          _ = unescape ('\\' :: c :: t) := hjava.symm
      simp only [List.mem_cons, List.not_mem_nil, or_false] at hm
      rcases hm with rfl | rfl | rfl | rfl | rfl | rfl
      · exact hc rfl
      all_goals first | exact hu rfl | skip
      all_goals
        rw [unescape, unescape_of_not_mem ht] at hequal
        cases hequal
  | n + 2, hpython, hjava => by
    obtain ⟨hc, ht⟩ := ne_and_not_mem hplain
    have hhalf : n + 2 = 2 * ((n + 2) / 2) + (n + 2) % 2 := (Nat.div_add_mod _ _).symm
    have hr : (n + 2) % 2 < 2 := Nat.mod_lt _ (Nat.zero_lt_succ 1)
    have hj : 0 < (n + 2) / 2 := by omega
    rw [substituted_run hb hc (Nat.le_add_left 2 n), substituted_of_not_mem ht, decode] at hpython
    rw [hhalf, ← List.replicate_append_replicate, List.append_assoc, unescape_run] at hjava
    generalize (n + 2) / 2 = j at hpython hjava hhalf hj
    generalize (n + 2) % 2 = r at hjava hhalf hr
    obtain ⟨java, hrest, rfl⟩ := Option.map_eq_some_iff.mp hjava
    obtain ⟨i, rfl | rfl⟩ : ∃ i, j = 2 * i ∨ j = 2 * i + 1 := ⟨j / 2, by omega⟩
    · rw [decodeFrom_run, decodeFrom_of_not_mem names hplain] at hpython
      exact absurd (Option.some.inj hpython) (not_alike_of_even (by omega) hc)
    · rw [← List.replicate_append_replicate, List.append_assoc, decodeFrom_run] at hpython
      obtain ⟨python, hpython, heq⟩ := Option.map_eq_some_iff.mp hpython
      obtain ⟨hescape, rfl⟩ := eq_zero_of_odd names hr hplain hpython hrest heq
      rw [hhalf]
      rcases (by omega : r = 0 ∨ r = 1) with rfl | rfl
      · exact .two hescape (tame_of_not_mem ht)
      · exact .three hescape (tame_of_not_mem ht)

/-! ### Plain text in front -/

theorem tame_append {w : Text} (hw : Tame w) : ∀ {p : Text}, '\\' ∉ p → Tame (p ++ w)
  | [], _ => hw
  | _ :: _, hp => .plain (ne_and_not_mem hp).1 (tame_append hw (ne_and_not_mem hp).2)

theorem unescape_append (w : Text) : ∀ {p : Text}, '\\' ∉ p →
    unescape (p ++ w) = (unescape w).map (p.map Char.toNat ++ ·)
  | [], _ => Option.map_id'.symm
  | c :: p, hp => by
    rw [List.cons_append, unescape_plain (ne_and_not_mem hp).1, unescape_append w (ne_and_not_mem hp).2, Option.map_map]
    rfl

theorem decode_substituted_append (w : Text) : ∀ {p : Text} {before : Option Char}, '\\' ∉ p →
    before.any isBackslash = false → ∃ last : Option Char, last.any isBackslash = false ∧
      decode names (substituted before (p ++ w)) = (decode names (substituted last w)).map (p.map Char.toNat ++ ·)
  | [], before, _, hb => ⟨before, hb, Option.map_id'.symm⟩
  | c :: p, _, hp, _ => by
    obtain ⟨hc, hp'⟩ := ne_and_not_mem hp
    obtain ⟨last, hlast, ih⟩ := decode_substituted_append w hp' (any_isBackslash hc)
    refine ⟨last, hlast, ?_⟩
    rw [List.cons_append, substituted_plain hc, decode, decodeFrom_plain names hc, ← decode, ih, Option.map_map]
    rfl

/-- **An item with one run is read alike exactly if it is tame.** -/
theorem convert_eq_iff {p : Text} {n : ℕ} (hp : '\\' ∉ p) (hplain : '\\' ∉ c :: t)
    (hjava : (unescape (p ++ (List.replicate n '\\' ++ c :: t))).isSome) :
    convert names (p ++ (List.replicate n '\\' ++ c :: t)) = unescape (p ++ (List.replicate n '\\' ++ c :: t)) ↔
      Tame (p ++ (List.replicate n '\\' ++ c :: t)) := by
  constructor
  · intro h
    obtain ⟨units, hunits⟩ := Option.isSome_iff_exists.mp hjava
    obtain ⟨last, hlast, hdecode⟩ :=
      @decode_substituted_append names (List.replicate n '\\' ++ c :: t) p none hp rfl
    have hpython : decode names (substituted none (p ++ (List.replicate n '\\' ++ c :: t))) = some units := h.trans hunits
    rw [hdecode] at hpython
    rw [unescape_append _ hp] at hunits
    obtain ⟨rest, hrest, hequal⟩ := Option.map_eq_some_iff.mp hunits
    obtain ⟨rest', hrest', hequal'⟩ := Option.map_eq_some_iff.mp hpython
    obtain rfl := List.append_cancel_left (hequal'.trans hequal.symm)
    exact tame_append (tame_of_run names hlast hplain hrest' hrest) hp
  · intro h
    obtain ⟨units, hpython, hunits⟩ := convert_eq names h
    rw [hpython, hunits]

end Items

end Jprop

end Plethoralib

end Plethora
