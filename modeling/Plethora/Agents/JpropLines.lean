/-
# Keys and elements as Java and as Python cut them

Java's key ends at the first blank, `=` or `:` that is not escaped, and the
element starts after the blanks and one sign. `getJavaProperties` cuts the line
at the first run of white space with a space in it or a sign after it, or at a
sign alone, if no backslash stands before it.

The pieces are the same exactly if there is no separator, or the key ends
neither in a backslash nor in a vertical tab that is not escaped, the
separator has a space or a sign, and the element does not start with a vertical
tab (`pairOf_eq_iff`).

Key definitions: `isForeign`, `delimAt`, `Splits`.
Key theorems: `head?_SPLIT_DELIM`, `delimAt_eq_iff`, `cut_SPLIT_DELIM_iff`,
`pairOf_eq_iff`.
-/
import Plethora.Agents.Jprop

namespace Plethora

namespace Plethoralib

namespace Jprop

open Pattern PropertiesFile

/-- White space for Python that is no blank for Java. -/
def isForeign (c : Char) : Bool := isAsciiSpace c && !isBlank c

theorem isAsciiSpace_of_isBlank {c : Char} (h : isBlank c = true) : isAsciiSpace c = true := by
  simp only [isBlank, Bool.or_eq_true, decide_eq_true_eq] at h
  rcases h with (rfl | rfl) | rfl <;> rfl

/-! ### The separator -/

/-- What is left after a separator at the beginning of a text. -/
def delimAt : Text → Option Text
  | [] => none
  | c :: t =>
    if isAsciiSpace c then (delimAt t).or (if c = ' ' then some (lstrip t) else none)
    else if c = '=' ∨ c = ':' then some (lstrip t) else none

theorem head?_separator {before : Option Char} (hb : before.any isBackslash = false) (c : Char) (t : Text) :
    (ends [.notBehind isBackslash, .one fun c => c ∈ ['=', ':', ' '], .many isAsciiSpace] before (c :: t)).head? =
      if c = '=' ∨ c = ':' ∨ c = ' ' then some (lstrip t) else none := by
  simp only [Item.notBehind, ends, hb, Bool.not_false, if_true]
  by_cases hc : c = '=' ∨ c = ':' ∨ c = ' '
  · have hmem : decide (c ∈ ['=', ':', ' ']) = true := by simpa using hc
    rw [if_pos hc, if_pos hmem]
    exact head?_many_last t (some c)
  · have hmem : ¬ decide (c ∈ ['=', ':', ' ']) = true := by simpa using hc
    rw [if_neg hc, if_neg hmem]
    rfl

/-- **The separator that a line is cut at**: the last space in the white space,
or the sign after it. -/
theorem head?_SPLIT_DELIM : ∀ {t : Text} {before : Option Char}, before.any isBackslash = false →
    (ends SPLIT_DELIM before t).head? = delimAt t := by
  have hrun : ∀ {t : Text} {before : Option Char}, before.any isBackslash = false →
      (many isAsciiSpace (ends [.notBehind isBackslash, .one fun c => c ∈ ['=', ':', ' '], .many isAsciiSpace])
        before t).head? = delimAt t := by
    intro t
    induction t with
    | nil =>
      intro before hb
      simp only [many, Item.notBehind, ends, hb]
      rfl
    | cons c t ih =>
      intro before hb
      rw [many, List.head?_append, head?_separator hb, delimAt]
      by_cases hc : isAsciiSpace c = true
      · have hback : (some c).any isBackslash = false := by
          refine decide_eq_false ?_
          rintro rfl
          cases hc
        have hsigns : (c = '=' ∨ c = ':' ∨ c = ' ') ↔ c = ' ' := by
          constructor
          · rintro (rfl | rfl | h)
            · cases hc
            · cases hc
            · exact h
          · exact fun h => .inr (.inr h)
        rw [if_pos hc, if_pos hc, ih hback]
        simp only [hsigns]
      · have hspace : (c = '=' ∨ c = ':' ∨ c = ' ') ↔ c = '=' ∨ c = ':' := by
          constructor
          · rintro (h | h | rfl)
            · exact .inl h
            · exact .inr h
            · exact absurd rfl hc
          · rintro (h | h)
            · exact .inl h
            · exact .inr (.inl h)
        rw [if_neg hc, if_neg hc]
        simp only [hspace]
        rfl
  intro t before hb
  have hlook : (ends SPLIT_DELIM before t) = if (!before.any isBackslash) = true then
      many isAsciiSpace (ends [.notBehind isBackslash, .one fun c => c ∈ ['=', ':', ' '], .many isAsciiSpace])
        before t else [] := rfl
  rw [hlook, hb, Bool.not_false, if_pos rfl, hrun hb]

theorem any_isBackslash_iff {before : Option Char} : before.any isBackslash = true ↔ before = some '\\' := by
  cases before with
  | none => simp
  | some c => simp [isBackslash]

theorem head?_SPLIT_DELIM_of_ne {t : Text} {before : Option Char} (hb : before ≠ some '\\') :
    (ends SPLIT_DELIM before t).head? = delimAt t :=
  head?_SPLIT_DELIM (Bool.eq_false_iff.mpr (mt any_isBackslash_iff.mp hb))

/-- Not after a backslash. -/
theorem head?_SPLIT_DELIM_escaped {t : Text} {before : Option Char} (hb : before.any isBackslash = true) :
    (ends SPLIT_DELIM before t).head? = none := by
  simp only [SPLIT_DELIM, Item.notBehind, ends, hb]
  rfl

theorem delimAt_cons_of_not_space {c : Char} (hc : isAsciiSpace c = false) (t : Text) :
    delimAt (c :: t) = if c = '=' ∨ c = ':' then some (lstrip t) else none := by
  rw [delimAt, hc, if_neg Bool.false_ne_true]

theorem delimAt_cons_of_foreign {c : Char} (hc : isForeign c = true) (t : Text) : delimAt (c :: t) = delimAt t := by
  rw [isForeign, Bool.and_eq_true, Bool.not_eq_true'] at hc
  have hspace : c ≠ ' ' := by
    rintro rfl
    cases hc.2
  rw [delimAt, if_pos hc.1, if_neg hspace, Option.or_none]

/-- What is left after a separator starts with no white space. -/
theorem lstrip_of_delimAt : ∀ {t e : Text}, delimAt t = some e → lstrip e = e
  | [], _, h => by cases h
  | c :: t, e, h => by
    have hidem : lstrip (lstrip t) = lstrip t := List.dropWhile_idempotent _ t
    rw [delimAt] at h
    split at h
    · cases hd : delimAt t with
      | none =>
        rw [hd, Option.none_or] at h
        split at h
        · cases h
          exact hidem
        · cases h
      | some e' =>
        rw [hd, Option.some_or] at h
        cases h
        exact lstrip_of_delimAt hd
    · split at h
      · cases h
        exact hidem
      · cases h

theorem lstrip_append {w rest : Text} (hw : ∀ c ∈ w, isAsciiSpace c = true) (hrest : lstrip rest = rest) :
    lstrip (w ++ rest) = rest := by
  rw [lstrip, List.dropWhile_append_of_pos hw]
  exact hrest

/-- A separator in front of what is no white space. -/
theorem delimAt_append {rest : Text} (hrest : lstrip rest = rest) : ∀ {w : Text},
    (∀ c ∈ w, isAsciiSpace c = true) →
      delimAt (w ++ rest) = (delimAt rest).or (if ' ' ∈ w then some rest else none)
  | [], _ => by
    rw [List.nil_append, if_neg List.not_mem_nil, Option.or_none]
  | c :: w, h => by
    obtain ⟨hc, hw⟩ := List.forall_mem_cons.mp h
    rw [List.cons_append, delimAt, if_pos hc, delimAt_append hrest hw, lstrip_append hw hrest, Option.or_assoc]
    congr 1
    by_cases hmem : ' ' ∈ w
    · rw [if_pos hmem, if_pos (List.mem_cons_of_mem _ hmem), Option.some_or]
    · rw [if_neg hmem, Option.none_or]
      refine if_congr ?_ rfl rfl
      rw [List.mem_cons, or_iff_left hmem]
      exact eq_comm

/-! ### Java's element -/

theorem skipSeparator_suffix : ∀ (b : Bool) (t : Text), skipSeparator b t <:+ t
  | _, [] => List.suffix_rfl
  | b, c :: t => by
    rw [skipSeparator]
    split
    · exact (skipSeparator_suffix b t).trans (List.suffix_cons c t)
    · split
      · exact (skipSeparator_suffix true t).trans (List.suffix_cons c t)
      · exact List.suffix_rfl

theorem skipSeparator_true : ∀ t : Text, skipSeparator true t = t.dropWhile isBlank
  | [] => rfl
  | c :: t => by
    rw [skipSeparator, List.dropWhile_cons, skipSeparator_true t, Bool.not_true, Bool.and_false]
    rfl

theorem skipSeparator_false : ∀ t : Text, skipSeparator false t =
    match t.dropWhile isBlank with
    | [] => []
    | c :: s => if c = '=' ∨ c = ':' then s.dropWhile isBlank else c :: s
  | [] => rfl
  | c :: t => by
    rw [skipSeparator, List.dropWhile_cons]
    by_cases hc : isBlank c = true
    · rw [if_pos hc, if_pos hc, skipSeparator_false t]
    · rw [if_neg hc, if_neg hc, skipSeparator_true]
      by_cases hsign : c = '=' ∨ c = ':'
      · have h : ((decide (c = '=') || decide (c = ':')) && !false) = true := by simpa using hsign
        rw [if_pos h]
        exact (if_pos hsign).symm
      · have h : ¬ ((decide (c = '=') || decide (c = ':')) && !false) = true := by simpa using hsign
        rw [if_neg h]
        exact (if_neg hsign).symm

/-- Dropping blanks drops all white space if no foreign one is next. -/
theorem lstrip_eq_iff (t : Text) :
    lstrip t = t.dropWhile isBlank ↔ ∀ c ∈ (t.dropWhile isBlank).head?, isForeign c = false := by
  induction t with
  | nil => exact iff_of_true rfl fun c hc => by cases hc
  | cons c t ih =>
    rw [lstrip, List.dropWhile_cons, List.dropWhile_cons]
    by_cases hblank : isBlank c = true
    · rw [if_pos hblank, if_pos (isAsciiSpace_of_isBlank hblank)]
      exact ih
    · rw [if_neg hblank]
      by_cases hspace : isAsciiSpace c = true
      · rw [if_pos hspace]
        refine iff_of_false (fun he => ?_) fun h => ?_
        · have hle := (List.dropWhile_suffix isAsciiSpace (l := t)).length_le
          rw [he, List.length_cons] at hle
          omega
        · have := h c rfl
          rw [isForeign, hspace, Bool.eq_false_iff.mpr hblank] at this
          cases this
      · rw [if_neg hspace]
        refine iff_of_true rfl fun d hd => ?_
        cases hd
        rw [isForeign, Bool.eq_false_iff.mpr hspace, Bool.false_and]

/-- A blank in the separator that is a space, or a sign. -/
def Separated (r : Text) : Prop :=
  ' ' ∈ r.takeWhile isBlank ∨ ∃ c ∈ (r.dropWhile isBlank).head?, c = '=' ∨ c = ':'

/-- **Python's element is Java's** exactly if the separator has a space or a
sign, and no foreign white space is next. -/
theorem delimAt_eq_iff (r : Text) : delimAt r = some (skipSeparator false r) ↔
    Separated r ∧ ∀ c ∈ (skipSeparator false r).head?, isForeign c = false := by
  have hw : ∀ c ∈ r.takeWhile isBlank, isAsciiSpace c = true := fun c hc =>
    isAsciiSpace_of_isBlank (List.mem_takeWhile_imp hc)
  have happend := fun hrest => @delimAt_append (r.dropWhile isBlank) hrest _ hw
  rw [List.takeWhile_append_dropWhile] at happend
  rw [skipSeparator_false, Separated]
  have hnot := List.head?_dropWhile_not isBlank r
  cases hrest : r.dropWhile isBlank with
  | nil =>
    rw [hrest] at happend
    rw [happend rfl]
    simp [delimAt]
  | cons c s =>
    rw [hrest] at happend hnot
    have hblank : isBlank c = false := by simpa using hnot
    by_cases hsign : c = '=' ∨ c = ':'
    · have hspace : isAsciiSpace c = false := by
        rcases hsign with rfl | rfl <;> rfl
      have hself : lstrip (c :: s) = c :: s := by
        rw [lstrip, List.dropWhile_cons, hspace, if_neg Bool.false_ne_true]
      rw [happend hself, delimAt_cons_of_not_space hspace, if_pos hsign, Option.some_or]
      simp only [hsign, if_true, List.head?_cons, Option.mem_def, Option.some.injEq, exists_eq_left', or_true,
        true_and]
      exact lstrip_eq_iff s
    · simp only [hsign, if_false, List.head?_cons, Option.mem_def, Option.some.injEq, exists_eq_left', or_false,
        forall_eq']
      by_cases hforeign : isForeign c = true
      · rw [hforeign]
        refine iff_of_false (fun he => ?_) fun h => Bool.noConfusion h.2
        have hself := lstrip_of_delimAt he
        have hspace : isAsciiSpace c = true := (Bool.and_eq_true_iff.mp hforeign).1
        rw [lstrip, List.dropWhile_cons, if_pos hspace] at hself
        have hle := (List.dropWhile_suffix isAsciiSpace (l := s)).length_le
        rw [hself, List.length_cons] at hle
        omega
      · have hspace : isAsciiSpace c = false := by
          rw [isForeign, hblank, Bool.not_false, Bool.and_true] at hforeign
          exact Bool.eq_false_iff.mpr hforeign
        have hself : lstrip (c :: s) = c :: s := by
          rw [lstrip, List.dropWhile_cons, hspace, if_neg Bool.false_ne_true]
        rw [happend hself, delimAt_cons_of_not_space hspace, if_neg hsign, Option.none_or, Bool.eq_false_iff.mpr hforeign]
        by_cases hmem : ' ' ∈ r.takeWhile isBlank
        · rw [if_pos hmem]
          exact iff_of_true rfl ⟨hmem, rfl⟩
        · rw [if_neg hmem]
          exact iff_of_false (fun h => by cases h) fun h => hmem h.1

/-! ### The key -/

/-- A key after `before` that ends neither in a backslash nor in foreign white
space without one before it. -/
structure EndsWell (before : Option Char) (key : Text) : Prop where
  backslash : key.getLast?.or before ≠ some '\\'
  foreign : ∀ s c, key = s ++ [c] → isForeign c = true → s.getLast?.or before = some '\\'

theorem endsWell_cons {before : Option Char} {c : Char} {key : Text} : EndsWell before (c :: key) ↔
    EndsWell (some c) key ∧ (key = [] → isForeign c = true → before = some '\\') := by
  have hlast : ∀ s : Text, (c :: s).getLast?.or before = s.getLast?.or (some c) := fun s => by
    rw [List.getLast?_cons, Option.some_or, ← Option.or_some]
  constructor
  · rintro ⟨hb, hf⟩
    rw [hlast] at hb
    refine ⟨⟨hb, fun s d hs hd => ?_⟩, fun hnil hc => hf [] c (by rw [hnil]; rfl) hc⟩
    rw [← hlast]
    exact hf (c :: s) d (by rw [hs]; rfl) hd
  · rintro ⟨⟨hb, hf⟩, hnil⟩
    refine ⟨by rw [hlast]; exact hb, fun s d hs hd => ?_⟩
    cases s with
    | nil =>
      obtain ⟨rfl, hkey⟩ := List.cons.inj hs
      exact hnil hkey hd
    | cons a s =>
      obtain ⟨rfl, hkey⟩ := List.cons.inj hs
      rw [hlast]
      exact hf s d hkey hd

/-- A character that Java's key goes on with. -/
theorem splitKey_cons {b : Bool} {c : Char} {t : Text}
    (h : ¬ ((c = '=' || c = ':' || isBlank c) && !b) = true) :
    splitKey b (c :: t) =
      (c :: (splitKey (c = '\\' && !b) t).1, (splitKey (c = '\\' && !b) t).2) := by
  rw [splitKey, if_neg h]

theorem splitKey_pieces : ∀ (b : Bool) (t : Text), (splitKey b t).1 ++ (splitKey b t).2 = t
  | _, [] => rfl
  | b, c :: t => by
    rw [splitKey]
    split
    · rfl
    · exact congrArg (c :: ·) (splitKey_pieces _ t)

/-- What Java's key goes on with, not escaped: no white space and no sign, or
foreign white space. -/
theorem key_char {b : Bool} {c : Char} (h : ¬ ((c = '=' || c = ':' || isBlank c) && !b) = true) (hb : ¬ b = true) :
    (isAsciiSpace c = false ∧ ¬ (c = '=' ∨ c = ':')) ∨
      (isForeign c = true ∧ (decide (c = '\\') && !b) = false ∧ c ≠ '\\') := by
  obtain rfl : b = false := Bool.eq_false_iff.mpr hb
  have hplain : c ≠ '=' ∧ c ≠ ':' ∧ isBlank c = false := by
    simpa [not_or, and_assoc] using h
  by_cases hspace : isAsciiSpace c = true
  · have hslash : c ≠ '\\' := by
      rintro rfl
      cases hspace
    refine .inr ⟨?_, ?_, hslash⟩
    · rw [isForeign, hspace, hplain.2.2]
      rfl
    · rw [decide_eq_false hslash, Bool.false_and]
  · exact .inl ⟨Bool.eq_false_iff.mpr hspace, not_or.mpr ⟨hplain.1, hplain.2.1⟩⟩

/-- Java's key goes on with foreign white space and what is no separator. -/
theorem delimAt_eq_none : ∀ {t : Text} {before : Option Char}, before ≠ some '\\' →
    (splitKey false t).2 = [] ∨ (splitKey false t).1 ≠ [] ∧ EndsWell before (splitKey false t).1 → delimAt t = none
  | [], _, _, _ => rfl
  | c :: t, before, hb, h => by
    by_cases hsep : ((c = '=' || c = ':' || isBlank c) && !false) = true
    · rw [splitKey, if_pos hsep] at h
      rcases h with h | h
      · cases h
      · exact absurd rfl h.1
    · rw [splitKey_cons hsep] at h
      rcases key_char hsep Bool.false_ne_true with hspace | ⟨hforeign, hparity, hslash⟩
      · rw [delimAt_cons_of_not_space hspace.1, if_neg hspace.2]
      · rw [hparity] at h
        rw [delimAt_cons_of_foreign hforeign]
        refine @delimAt_eq_none t (some c) (fun he => hslash (Option.some.inj he)) ?_
        rcases h with h | ⟨-, hends⟩
        · exact .inl h
        · obtain ⟨hrest, hnil⟩ := endsWell_cons.mp hends
          exact .inr ⟨fun he => hb (hnil he hforeign), hrest⟩

/-- Python does not cut the line in a key that ends well. -/
theorem head?_SPLIT_DELIM_key {b : Bool} {c : Char} {t : Text} {before : Option Char} (hb : b = true → before = some '\\')
    (hsep : ¬ ((c = '=' || c = ':' || isBlank c) && !b) = true)
    (hends : EndsWell before (c :: (splitKey (c = '\\' && !b) t).1)) : (ends SPLIT_DELIM before (c :: t)).head? = none := by
  obtain ⟨hrest, hforeign⟩ := endsWell_cons.mp hends
  by_cases hback : before = some '\\'
  · exact head?_SPLIT_DELIM_escaped (any_isBackslash_iff.mpr hback)
  · rw [head?_SPLIT_DELIM_of_ne hback]
    rcases key_char hsep (fun hp => hback (hb hp)) with hspace | ⟨hc, hparity, hslash⟩
    · rw [delimAt_cons_of_not_space hspace.1, if_neg hspace.2]
    · rw [hparity] at hrest hforeign
      have hne : (splitKey false t).1 ≠ [] := fun hnil => hback (hforeign hnil hc)
      rw [delimAt_cons_of_foreign hc]
      exact delimAt_eq_none (fun he => hslash (Option.some.inj he)) (.inr ⟨hne, hrest⟩)

theorem map_cons_eq_some_iff {c : Char} {k e : Text} (p : Option (Text × Text)) :
    p.map (fun p => (c :: p.1, p.2)) = some (c :: k, e) ↔ p = some (k, e) := by
  cases p with
  | none => simp
  | some p => simp [Prod.ext_iff]

/-- **Python cuts the line where Java's key ends** exactly if the key ends well,
and there is a separator for it there. -/
theorem cut_SPLIT_DELIM_iff {e : Text} : ∀ {t : Text} {b : Bool} {before : Option Char},
    (b = true → before = some '\\') → (splitKey b t).2 ≠ [] →
      (cut SPLIT_DELIM before t = some ((splitKey b t).1, e) ↔
        EndsWell before (splitKey b t).1 ∧ delimAt (splitKey b t).2 = some e)
  | [], _, _, _, h => absurd rfl h
  | c :: t, b, before, hb, h => by
    by_cases hsep : ((c = '=' || c = ':' || isBlank c) && !b) = true
    · rw [splitKey, if_pos hsep]
      have hnil : EndsWell before [] ↔ before ≠ some '\\' := by
        refine ⟨fun hends => hends.backslash, fun hne => ⟨hne, fun s d hs => ?_⟩⟩
        exact absurd hs (by simp)
      rw [hnil, cut]
      by_cases hback : before = some '\\'
      · rw [head?_SPLIT_DELIM_escaped (any_isBackslash_iff.mpr hback)]
        refine iff_of_false (fun he => ?_) fun hr => hr.1 hback
        obtain ⟨p, -, hp⟩ := Option.map_eq_some_iff.mp he
        cases hp
      · rw [head?_SPLIT_DELIM_of_ne hback]
        cases delimAt (c :: t) with
        | none =>
          refine iff_of_false (fun he => ?_) fun hr => by cases hr.2
          obtain ⟨p, -, hp⟩ := Option.map_eq_some_iff.mp he
          cases hp
        | some r => simp [hback]
    · rw [splitKey_cons hsep] at h ⊢
      have ih := @cut_SPLIT_DELIM_iff e t (c = '\\' && !b) (some c)
        (fun hp => congrArg some (of_decide_eq_true (Bool.and_eq_true_iff.mp hp).1)) h
      rw [endsWell_cons, cut]
      cases hhead : (ends SPLIT_DELIM before (c :: t)).head? with
      | some r =>
        -- the line is cut before the key ends
        refine iff_of_false (fun he => by cases he) fun hr => ?_
        rw [head?_SPLIT_DELIM_key hb hsep (endsWell_cons.mpr hr.1)] at hhead
        cases hhead
      | none =>
        refine ((map_cons_eq_some_iff _).trans ih).trans
          (and_congr_left fun hd => (and_iff_left_of_imp fun _ hnil hc => ?_).symm)
        by_contra hback
        have hcut := (head?_SPLIT_DELIM_of_ne hback).symm.trans hhead
        rw [delimAt_cons_of_foreign hc] at hcut
        have hrest := splitKey_pieces (decide (c = '\\') && !b) t
        rw [hnil, List.nil_append] at hrest
        rw [hrest, hcut] at hd
        cases hd

/-- Python does not cut a line that Java finds no separator in. -/
theorem cut_SPLIT_DELIM_eq_none : ∀ {t : Text} {b : Bool} {before : Option Char},
    (b = true → before = some '\\') → (splitKey b t).2 = [] → cut SPLIT_DELIM before t = none := by
  have hhead : ∀ {t : Text} {b : Bool} {before : Option Char}, (b = true → before = some '\\') →
      (splitKey b t).2 = [] → (ends SPLIT_DELIM before t).head? = none := by
    intro t b before hb h
    by_cases hback : before = some '\\'
    · exact head?_SPLIT_DELIM_escaped (any_isBackslash_iff.mpr hback)
    · obtain rfl : b = false := Bool.eq_false_iff.mpr fun hp => hback (hb hp)
      rw [head?_SPLIT_DELIM_of_ne hback]
      exact delimAt_eq_none hback (.inl h)
  intro t
  induction t with
  | nil =>
    intro b before hb h
    rw [cut, hhead hb h]
    rfl
  | cons c t ih =>
    intro b before hb h
    rw [cut, hhead hb h]
    have hsep : ¬ ((c = '=' || c = ':' || isBlank c) && !b) = true := by
      intro hsep
      rw [splitKey, if_pos hsep] at h
      cases h
    rw [splitKey_cons hsep] at h
    have hrest := @ih (c = '\\' && !b) (some c)
      (fun hp => congrArg some (of_decide_eq_true (Bool.and_eq_true_iff.mp hp).1)) h
    simp only [hrest, Option.map_none]

/-- A line whose key and element are cut apart alike. -/
structure Splits (t : Text) : Prop where
  key : (splitKey false t).2 ≠ [] → EndsWell none (splitKey false t).1
  separator : (splitKey false t).2 ≠ [] → Separated (splitKey false t).2
  element : ∀ c ∈ (skipSeparator false (splitKey false t).2).head?, isForeign c = false

/-- **The pieces of a line are Java's** exactly if it splits. -/
theorem pairOf_eq_iff (t : Text) :
    pairOf t = ((splitKey false t).1, skipSeparator false (splitKey false t).2) ↔ Splits t := by
  have hpieces := splitKey_pieces false t
  by_cases hr : (splitKey false t).2 = []
  · have hnone : cut SPLIT_DELIM none t = none := cut_SPLIT_DELIM_eq_none (fun h => by cases h) hr
    rw [hr, List.append_nil] at hpieces
    rw [pairOf, hnone, Option.getD_none, hr, hpieces]
    refine iff_of_true rfl ⟨fun h => absurd hr h, fun h => absurd hr h, fun c hc => ?_⟩
    rw [hr] at hc
    cases hc
  · have hcut := @cut_SPLIT_DELIM_iff (skipSeparator false (splitKey false t).2) t false none (fun h => by cases h) hr
    have hsome : pairOf t = ((splitKey false t).1, skipSeparator false (splitKey false t).2) ↔
        cut SPLIT_DELIM none t = some ((splitKey false t).1, skipSeparator false (splitKey false t).2) := by
      rw [pairOf]
      cases cut SPLIT_DELIM none t with
      | some p => simp
      | none =>
        refine iff_of_false (fun he => hr ?_) (fun h => by cases h)
        have hkey : t = (splitKey false t).1 := congrArg Prod.fst he
        rw [← hkey] at hpieces
        exact List.append_right_eq_self.mp hpieces
    rw [hsome, hcut, delimAt_eq_iff]
    constructor
    · rintro ⟨hkey, hsep, helement⟩
      exact ⟨fun _ => hkey, fun _ => hsep, helement⟩
    · rintro ⟨hkey, hsep, helement⟩
      exact ⟨hkey hr, hsep hr, helement⟩

end Jprop

end Plethoralib

end Plethora
