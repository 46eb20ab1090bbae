/-
# Two ways to trim

What `Util.trimConfigStrings` and Python's `strip` leave of a text. Java trims
everything up to the blank, takes a quotation mark off at either end and trims
again; Python takes the white space of Unicode off. The two meet exactly on the
texts from which `trim` and `strip` take the same and leave no quotation mark
at an end: `trimConfigStrings_eq_iff`.

Key definitions: `Straight`.
Key theorems: `trimConfigStrings_eq_iff`.
-/
import Plethora.Agents.PythonReader

namespace Plethora

open Strip Plethoralib

namespace Util

/-! ### What the regex takes off -/

theorem dropAtEnd_sublist : ∀ t : Text, (dropAtEnd t).Sublist t
  | [] => List.Sublist.refl _
  | c :: t => by
    unfold dropAtEnd
    by_cases h : (isQuoteOrTab c && atEnd t) = true
    · rw [if_pos h]
      exact (dropAtEnd_sublist t).cons c
    · rw [if_neg h]
      exact (dropAtEnd_sublist t).cons_cons c

/-- A last character that is no quotation mark stays the last one. -/
theorem exists_dropAtEnd_concat {d : Char} (h : isQuoteOrTab d = false) : ∀ t : Text, ∃ t', dropAtEnd (t ++ [d]) = t' ++ [d]
  | [] => ⟨[], dropAtEnd_cons h []⟩
  | c :: t => by
    obtain ⟨t', ht⟩ := exists_dropAtEnd_concat h t
    rw [List.cons_append, dropAtEnd, ht]
    by_cases hc : (isQuoteOrTab c && atEnd (t ++ [d])) = true
    · exact ⟨t', if_pos hc⟩
    · exact ⟨c :: t', if_neg hc⟩

theorem exists_dropAtEnds_concat {d : Char} (h : isQuoteOrTab d = false) (t : Text) :
    ∃ t', dropAtEnds (t ++ [d]) = t' ++ [d] := by
  cases t with
  | nil => exact ⟨[], dropAtEnds_cons h []⟩
  | cons c t =>
    rw [List.cons_append, dropAtEnds]
    by_cases hc : isQuoteOrTab c = true
    · rw [if_pos hc]
      exact exists_dropAtEnd_concat h t
    · rw [if_neg hc, ← List.cons_append]
      exact exists_dropAtEnd_concat h (c :: t)

/-- A quotation mark at the end goes. -/
theorem length_dropAtEnd_concat {d : Char} (h : isQuoteOrTab d = true) : ∀ t : Text,
    (dropAtEnd (t ++ [d])).length ≤ t.length
  | [] => by
    rw [List.nil_append, dropAtEnd, h]
    exact le_rfl
  | c :: t => by
    have ih := length_dropAtEnd_concat h t
    rw [List.cons_append, dropAtEnd]
    by_cases hc : (isQuoteOrTab c && atEnd (t ++ [d])) = true
    · rw [if_pos hc]
      exact ih.trans (Nat.le_succ _)
    · rw [if_neg hc]
      exact Nat.succ_le_succ ih

/-- Nothing goes from a text that ends in neither a quotation mark nor the
character of a line end. -/
theorem dropAtEnd_of_last : ∀ {t : Text}, (∀ c ∈ t.getLast?, isQuoteOrTab c = false ∧ isSpace c = false) →
    dropAtEnd t = t
  | [], _ => rfl
  | [c], h => dropAtEnd_cons (h c rfl).1 []
  | c :: d :: t, h => by
    have ih : dropAtEnd (d :: t) = d :: t := dropAtEnd_of_last fun x hx => h x (by rwa [List.getLast?_cons_cons])
    have hend : atEnd (d :: t) = false := by
      by_contra he
      rw [Bool.not_eq_false] at he
      have hcases : ∀ e ∈ [['\n'], ['\r'], ['\r', '\n'], ['\x85'], [Char.ofNat 0x2028], [Char.ofNat 0x2029]],
          e.getLast?.any isSpace = true := by decide
      have hmem : (d :: t) ∈ [['\n'], ['\r'], ['\r', '\n'], ['\x85'], [Char.ofNat 0x2028], [Char.ofNat 0x2029]] := by
        simpa [atEnd, or_assoc] using he
      obtain ⟨x, hx, hs⟩ := Option.any_eq_true .. |>.mp (hcases _ hmem)
      have hlast := (h x (by rw [List.getLast?_cons_cons]; exact hx)).2
      rw [hs] at hlast
      cases hlast
    rw [dropAtEnd, hend, Bool.and_false, if_neg Bool.false_ne_true, ih]

end Util

/-! ### Where the two meet -/

/-- Java's `trim` is a way to strip. -/
theorem trim_eq_strip (t : Text) : trim t = strip (fun c => decide (c ≤ ' ')) t := rfl

/-- `trim` and `strip` leave the same, and no quotation mark at an end of it. -/
structure Straight (v : Text) : Prop where
  trims : trim v = strip isSpace v
  unquoted : Stripped Util.isQuoteOrTab (trim v)

/-- A character of white space that `trim` keeps is no quotation mark. -/
theorem not_quote_of_isSpace {c : Char} (hs : isSpace c = true) (hj : decide (c ≤ ' ') = false) :
    Util.isQuoteOrTab c = false := by
  by_contra h
  rw [Bool.not_eq_false] at h
  have hq : c = '"' ∨ c = '\'' ∨ c = '\t' := by simpa [Util.isQuoteOrTab, or_assoc] using h
  rcases hq with rfl | rfl | rfl
  · exact absurd hs (by decide)
  · exact absurd hs (by decide)
  · exact absurd hj (by decide)

theorem strip_head {p : Char → Bool} {c : Char} {t : Text} (hc : p c = false) : (strip p (c :: t)).head? = some c := by
  have hd : (c :: t).dropWhile p = c :: t := List.dropWhile_cons_of_neg (by simp [hc])
  have hne : strip p (c :: t) ≠ [] := by
    rw [strip, hd]
    intro he
    have hall := List.rdropWhile_eq_nil_iff.mp he c List.mem_cons_self
    rw [hc] at hall
    cases hall
  rw [head?_strip hne, hd]
  rfl

theorem strip_last {p : Char → Bool} {d : Char} {t : Text} (hd : p d = false) :
    (strip p (t ++ [d])).getLast? = some d := by
  have hrev := strip_head (t := t.reverse) hd
  rw [← List.reverse_concat, strip_reverse, List.head?_reverse] at hrev
  exact hrev

/-- The regex takes something off a text that begins or ends with a quotation
mark. -/
theorem Util.stripped_of_length {t : Text} (h : t.length ≤ (Util.dropAtEnds t).length) :
    Stripped Util.isQuoteOrTab t := by
  constructor
  · intro c hc
    by_contra hq
    rw [Bool.not_eq_false] at hq
    obtain ⟨t, rfl⟩ := List.head?_eq_some_iff.mp hc
    have hle := (Util.dropAtEnd_sublist t).length_le
    rw [Util.dropAtEnds, if_pos hq, List.length_cons] at h
    omega
  · intro d hd
    by_contra hq
    rw [Bool.not_eq_false] at hq
    obtain ⟨t, rfl⟩ := List.getLast?_eq_some_iff.mp hd
    have hle : (Util.dropAtEnds (t ++ [d])).length ≤ t.length := by
      cases t with
      | nil =>
        rw [List.nil_append, Util.dropAtEnds, if_pos hq]
        exact le_rfl
      | cons c t =>
        rw [List.cons_append, Util.dropAtEnds]
        by_cases hc : Util.isQuoteOrTab c = true
        · rw [if_pos hc]
          exact (Util.length_dropAtEnd_concat hq t).trans (Nat.le_succ _)
        · rw [if_neg hc, ← List.cons_append]
          exact Util.length_dropAtEnd_concat hq (c :: t)
    rw [List.length_append, List.length_singleton] at h
    omega

/-- What `trim` leaves begins and ends with no white space at all, if what the
configuration leaves does. -/
theorem stripped_trim {v : Text} (hb : Stripped isSpace (Util.trimConfigStrings v)) : Stripped isSpace (trim v) := by
  have htrim : Stripped (fun c => decide (c ≤ ' ')) (trim v) := stripped_strip _ v
  constructor
  · intro c hc
    by_contra hs
    rw [Bool.not_eq_false] at hs
    obtain ⟨t, ht⟩ := List.head?_eq_some_iff.mp hc
    have hj := htrim.head c hc
    have hhead : (Util.trimConfigStrings v).head? = some c := by
      rw [Util.trimConfigStrings, ht, Util.dropAtEnds_cons (not_quote_of_isSpace hs hj)]
      exact strip_head hj
    rw [hb.head c hhead] at hs
    cases hs
  · intro d hd
    by_contra hs
    rw [Bool.not_eq_false] at hs
    obtain ⟨t, ht⟩ := List.getLast?_eq_some_iff.mp hd
    have hj := htrim.last d hd
    obtain ⟨t', ht'⟩ := Util.exists_dropAtEnds_concat (not_quote_of_isSpace hs hj) t
    have hlast : (Util.trimConfigStrings v).getLast? = some d := by
      rw [Util.trimConfigStrings, ht, ht']
      exact strip_last hj
    rw [hb.last d hlast] at hs
    cases hs

/-- **Both leave the same** exactly of a straight text. -/
theorem trimConfigStrings_eq_iff {v : Text} : Util.trimConfigStrings v = strip isSpace v ↔ Straight v := by
  constructor
  · intro h
    have ha : Stripped (fun c => decide (c ≤ ' ')) (strip isSpace v) := h ▸ stripped_strip _ _
    have hsame : trim v = strip isSpace v := strip_congr ha (stripped_trim (h ▸ stripped_strip isSpace v))
    -- so the regex took nothing off
    have hlen : (trim v).length ≤ (Util.dropAtEnds (trim v)).length := by
      calc (trim v).length = (Util.trimConfigStrings v).length := by rw [h, hsame]
        _ ≤ (Util.dropAtEnds (trim v)).length := length_strip_le _ _
    exact ⟨hsame, Util.stripped_of_length hlen⟩
  · rintro ⟨hsame, hquote⟩
    have htrim : Stripped (fun c => decide (c ≤ ' ')) (trim v) := stripped_strip _ v
    have hspace : Stripped isSpace (trim v) := hsame ▸ stripped_strip isSpace v
    have hlast : Util.dropAtEnd (trim v) = trim v :=
      Util.dropAtEnd_of_last fun c hc => ⟨hquote.last c hc, hspace.last c hc⟩
    have hdrop : Util.dropAtEnds (trim v) = trim v := by
      cases ht : trim v with
      | nil => rfl
      | cons c t =>
        rw [ht] at hquote hlast
        rw [Util.dropAtEnds, hquote.head c rfl, if_neg Bool.false_ne_true, hlast]
    rw [Util.trimConfigStrings, hdrop, ← hsame]
    have hself : strip (fun c => decide (c ≤ ' ')) ([] ++ (trim v ++ [])) = trim v :=
      strip_eq (fun _ h => absurd h List.not_mem_nil) (fun _ h => absurd h List.not_mem_nil) htrim
    rw [List.nil_append, List.append_nil] at hself
    exact hself

end Plethora
