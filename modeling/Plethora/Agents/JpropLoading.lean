/-
# Reading a properties file as Java reads it

`Properties.load` and `getJavaProperties` read a file alike if each stage does:
the natural lines end in line feeds, a line starts with no vertical tab, the
last line of a logical one does not end in a backslash, whatever white space
is after it, nor in a form feed that belongs to the element, the key and the
element are cut apart alike, and the escapes are tame (`AlikeLines`).

A step of the loops then does what Java does with the natural line that was
read (`loads_line`), so from any line on both read the same entries, one by one
and in the same order (`loads`), and the last one of a key is the same
(`agrees_of_alikeLines`).

Key definitions: `AlikeLine`, `AlikeLines`, `Returns`, `Loads`, `Agrees`.
Key theorems: `entryOf_eq`, `isMatch_MULTI_LINE_of_alike`, `loads_line`,
`loads`, `agrees_of_alikeLines`.
-/
import Plethora.Agents.JpropEscapes
import Plethora.Agents.JpropLines

namespace Plethora

namespace Plethoralib

namespace Jprop

open Pattern PropertiesFile Strip

/-! ### Lines that are read alike -/

/-- A line without the form feeds at its end. -/
def dropFeeds (t : Text) : Text := t.rdropWhile fun c => c = '\x0c'

/-- A logical line, of what was joined before and its last natural line. -/
structure AlikeLine (pending last : Text) : Prop where
  nonempty : pending ++ last ≠ []
  ended : (rstrip (pending ++ last)).getLast? ≠ some '\\'
  feeds : dropFeeds last ≠ last → skipSeparator false (splitKey false (pending ++ last)).2 = []
  splits : Splits (pending ++ dropFeeds last)
  key : Tame (splitKey false (pending ++ last)).1
  element : Tame (skipSeparator false (splitKey false (pending ++ last)).2)

/-- The natural lines after the beginning of a logical line, if there is one. -/
def AlikeLines : Option Text → List Text → Prop
  | none, [] => True
  | some pending, [] => AlikeLine pending []
  | pending, l :: ls =>
    if pending.isNone && skipped l then AlikeLines none ls
    else
      (∀ c ∈ (trimStart l).head?, isForeign c = false) ∧
        if continued l then AlikeLines (some (pending.getD [] ++ trimStart l).dropLast) ls
        else AlikeLine (pending.getD []) (trimStart l) ∧ AlikeLines none ls

/-! ### One logical line -/

section Line

variable {pending last : Text}

theorem dropFeeds_spec (t : Text) : ∃ feeds, t = dropFeeds t ++ feeds ∧ ∀ c ∈ feeds, c = '\x0c' :=
  ⟨t.rtakeWhile fun c => c = '\x0c', List.rdropWhile_append_rtakeWhile.symm,
    fun _ hc => of_decide_eq_true (List.mem_rtakeWhile_imp (p := fun c => decide (c = '\x0c')) hc)⟩

theorem rstrip_append {s w : Text} {c : Char} (hc : isAsciiSpace c = false) (hw : ∀ d ∈ w, isAsciiSpace d = true) :
    rstrip (s ++ c :: w) = s ++ [c] := by
  have hsplit : s ++ c :: w = (s ++ [c]) ++ w := by rw [List.append_assoc, List.singleton_append]
  rw [rstrip, hsplit, List.rdropWhile, List.reverse_append, List.dropWhile_append_of_pos (by simpa using hw)]
  have hself := List.rdropWhile_concat_neg isAsciiSpace s c (by rw [hc]; exact Bool.false_ne_true)
  exact hself

/-- A line that does not go on in Java does not go on in Python. -/
theorem isMatch_MULTI_LINE_of_alike (h : (rstrip (pending ++ last)).getLast? ≠ some '\\') :
    isMatch MULTI_LINE (pending ++ dropFeeds last) = false := by
  rw [← Bool.not_eq_true]
  intro hmulti
  obtain ⟨before, after, ht, -, hafter⟩ := isMatch_MULTI_LINE_iff.mp hmulti
  obtain ⟨feeds, hlast, hfeeds⟩ := dropFeeds_spec last
  refine h ?_
  have hwhole : pending ++ last = before ++ '\\' :: (after ++ feeds) := by
    rw [hlast, ← List.append_assoc, ht, List.append_assoc, List.cons_append]
  rw [hwhole, rstrip_append rfl, List.getLast?_concat]
  intro d hd
  rcases List.mem_append.mp hd with hd | hd
  · exact hafter d hd
  · rw [hfeeds d hd]
    rfl

/-- After a line without a separator one can come. -/
theorem splitKey_append_cons {c : Char} {u : Text} (hc : (c = '=' || c = ':' || isBlank c) = true) :
    ∀ {t : Text} {b : Bool}, (splitKey b t).2 = [] → (t = [] → b = false) → t.getLast? ≠ some '\\' →
      splitKey b (t ++ c :: u) = (t, c :: u)
  | [], b, _, hb, _ => by
    rw [hb rfl, List.nil_append, splitKey, if_pos (by rw [hc]; rfl)]
  | d :: t, b, h, _, hlast => by
    have hsep : ¬ ((d = '=' || d = ':' || isBlank d) && !b) = true := by
      intro hsep
      rw [splitKey, if_pos hsep] at h
      cases h
    rw [splitKey_cons hsep] at h
    rw [List.cons_append, splitKey_cons hsep]
    have ih := @splitKey_append_cons c u hc t (d = '\\' && !b) h ?_ ?_
    · rw [ih]
    · rintro rfl
      have hd : d ≠ '\\' := fun he => hlast (congrArg some he)
      rw [decide_eq_false hd, Bool.false_and]
    · intro he
      refine hlast ?_
      rw [List.getLast?_cons, he]
      rfl

/-- Without the form feeds at its end a line has the same key and element. -/
theorem pieces_dropFeeds (hended : (rstrip (pending ++ last)).getLast? ≠ some '\\')
    (hdropped : dropFeeds last ≠ last → skipSeparator false (splitKey false (pending ++ last)).2 = []) :
    (splitKey false (pending ++ dropFeeds last)).1 = (splitKey false (pending ++ last)).1 ∧
      skipSeparator false (splitKey false (pending ++ dropFeeds last)).2 =
        skipSeparator false (splitKey false (pending ++ last)).2 := by
  obtain ⟨feeds, hlast, hfeeds⟩ := dropFeeds_spec last
  by_cases hsame : dropFeeds last = last
  · rw [hsame]
    exact ⟨rfl, rfl⟩
  · have helement := hdropped hsame
    have hwhole : pending ++ last = (pending ++ dropFeeds last) ++ feeds := by
      rw [List.append_assoc, ← hlast]
    rw [helement]
    by_cases hr : (splitKey false (pending ++ dropFeeds last)).2 = []
    · rw [hr]
      cases feeds with
      | nil => exact absurd (hlast.trans (List.append_nil _)).symm hsame
      | cons c feeds =>
        obtain rfl := hfeeds c List.mem_cons_self
        have hslash : (pending ++ dropFeeds last).getLast? ≠ some '\\' := by
          intro he
          obtain ⟨s, hs⟩ := List.getLast?_eq_some_iff.mp he
          refine hended ?_
          rw [hwhole, hs, List.append_assoc, List.singleton_append, rstrip_append rfl, List.getLast?_concat]
          intro d hd
          rw [hfeeds d hd]
          rfl
        have hpieces := splitKey_pieces false (pending ++ dropFeeds last)
        rw [hr, List.append_nil] at hpieces
        rw [hwhole, splitKey_append_cons rfl hr (fun _ => rfl) hslash, hpieces]
        exact ⟨rfl, rfl⟩
    · rw [hwhole, splitKey_append hr]
      refine ⟨rfl, ?_⟩
      by_contra hne
      rw [hwhole, splitKey_append hr, skipSeparator_append (.inl hne)] at helement
      exact hne (List.append_eq_nil_iff.mp helement).1

/-- **A logical line that is alike is read alike.** -/
theorem entryOf_eq (names : Text → Option ℕ) (h : AlikeLine pending last) :
    ∃ entry, entryOf names (pending ++ dropFeeds last) = some entry ∧ readUnits (pending ++ last) = some entry := by
  obtain ⟨hkey, helement⟩ := pieces_dropFeeds h.ended h.feeds
  obtain ⟨key, hkey', hjava⟩ := convert_eq names h.key
  obtain ⟨element, helement', hjava'⟩ := convert_eq names h.element
  refine ⟨(key, element), ?_, ?_⟩
  · rw [entryOf, (pairOf_eq_iff _).mpr h.splits, hkey, helement, hkey', helement']
    rfl
  · rw [readUnits, hjava, hjava']
    rfl

end Line

/-! ### Natural lines -/

/-- A comment starts with its sign. -/
theorem isMatch_COMMENT_LINE_iff {t : Text} :
    isMatch COMMENT_LINE t = true ↔ ∃ c ∈ (lstrip t).head?, c = '#' ∨ c = '!' := by
  rw [isMatch_iff]
  simp only [COMMENT_LINE, ends, mem_many_iff]
  constructor
  · rintro ⟨r, run, rest, rfl, hrun, h⟩
    cases rest with
    | nil => exact absurd h List.not_mem_nil
    | cons c s =>
      simp only [ends] at h
      split at h
      · rename_i hc
        have hsign : c = '#' ∨ c = '!' := by simpa using hc
        have hspace : isAsciiSpace c = false := by
          rcases hsign with rfl | rfl <;> rfl
        refine ⟨c, ?_, hsign⟩
        rw [lstrip, List.dropWhile_append_of_pos hrun, List.dropWhile_cons, hspace]
        rfl
      · exact absurd h List.not_mem_nil
  · rintro ⟨c, hc, hsign⟩
    obtain ⟨s, hs⟩ : ∃ s, lstrip t = c :: s := by
      cases hl : lstrip t with
      | nil =>
        rw [hl] at hc
        cases hc
      | cons d s =>
        rw [hl] at hc
        cases hc
        exact ⟨s, rfl⟩
    have hmem : decide (c ∈ ['#', '!']) = true := by simpa using hsign
    refine ⟨s.dropWhile (· ≠ '\n'), t.takeWhile isAsciiSpace, c :: s, ?_,
      fun d hd => List.mem_takeWhile_imp hd, ?_⟩
    · rw [← hs]
      exact List.takeWhile_append_dropWhile.symm
    · simp only [ends, hmem, if_true]
      exact mem_many_iff.mpr ⟨s.takeWhile (· ≠ '\n'), s.dropWhile (· ≠ '\n'),
        List.takeWhile_append_dropWhile.symm, fun d hd => List.mem_takeWhile_imp (p := fun c => decide (c ≠ '\n')) hd,
        List.mem_singleton_self _⟩

section Natural

variable {a e : Text}

theorem isAsciiSpace_of_break {c : Char} (h : c = '\n' ∨ c = '\r') : isAsciiSpace c = true := by
  rcases h with rfl | rfl <;> rfl

theorem rstripBreaks_of_clean (t : Text) (ht : Clean '\r' '\n' t) : rstripBreaks t = dropFeeds t := by
  induction t using List.reverseRecOn with
  | nil => rfl
  | append_singleton s c ih =>
    obtain ⟨hs, hc⟩ := clean_append.mp ht
    rw [rstripBreaks, dropFeeds]
    by_cases hfeed : c = '\x0c'
    · rw [List.rdropWhile_concat_pos _ _ _ (by rw [hfeed]; rfl),
        List.rdropWhile_concat_pos (fun c => decide (c = '\x0c')) _ _ (decide_eq_true hfeed)]
      exact ih hs
    · have hbreak : ¬ isLineBreak c = true := by
        obtain ⟨hcr, hlf, -⟩ := clean_cons hc
        simp [isLineBreak, hcr, hlf, hfeed]
      rw [List.rdropWhile_concat_neg _ _ _ hbreak, List.rdropWhile_concat_neg _ _ _ (by simpa using hfeed)]

/-- The head of a line is foreign in no line that Java skips. -/
theorem head_of_skipped (h : skipped a = true) : ∀ c ∈ (trimStart a).head?, isForeign c = false := by
  intro c hc
  rw [skipped] at h
  cases ht : trimStart a with
  | nil =>
    rw [ht] at hc
    cases hc
  | cons d s =>
    rw [ht] at hc h
    cases hc
    have hsign : c = '#' ∨ c = '!' := by simpa using h
    rcases hsign with rfl | rfl <;> rfl

section Head

variable (he : ∀ c ∈ e, c = '\n' ∨ c = '\r') (hhead : ∀ c ∈ (trimStart a).head?, isForeign c = false)
include he hhead

/-- A line without its blanks in front. -/
theorem lstrip_line : lstrip (a ++ e) = if trimStart a = [] then [] else trimStart a ++ e := by
  have hself : lstrip a = trimStart a := (lstrip_eq_iff a).mpr hhead
  by_cases hnil : trimStart a = []
  · rw [if_pos hnil]
    rw [hnil] at hself
    refine List.dropWhile_eq_nil_iff.mpr fun c hc => ?_
    rcases List.mem_append.mp hc with hc | hc
    · exact List.dropWhile_eq_nil_iff.mp hself c hc
    · exact isAsciiSpace_of_break (he c hc)
  · have hne : (a.dropWhile isAsciiSpace).isEmpty = false := by
      rw [← lstrip, hself]
      exact List.isEmpty_eq_false_iff.mpr hnil
    rw [if_neg hnil, lstrip, List.dropWhile_append, hne, if_neg Bool.false_ne_true, ← lstrip, hself]

/-- What goes into the logical line. -/
theorem rstripBreaks_lstrip_line (ha : Clean '\r' '\n' a) : rstripBreaks (lstrip (a ++ e)) = dropFeeds (trimStart a) := by
  have hclean : Clean '\r' '\n' (trimStart a) :=
    ⟨fun hm => ha.1 ((List.dropWhile_suffix _).subset hm), fun hm => ha.2 ((List.dropWhile_suffix _).subset hm)⟩
  rw [lstrip_line he hhead]
  by_cases hnil : trimStart a = []
  · rw [if_pos hnil, hnil]
    rfl
  · rw [if_neg hnil, ← rstripBreaks_of_clean _ hclean, rstripBreaks, List.rdropWhile, List.reverse_append,
      List.dropWhile_append_of_pos]
    · rfl
    · intro c hc
      rcases he c (List.mem_reverse.mp hc) with rfl | rfl <;> rfl

/-- Python skips the lines that Java skips. -/
theorem skips_iff : (strip isAsciiSpace (a ++ e) ≠ [] ∧ isMatch COMMENT_LINE (a ++ e) = false) ↔ skipped a = false := by
  have hline := lstrip_line he hhead
  rw [Ne, strip_eq_nil_iff, ← List.dropWhile_eq_nil_iff, ← lstrip, ← Bool.not_eq_true, isMatch_COMMENT_LINE_iff, hline,
    skipped]
  cases trimStart a with
  | nil => simp
  | cons c s => simp

end Head

/-- A line that goes on ends in a backslash. -/
theorem trimStart_of_continued (h : continued a = true) : ∃ s, trimStart a = s ++ ['\\'] := by
  have hne : a ≠ [] := by
    rintro rfl
    cases h
  obtain ⟨s, c, rfl⟩ := (List.eq_nil_or_concat' a).resolve_left hne
  obtain rfl : c = '\\' := by
    by_contra hc
    rw [continued_append_of_last hc] at h
    cases h
  by_cases hs : trimStart s = []
  · refine ⟨[], ?_⟩
    rw [trimStart, List.dropWhile_append_of_pos (List.dropWhile_eq_nil_iff.mp hs)]
    rfl
  · exact ⟨trimStart s, trimStart_append hs⟩

/-- Python goes on after a backslash, and takes it away. -/
theorem joined_concat {s : Text} (hs : '\n' ∉ s) (line : Text) :
    isMatch MULTI_LINE (s ++ ['\\']) = true ∧ joined (s ++ ['\\']) line = s ++ rstripBreaks (lstrip line) := by
  refine ⟨isMatch_MULTI_LINE_iff.mpr ⟨s, [], rfl, hs, fun c hc => absurd hc List.not_mem_nil⟩, ?_⟩
  rw [joined, rstrip_append rfl (fun d hd => absurd hd List.not_mem_nil), List.dropLast_concat]

end Natural

/-! ### The loops -/

/-- A carriage return ends a line only before a line feed or at the end. -/
def Returns (text : Text) : Prop := ∀ a t, text = a ++ '\r' :: t → t = [] ∨ t.head? = some '\n'

/-- Where the function goes on with a line, in a logical line or not. -/
def resume : Option Text → Text → Point
  | none => .outer
  | some pending => fun line => .inner (pending ++ rstripBreaks (lstrip line))

/-- The entries are put one after the other. -/
def putAll (d : List (List ℕ × List ℕ)) (entries : List (List ℕ × List ℕ)) : List (List ℕ × List ℕ) :=
  entries.foldl (fun d e => put e.1 e.2 d) d

section Loops

variable (names : Text → Option ℕ)

/-- The state the function ends in. -/
def finish (s : State) : State := Halting.final (step names) State.size s

theorem finish_of_step {s t : State} (h : step names s = some t) : finish names s = finish names t :=
  Halting.final_of_step (size_lt_of_step names) h

/-- From here on the function reads the entries that Java reads. -/
def Loads (text : Text) : Prop :=
  ∀ (pending : Option Text) (s : State), s.file = text → AlikeLines pending (lines '\r' '\n' text) →
    (∀ p ∈ pending, '\n' ∉ p) →
      ∃ entries reads, (gather pending (lines '\r' '\n' text)).mapM readUnits = some entries ∧
        finish names (s.next (resume pending)) = ⟨[], reads, putAll s.result entries, .finished⟩

/-- A logical line ends. -/
theorem finish_line {pending last : Text} (h : AlikeLine pending last) {s : State}
    (hs : s.point = .inner (pending ++ dropFeeds last)) :
    ∃ entry, readUnits (pending ++ last) = some entry ∧
      finish names s = finish names ({ s with result := put entry.1 entry.2 s.result }.next .outer) := by
  obtain ⟨entry, hentry, hjava⟩ := entryOf_eq names h
  refine ⟨entry, hjava, finish_of_step names ?_⟩
  simp only [step, hs, isMatch_MULTI_LINE_of_alike h.ended, Bool.false_eq_true, if_false, hentry]

/-- At the end of the file. -/
theorem finish_end {s : State} (hs : s.file = []) :
    ∃ reads, finish names (s.next .outer) = ⟨[], reads, s.result, .finished⟩ := by
  refine ⟨s.reads ++ someLine (readline s.file).1, ?_⟩
  have hstep : step names (s.next .outer) =
      some ⟨[], s.reads ++ someLine (readline s.file).1, s.result, .finished⟩ := by
    simp only [step, State.next, hs, readline, if_true]
  rw [finish_of_step names hstep]
  exact Halting.final_of_halted rfl

theorem loads_nil : Loads names [] := by
  intro pending s hs h hpending
  cases pending with
  | none =>
    obtain ⟨reads, hreads⟩ := finish_end names hs
    exact ⟨[], reads, rfl, hreads⟩
  | some p =>
    have halike : AlikeLine p [] := h
    have hne : p ≠ [] := by
      have := halike.nonempty
      rwa [List.append_nil] at this
    have hpoint : (s.next (resume (some p))).point = .inner (p ++ dropFeeds []) := by
      show Point.inner (p ++ rstripBreaks (lstrip (readline s.file).1)) = _
      rw [hs]
      rfl
    obtain ⟨entry, hjava, hfinish⟩ := finish_line names halike hpoint
    have hfile : (s.next (resume (some p))).file = [] := by
      show (readline s.file).2 = []
      rw [hs]
      rfl
    obtain ⟨reads, hreads⟩ := finish_end names (s := { s.next (resume (some p)) with
      result := put entry.1 entry.2 (s.next (resume (some p))).result }) hfile
    refine ⟨[entry], reads, ?_, hfinish.trans hreads⟩
    rw [List.append_nil] at hjava
    have hgather : gather (some p) (lines '\r' '\n' []) = [p] := by
      show [p].filter _ = _
      rw [List.filter_cons, if_pos (decide_eq_true hne)]
      rfl
    rw [hgather, List.mapM_cons, hjava]
    rfl

section Step

variable {a e t text : Text} (ha : Clean '\r' '\n' a)
include ha

/-- One more natural line of a logical one. -/
theorem loads_inner (ih : Loads names t) {pending : Option Text} {s : State} (hs : s.file = t)
    (hpoint : s.point = .inner (pending.getD [] ++ dropFeeds (trimStart a)))
    (hskip : (pending.isNone && skipped a) = false) (h : AlikeLines pending (a :: lines '\r' '\n' t))
    (hpending : '\n' ∉ pending.getD []) :
    ∃ entries reads, (gather pending (a :: lines '\r' '\n' t)).mapM readUnits = some entries ∧
      finish names s = ⟨[], reads, putAll s.result entries, .finished⟩ := by
  rw [AlikeLines, hskip, if_neg Bool.false_ne_true] at h
  rw [gather, PropertiesFile.step, hskip, if_neg Bool.false_ne_true]
  obtain ⟨-, h⟩ := h
  by_cases hcontinued : continued a = true
  · -- the backslash is taken away, and the next line joined
    rw [if_pos hcontinued] at h
    rw [if_pos hcontinued]
    obtain ⟨w, hw⟩ := trimStart_of_continued hcontinued
    have hfeeds : dropFeeds (w ++ ['\\']) = w ++ ['\\'] := List.rdropWhile_concat_neg _ _ _ (by decide)
    have hlast : (pending.getD [] ++ trimStart a).dropLast = pending.getD [] ++ w := by
      rw [hw, ← List.append_assoc, List.dropLast_concat]
    have hclean : '\n' ∉ pending.getD [] ++ w := by
      intro hm
      rcases List.mem_append.mp hm with hm | hm
      · exact hpending hm
      · refine ha.2 ((List.dropWhile_suffix isBlank).subset ?_)
        rw [← trimStart, hw]
        exact List.mem_append_left _ hm
    rw [hlast] at h ⊢
    obtain ⟨entries, reads, hentries, hfinish⟩ := ih (some (pending.getD [] ++ w)) s hs h (by
      intro p hp
      cases hp
      exact hclean)
    have hresume : (fun line => Point.inner (joined (pending.getD [] ++ w ++ ['\\']) line)) =
        resume (some (pending.getD [] ++ w)) := by
      funext line
      rw [(joined_concat hclean line).2]
      rfl
    rw [hw, hfeeds, ← List.append_assoc] at hpoint
    have hstep : step names s = some (s.next (resume (some (pending.getD [] ++ w)))) := by
      simp only [step, hpoint, (joined_concat hclean []).1, if_true, hresume]
    exact ⟨entries, reads, hentries, (finish_of_step names hstep).trans hfinish⟩
  · rw [if_neg hcontinued] at h
    rw [if_neg hcontinued]
    obtain ⟨entry, hjava, hfinish⟩ := finish_line names h.1 hpoint
    obtain ⟨entries, reads, hentries, hrest⟩ := ih none { s with result := put entry.1 entry.2 s.result } hs h.2
      fun p hp => by cases hp
    refine ⟨entry :: entries, reads, ?_, hfinish.trans hrest⟩
    have hfilter : (some (pending.getD [] ++ trimStart a)).toList.filter (· ≠ []) =
        [pending.getD [] ++ trimStart a] := by
      rw [Option.toList_some, List.filter_cons, if_pos (decide_eq_true h.1.nonempty)]
      rfl
    simp only [hfilter, List.singleton_append, List.mapM_cons, hjava, hentries]
    rfl

/-- One more natural line. -/
theorem loads_line (he : ∀ c ∈ e, c = '\n' ∨ c = '\r') (hne : a ++ e ≠ []) (hread : readline text = (a ++ e, t))
    (hlines : lines '\r' '\n' text = a :: lines '\r' '\n' t) (ih : Loads names t) : Loads names text := by
  intro pending s hs h hpending
  rw [hlines] at h ⊢
  have hfile : ∀ k, (s.next k).file = t := fun k => by
    show (readline s.file).2 = t
    rw [hs, hread]
  have hline : ∀ k, (s.next k).point = k (a ++ e) := fun k => by
    show k (readline s.file).1 = _
    rw [hs, hread]
  by_cases hskip : (pending.isNone && skipped a) = true
  · obtain ⟨hnone, hskipped⟩ := Bool.and_eq_true_iff.mp hskip
    obtain rfl : pending = none := Option.isNone_iff_eq_none.mp hnone
    rw [AlikeLines, if_pos hskip] at h
    rw [gather, step_of_skipped hskipped]
    obtain ⟨entries, reads, hentries, hfinish⟩ := ih none (s.next .outer) (hfile _) h fun p hp => by cases hp
    have hcondition := (skips_iff he (head_of_skipped hskipped)).not.mpr (by rw [hskipped]; decide)
    have hpoint := hline .outer
    have hstep : step names (s.next .outer) = some ((s.next .outer).next .outer) := by
      simp only [step, hpoint, if_neg hne, if_neg hcondition]
    exact ⟨entries, reads, hentries, (finish_of_step names hstep).trans hfinish⟩
  · rw [Bool.not_eq_true] at hskip
    have hhead : ∀ c ∈ (trimStart a).head?, isForeign c = false := by
      rw [AlikeLines, hskip, if_neg Bool.false_ne_true] at h
      exact h.1
    have hrest := rstripBreaks_lstrip_line he hhead ha
    cases pending with
    | none =>
      -- a logical line begins
      have hcondition := (skips_iff he hhead).mpr hskip
      have hpoint := hline .outer
      have hstep : step names (s.next .outer) =
          some { s.next .outer with point := .inner (dropFeeds (trimStart a)) } := by
        simp only [step, hpoint, if_neg hne, if_pos hcondition, hrest]
      obtain ⟨entries, reads, hentries, hfinish⟩ := loads_inner names ha ih
        (s := { s.next .outer with point := .inner (dropFeeds (trimStart a)) }) (hfile .outer) rfl hskip h List.not_mem_nil
      exact ⟨entries, reads, hentries, (finish_of_step names hstep).trans hfinish⟩
    | some p =>
      have hpoint : (s.next (resume (some p))).point = .inner (p ++ rstripBreaks (lstrip (a ++ e))) := hline _
      rw [hrest] at hpoint
      exact loads_inner names ha ih (hfile _) hpoint hskip h (hpending p rfl)

end Step

theorem readline_append {a u : Text} (ha : '\n' ∉ a) : readline (a ++ u) = (a ++ (readline u).1, (readline u).2) := by
  induction a with
  | nil => rfl
  | cons c a ih =>
    have hc : c ≠ '\n' := fun he => ha (he ▸ List.mem_cons_self)
    rw [List.cons_append, readline, if_neg hc, ih fun hm => ha (List.mem_cons_of_mem _ hm)]
    rfl

/-- **The function reads what Java reads**, from any line on. -/
theorem loads (text : Text) : Returns text → Loads names text := by
  have hreturns : ∀ {a t : Text}, Returns (a ++ t) → Returns t := by
    intro a t h b u hu
    exact h (a ++ b) u (by rw [hu, List.append_assoc])
  have hcr : '\r' ≠ '\n' := by decide
  refine lines_rec '\r' '\n' (P := fun text => Returns text → Loads names text) (fun a ha _ => ?_)
    (fun a t ha ih h => ?_) (fun a t ha ih h => ?_) (fun a t ha ht ih h => ?_) text
  · by_cases hnil : a = []
    · subst hnil
      exact loads_nil names
    · refine loads_line names (e := []) (t := []) ha (by simp) (by simpa using hnil) ?_ (lines_last ha hnil) (loads_nil names)
      have hread := readline_append (u := []) ha.2
      rwa [List.append_nil] at hread
  · refine loads_line names (e := ['\n']) ha (by simp) (by simp) (readline_append ha.2)
      (lines_append (lines_lf t) ha) (ih (hreturns (a := a ++ ['\n']) ?_))
    rw [List.append_assoc]
    exact h
  · refine loads_line names (e := ['\r', '\n']) ha (by simp) (by simp) (readline_append ha.2)
      (lines_append (lines_crlf hcr t) ha) (ih (hreturns (a := a ++ ['\r', '\n']) ?_))
    rw [List.append_assoc]
    exact h
  · obtain rfl := (h a t rfl).resolve_right ht
    exact loads_line names (e := ['\r']) ha (by simp) (by simp) (readline_append ha.2)
      (lines_append (lines_cr hcr ht) ha) (ih fun b u hu => by simp at hu)

end Loops

/-! ### Files -/

/-- Java loads the file, and Python reads the same element of every key. -/
def Agrees (names : Text → Option ℕ) (text : Text) : Prop :=
  ∃ entries d, loadUnits text = some entries ∧ getJavaProperties names text = .ok d ∧
    ∀ key, d.lookup key = entries.reverse.lookup key

/-- The last entry of a key counts. -/
theorem lookup_putAll (key : List ℕ) : ∀ (entries d : List (List ℕ × List ℕ)),
    (putAll d entries).lookup key = (entries.reverse.lookup key).or (d.lookup key)
  | [], _ => rfl
  | (k, v) :: entries, d => by
    have hput : putAll d ((k, v) :: entries) = putAll (put k v d) entries := rfl
    rw [hput, lookup_putAll key entries, lookup_put, List.reverse_cons, List.lookup_append, Option.or_assoc,
      List.lookup_cons]
    by_cases hk : key = k
    · rw [if_pos hk, hk, beq_self_eq_true]
      rfl
    · rw [if_neg hk, beq_eq_false_iff_ne.mpr hk]
      rfl

theorem getJavaProperties_of_finish (names : Text → Option ℕ) {text : Text} {reads : List Text}
    {d : List (List ℕ × List ℕ)} (h : finish names (start text) = ⟨[], reads, d, .finished⟩) :
    getJavaProperties names text = .ok d := by
  rw [getJavaProperties, ← finish, h]

/-- A file whose lines are alike is read alike. -/
theorem agrees_of_alikeLines (names : Text → Option ℕ) {text : Text} (hreturns : Returns text)
    (h : AlikeLines none (lines '\r' '\n' text)) : Agrees names text := by
  obtain ⟨entries, reads, hentries, hfinish⟩ := loads names text hreturns none ⟨text, [], [], .finished⟩ rfl h nofun
  refine ⟨entries, putAll [] entries, hentries, getJavaProperties_of_finish names hfinish, fun key => ?_⟩
  rw [lookup_putAll]
  exact Option.or_none

end Jprop

end Plethoralib

end Plethora
