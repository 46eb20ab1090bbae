/-
# A properties file as Java and as Python read it

A file whose lines are alike is read alike (`agrees_of_alikeLines`). Of a file
of one line without a backslash that is the only one: Python's key starts with
no white space, its element ends in no form feed, and its pieces are Java's
exactly if the line splits (`agrees_line_iff`).

Key theorems: `getJavaProperties_line`, `loadUnits_line`, `agrees_line_iff`,
`getJavaProperties_eq_load`.
-/
import Plethora.Agents.JpropLoading

namespace Plethora

namespace Plethoralib

namespace Jprop

open Pattern PropertiesFile Strip

/-! ### A file of one line without backslashes -/

section OneLine

variable (names : Text → Option ℕ) {a : Text}

theorem convert_of_not_mem {t : Text} (h : '\\' ∉ t) : convert names t = some (t.map Char.toNat) := by
  obtain ⟨units, hconvert, hjava⟩ := convert_eq names (tame_of_not_mem h)
  rw [hconvert, ← hjava, unescape_of_not_mem h]

theorem not_mem_trimStart (h : '\\' ∉ a) : '\\' ∉ trimStart a := fun hm => h ((List.dropWhile_suffix _).subset hm)

theorem pairOf_pieces (l : Text) : ∃ separator, l = (pairOf l).1 ++ (separator ++ (pairOf l).2) := by
  rw [pairOf]
  cases hcut : cut SPLIT_DELIM none l with
  | none => exact ⟨[], (List.append_nil l).symm⟩
  | some p => exact cut_pieces hcut

/-- What Python reads of the line, if it does not skip it. -/
theorem getJavaProperties_line (ha : Clean '\r' '\n' a) (hslash : '\\' ∉ a) :
    getJavaProperties names (a ++ ['\n']) = .ok [] ∨
      getJavaProperties names (a ++ ['\n']) =
        .ok [Prod.map (List.map Char.toNat) (List.map Char.toNat) (pairOf (rstripBreaks (lstrip (a ++ ['\n']))))] := by
  have hread : readline (a ++ ['\n']) = (a ++ ['\n'], []) := readline_append ha.2
  have hfile : (start (a ++ ['\n'])).file = [] := congrArg Prod.snd hread
  have hpoint : (start (a ++ ['\n'])).point = .outer (a ++ ['\n']) :=
    congrArg (fun p : Text × Text => Point.outer p.1) hread
  have hne : a ++ ['\n'] ≠ [] := by simp
  by_cases hskip : strip isAsciiSpace (a ++ ['\n']) ≠ [] ∧ isMatch COMMENT_LINE (a ++ ['\n']) = false
  · right
    have hslash' : '\\' ∉ rstripBreaks (lstrip (a ++ ['\n'])) := by
      intro hm
      have hmem := (List.dropWhile_suffix _).subset ((List.rdropWhile_prefix _ _).subset hm)
      simp [hslash] at hmem
    have hstep : step names (start (a ++ ['\n'])) =
        some { start (a ++ ['\n']) with point := .inner (rstripBreaks (lstrip (a ++ ['\n']))) } := by
      simp only [step, hpoint, if_neg hne, if_pos hskip]
    generalize rstripBreaks (lstrip (a ++ ['\n'])) = l at hslash' hstep ⊢
    have hmulti : isMatch MULTI_LINE l = false := by
      rw [← Bool.not_eq_true]
      intro hmulti
      obtain ⟨before, after, rfl, -, -⟩ := isMatch_MULTI_LINE_iff.mp hmulti
      exact hslash' (List.mem_append_right _ List.mem_cons_self)
    have hentry : entryOf names l = some (Prod.map (List.map Char.toNat) (List.map Char.toNat) (pairOf l)) := by
      obtain ⟨separator, hpieces⟩ := pairOf_pieces l
      rw [hpieces, List.mem_append, List.mem_append, not_or, not_or] at hslash'
      rw [entryOf, convert_of_not_mem names hslash'.1, convert_of_not_mem names hslash'.2.2]
      rfl
    have hend : step names { start (a ++ ['\n']) with point := .inner l } = some ({ start (a ++ ['\n']) with
        point := .inner l
        result := [Prod.map (List.map Char.toNat) (List.map Char.toNat) (pairOf l)] }.next .outer) := by
      simp only [step, hmulti, Bool.false_eq_true, if_false, hentry]
      rfl
    obtain ⟨reads, hreads⟩ := finish_end names (s := { start (a ++ ['\n']) with
      point := .inner l
      result := [Prod.map (List.map Char.toNat) (List.map Char.toNat) (pairOf l)] }) hfile
    have hfinish :=
      calc finish names (start (a ++ ['\n']))
          = finish names { start (a ++ ['\n']) with point := .inner l } := finish_of_step names hstep
        _ = finish names ({ start (a ++ ['\n']) with
              point := .inner l
              result := [Prod.map (List.map Char.toNat) (List.map Char.toNat) (pairOf l)] }.next .outer) :=
            finish_of_step names hend
    exact getJavaProperties_of_finish names (hfinish.trans hreads)
  · left
    have hstep : step names (start (a ++ ['\n'])) = some ((start (a ++ ['\n'])).next .outer) := by
      simp only [step, hpoint, if_neg hne, if_neg hskip]
    obtain ⟨reads, hreads⟩ := finish_end names hfile
    exact getJavaProperties_of_finish names ((finish_of_step names hstep).trans hreads)

/-- Python's key starts with no white space. -/
theorem head_of_pairOf {t : Text} (hkey : (pairOf (rstripBreaks (lstrip t))).1 = (splitKey false (trimStart a)).1) :
    ∀ c ∈ (trimStart a).head?, isForeign c = false := by
  intro c hc
  by_contra hforeign
  rw [Bool.not_eq_false] at hforeign
  obtain ⟨hspace, hblank⟩ := Bool.and_eq_true_iff.mp hforeign
  obtain ⟨s, hs⟩ : ∃ s, trimStart a = c :: s := List.head?_eq_some_iff.mp hc
  have hsep : ¬ ((c = '=' || c = ':' || isBlank c) && !false) = true := by
    have heq : c ≠ '=' := fun he => by simp [he, isAsciiSpace] at hspace
    have hcolon : c ≠ ':' := fun he => by simp [he, isAsciiSpace] at hspace
    simpa [heq, hcolon] using hblank
  obtain ⟨separator, hl⟩ := pairOf_pieces (rstripBreaks (lstrip t))
  rw [hkey, hs, splitKey_cons hsep] at hl
  obtain ⟨w, hw⟩ : rstripBreaks (lstrip t) <+: lstrip t := List.rdropWhile_prefix _ _
  have hnot := List.head?_dropWhile_not isAsciiSpace t
  rw [← lstrip, ← hw, hl] at hnot
  simp [hspace] at hnot

/-- Python's element ends in no form feed. -/
theorem eq_nil_of_dropFeeds {t u e : Text} (h : dropFeeds t = u ++ e) (hsuffix : e <:+ t) (hfeeds : dropFeeds t ≠ t) :
    e = [] := by
  by_contra helement
  obtain ⟨feeds, ht, hall⟩ := dropFeeds_spec t
  have hfeeds' : feeds ≠ [] := by
    rintro rfl
    exact hfeeds (ht.trans (List.append_nil _)).symm
  have hlast : e.getLast? = some (feeds.getLast hfeeds') := by
    obtain ⟨v, hv⟩ := hsuffix
    rw [← List.getLast?_append_of_ne_nil v helement, hv, ← List.getLast?_eq_some_getLast hfeeds',
      ← List.getLast?_append_of_ne_nil (dropFeeds t) hfeeds', ← ht]
  have hne : dropFeeds t ≠ [] := by
    rw [h]
    exact List.append_ne_nil_of_right_ne_nil u helement
  refine List.rdropWhile_last_not (fun c => decide (c = '\x0c')) t hne (decide_eq_true ?_)
  have hsame : (dropFeeds t).getLast? = some (feeds.getLast hfeeds') := by
    rw [← hlast, h, List.getLast?_append_of_ne_nil _ helement]
  rw [List.getLast?_eq_some_getLast hne] at hsame
  exact (Option.some.inj hsame).trans (hall _ (List.getLast_mem hfeeds'))

/-- A line that is cut as Java cuts it is alike. -/
theorem alikeLine_of_pairOf {t : Text} (hslash : '\\' ∉ t) (hne : t ≠ [])
    (h : pairOf (dropFeeds t) = ((splitKey false t).1, skipSeparator false (splitKey false t).2)) : AlikeLine [] t := by
  have hpieces := splitKey_pieces false t
  have hsuffix : skipSeparator false (splitKey false t).2 <:+ t := (skipSeparator_suffix _ _).trans ⟨_, hpieces⟩
  have hended : (rstrip t).getLast? ≠ some '\\' := by
    intro hlast
    exact hslash ((List.rdropWhile_prefix _ _).subset (List.mem_of_getLast? hlast))
  have hdropped : dropFeeds t ≠ t → skipSeparator false (splitKey false t).2 = [] := by
    obtain ⟨separator, hl⟩ := pairOf_pieces (dropFeeds t)
    rw [h, ← List.append_assoc] at hl
    exact eq_nil_of_dropFeeds hl hsuffix
  have hsame : (splitKey false (dropFeeds t)).1 = (splitKey false t).1 ∧
      skipSeparator false (splitKey false (dropFeeds t)).2 = skipSeparator false (splitKey false t).2 :=
    @pieces_dropFeeds [] t hended hdropped
  exact {
    nonempty := hne
    ended := hended
    feeds := hdropped
    splits := (pairOf_eq_iff _).mp (by rw [List.nil_append, h, hsame.1, hsame.2])
    key := tame_of_not_mem fun hm => hslash (List.IsPrefix.subset ⟨_, hpieces⟩ hm)
    element := tame_of_not_mem fun hm => hslash (hsuffix.subset hm) }

theorem eq_of_lookup_singleton {k : List ℕ} {v : List ℕ} {p : List ℕ × List ℕ} (h : [p].lookup k = some v) :
    p.1 = k ∧ p.2 = v := by
  obtain ⟨k', v'⟩ := p
  rw [List.lookup_cons] at h
  split at h
  · rename_i hk
    exact ⟨(beq_iff_eq.mp hk).symm, Option.some.inj h⟩
  · cases h

theorem map_toNat_injective : Function.Injective (List.map Char.toNat) :=
  Function.LeftInverse.injective ofUnits_toNat

theorem continued_of_not_mem (hslash : '\\' ∉ a) : continued a = false := by
  rw [← Bool.not_eq_true]
  intro hcontinued
  obtain ⟨s, hs⟩ := trimStart_of_continued hcontinued
  refine not_mem_trimStart hslash ?_
  rw [hs]
  exact List.mem_append_right _ List.mem_cons_self

/-- What Java reads of the line, if it does not skip it. -/
theorem loadUnits_line (ha : Clean '\r' '\n' a) (hslash : '\\' ∉ a) (hskipped : skipped a = false) :
    loadUnits (a ++ ['\n']) = some [((splitKey false (trimStart a)).1.map Char.toNat,
      (skipSeparator false (splitKey false (trimStart a)).2).map Char.toNat)] := by
  have hclean := not_mem_trimStart hslash
  have hpieces := splitKey_pieces false (trimStart a)
  have hkey : '\\' ∉ (splitKey false (trimStart a)).1 := fun hm => hclean (List.IsPrefix.subset ⟨_, hpieces⟩ hm)
  have helement : '\\' ∉ skipSeparator false (splitKey false (trimStart a)).2 := fun hm =>
    hclean (((skipSeparator_suffix _ _).trans ⟨_, hpieces⟩).subset hm)
  have hgather : gather none [a] = [trimStart a] := by
    rw [gather, PropertiesFile.step, hskipped, continued_of_not_mem hslash]
    simp [gather, trimStart_ne_nil hskipped]
  have hjava : readUnits (trimStart a) = some ((splitKey false (trimStart a)).1.map Char.toNat,
      (skipSeparator false (splitKey false (trimStart a)).2).map Char.toNat) := by
    rw [readUnits, unescape_of_not_mem hkey, unescape_of_not_mem helement]
    rfl
  rw [loadUnits, lines_append (lines_lf []) ha]
  show (gather none [a]).mapM readUnits = _
  rw [hgather, List.mapM_cons, hjava]
  rfl

/-- **A file of one line without a backslash is read alike exactly if the line is.** -/
theorem agrees_line_iff (ha : Clean '\r' '\n' a) (hslash : '\\' ∉ a) :
    Agrees names (a ++ ['\n']) ↔ AlikeLines none [a] := by
  constructor
  · rintro ⟨entries, d, hload, hpython, hlookup⟩
    by_cases hskipped : skipped a = true
    · rw [AlikeLines, hskipped]
      trivial
    · rw [Bool.not_eq_true] at hskipped
      rw [loadUnits_line ha hslash hskipped] at hload
      cases hload
      have hset : d.lookup ((splitKey false (trimStart a)).1.map Char.toNat) =
          some ((skipSeparator false (splitKey false (trimStart a)).2).map Char.toNat) := by
        rw [hlookup]
        show List.lookup _ [(_, _)] = _
        rw [List.lookup_cons, beq_self_eq_true]
      rw [AlikeLines, hskipped, Bool.and_false, if_neg Bool.false_ne_true, continued_of_not_mem hslash,
        if_neg Bool.false_ne_true]
      rcases getJavaProperties_line names ha hslash with h | h
      · rw [h] at hpython
        cases hpython
        cases hset
      · rw [h] at hpython
        cases hpython
        obtain ⟨hk, he⟩ := eq_of_lookup_singleton hset
        have hk' := map_toNat_injective hk
        have hhead := head_of_pairOf hk'
        rw [rstripBreaks_lstrip_line (by simp) hhead ha] at hk' he
        exact ⟨hhead, alikeLine_of_pairOf (not_mem_trimStart hslash) (trimStart_ne_nil hskipped)
          (Prod.ext hk' (map_toNat_injective he)), trivial⟩
  · intro h
    refine agrees_of_alikeLines names (fun b t hbt => ?_) ((lines_append (lines_lf []) ha).symm ▸ h)
    have hcr : '\r' ∉ a ++ ['\n'] := by simpa using ha.1
    rw [hbt] at hcr
    exact absurd (List.mem_append_right _ List.mem_cons_self) hcr

end OneLine

/-- **The function reads what Java reads** if the lines of the file are alike,
and of a file of one line without a backslash only then. -/
theorem getJavaProperties_eq_load (names : Text → Option ℕ) (text : Text) :
    (Returns text → AlikeLines none (lines '\r' '\n' text) → Agrees names text) ∧
      ∀ a, text = a ++ ['\n'] → Clean '\r' '\n' a → '\\' ∉ a → (Agrees names text ↔ AlikeLines none [a]) := by
  refine ⟨agrees_of_alikeLines names, fun a htext ha hslash => ?_⟩
  rw [htext]
  exact agrees_line_iff names ha hslash

/-- A comment, a blank in a key, and a line that goes on; and a line with a tab. -/
theorem getJavaProperties_eq_load_comment :
    Agrees (fun _ => none) "# node\nmy\\ key = x\\\n  y\n".toList ∧
      (Agrees (fun _ => none) "key\tvalue\n".toList ↔ AlikeLines none ["key\tvalue".toList]) := by
  refine ⟨(getJavaProperties_eq_load _ _).1 (fun a t h => ?_) ?_, (getJavaProperties_eq_load _ _).2 _ (by decide +kernel)
    ⟨by decide +kernel, by decide +kernel⟩ (by decide +kernel)⟩
  · have hcr : '\r' ∉ "# node\nmy\\ key = x\\\n  y\n".toList := by decide +kernel
    rw [h] at hcr
    exact absurd (List.mem_append_right _ List.mem_cons_self) hcr
  · have hlines : lines '\r' '\n' "# node\nmy\\ key = x\\\n  y\n".toList =
        ["# node".toList, "my\\ key = x\\".toList, "  y".toList] := by decide +kernel
    have hkey : Tame "my\\ key".toList := .plain (by decide) (.plain (by decide)
      (.escaped (by decide) (tame_of_not_mem (by decide))))
    have hline : AlikeLine "my\\ key = x".toList "y".toList := {
      nonempty := by decide +kernel
      ended := by decide +kernel
      feeds := fun h => absurd (by decide +kernel) h
      splits := (pairOf_eq_iff _).mp (by decide +kernel)
      key := hkey
      element := tame_of_not_mem (by decide +kernel) }
    have hfirst : continued "my\\ key = x\\".toList = true := by decide +kernel
    have hsecond : ¬ continued "  y".toList = true := by decide +kernel
    have hpending : ([] ++ trimStart "my\\ key = x\\".toList).dropLast = "my\\ key = x".toList := by decide +kernel
    have hhead : ∀ {l : Text} {c : Char}, (trimStart l).head? = some c → isForeign c = false →
        ∀ d ∈ (trimStart l).head?, isForeign d = false := by
      intro l c hc hforeign d hd
      rw [hc] at hd
      cases hd
      exact hforeign
    rw [hlines]
    refine ⟨hhead (c := 'm') (by decide +kernel) rfl, ?_⟩
    rw [if_pos hfirst, Option.getD_none, hpending]
    refine ⟨hhead (c := 'y') (by decide +kernel) rfl, ?_⟩
    rw [if_neg hsecond]
    exact ⟨hline, trivial⟩

/-- A tab does not end a key. -/
theorem not_getJavaProperties_eq_load_tab :
    ¬ ∀ (names : Text → Option ℕ) (text : Text),
      (∀ c ∈ text, c.toNat < 128) → (loadUnits text).isSome → Agrees names text := by
  intro h
  obtain ⟨entries, d, hload, hpython, hlookup⟩ :=
    h (fun _ => none) "key\tvalue\n".toList (by decide +kernel) (by decide +kernel)
  have hjava : loadUnits "key\tvalue\n".toList = some [([107, 101, 121], [118, 97, 108, 117, 101])] := by decide +kernel
  have hd : getJavaProperties (fun _ => none) "key\tvalue\n".toList =
      .ok [([107, 101, 121, 9, 118, 97, 108, 117, 101], [])] := by decide +kernel
  rw [hjava] at hload
  rw [hd] at hpython
  cases hload
  cases hpython
  exact absurd (hlookup [107, 101, 121]) (by decide)

end Jprop

end Plethoralib

end Plethora
