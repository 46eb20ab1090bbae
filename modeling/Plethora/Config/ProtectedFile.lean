/-
# The rewritten properties file

What the text that `protectValues` hands to the file writer loads as. The file
is decoded and filtered line by line; the text is loaded again from its bytes,
as `Properties.load` reads them.

`filterLine` appends the line once for each entry, so it is meant for one entry
that gets a new value (`filterLine_of_no_match`). Its pattern is made of the
name and the value as they are. The file is rewritten rightly if each of its
lines is no match, or is an entry of that one property in a line of its own
whose value the pattern takes whole, and the property's last entry is such a
line (`updateValues_rewritten`).

Key definitions: `Rewritten`, `Replaced`, `FileFits`, `Rewritable`.
Key theorems: `filterLine_of_no_match`, `rewrites_of_fits`, `updateValues_rewritten`.
-/
import Plethora.Config.ProtectedConfiguration

namespace Plethora

open PropertiesFile

/-! ### Bytes and characters have the same lines -/

theorem reads_latin1 : Reads (13 : UInt8) 10 '\r' '\n' latin1 where
  cr_cut a b := latin1_append a (13 :: b)
  lf_cut a b := latin1_append a (10 :: b)
  cr_of_mem := mem_latin1 (x := 13)
  lf_of_mem := mem_latin1 (x := 10)
  eq_nil := List.map_eq_nil_iff

theorem reads_decode : Reads (13 : UInt8) 10 '\r' '\n' Utf8.decode where
  cr_cut a b := Utf8.decode_append_cons (by decide) a b
  lf_cut a b := Utf8.decode_append_cons (by decide) a b
  cr_of_mem := fun {a} h => by
    obtain ⟨x, hx, he⟩ := Utf8.byte_of_mem_decode (by decide) h
    rwa [← UInt8.toNat_inj.mp (show x.toNat = (13 : UInt8).toNat from he)]
  lf_of_mem := fun {a} h => by
    obtain ⟨x, hx, he⟩ := Utf8.byte_of_mem_decode (by decide) h
    rwa [← UInt8.toNat_inj.mp (show x.toNat = (10 : UInt8).toNat from he)]
  eq_nil := fun {a} => by cases a <;> simp [Utf8.decode, Utf8.go]

/-- The characters the bytes of a text are loaded as. -/
def reloaded (t : Text) : Text := latin1 (Utf8.encode t)

theorem reloaded_append (s t : Text) : reloaded (s ++ t) = reloaded s ++ reloaded t := by
  rw [reloaded, Utf8.encode_append, latin1_append]
  rfl

theorem reads_reloaded : Reads '\r' '\n' '\r' '\n' reloaded where
  cr_cut a b := reloaded_append a ('\r' :: b)
  lf_cut a b := reloaded_append a ('\n' :: b)
  cr_of_mem := fun h => Utf8.mem_of_mem_latin1_encode (by decide) h
  lf_of_mem := fun h => Utf8.mem_of_mem_latin1_encode (by decide) h
  eq_nil := fun {a} => by
    cases a with
    | nil => exact iff_of_true rfl rfl
    | cons c t =>
      refine iff_of_false (fun h => ?_) nofun
      rw [reloaded, Utf8.encode_cons, latin1_append, List.append_eq_nil_iff] at h
      exact String.utf8EncodeChar_ne_nil (List.map_eq_nil_iff.mp h.1)

namespace ProtectedConfiguration

variable {ρ κ : Type} {C : ProtectedConfiguration ρ}

/-! ### One line -/

/-- A line that no entry's pattern matches stands there once for each entry. -/
theorem filterLine_of_no_match {originalValues updatedValues : List (Text × Text)} {line : Text}
    (h : ∀ e ∈ originalValues, ∃ p, C.regex.compile (patternOf e.1 e.2) = some p ∧ C.regex.find p line = []) :
    C.filterLine originalValues updatedValues line =
      .ok (List.replicate originalValues.length line).flatten := by
  have hperm := C.hashOrder_perm originalValues
  have run : ∀ (l : List (Text × Text)) (result : Text), (∀ e ∈ l, e ∈ originalValues) →
      l.foldlM (fun result entry => do pure (result ++ (← C.filterEntry updatedValues line entry))) result =
        Except.ok (result ++ (List.replicate l.length line).flatten) := by
    intro l
    induction l with
    | nil =>
      intro result _
      rw [List.foldlM_nil, List.length_nil, List.replicate_zero, List.flatten_nil, List.append_nil]
      rfl
    | cons e l ih =>
      intro result hl
      obtain ⟨p, hp, hf⟩ := h e (hl e (List.mem_cons_self ..))
      have he : C.filterEntry updatedValues line e = .ok line := by
        rw [filterEntry, hp]
        show (Regex.replaceMatches line _ 0 (C.regex.find p line)).mapError _ = _
        rw [hf]
        rfl
      rw [List.foldlM_cons, he]
      show l.foldlM _ (result ++ line) = _
      rw [ih (result ++ line) fun e he => hl e (List.mem_cons_of_mem _ he), List.length_cons, List.replicate_succ,
        List.flatten_cons, List.append_assoc]
  rw [filterLine, run _ [] fun e he => hperm.mem_iff.mp he, hperm.length_eq, List.nil_append]

/-- With one entry the result is what that entry's pattern makes of the line. -/
theorem filterLine_single (C : ProtectedConfiguration ρ) (e : Text × Text) (updatedValues : List (Text × Text))
    (line : Text) : C.filterLine [e] updatedValues line = C.filterEntry updatedValues line e := by
  rw [filterLine, List.perm_singleton.mp (C.hashOrder_perm [e]), List.foldlM_cons]
  cases C.filterEntry updatedValues line e <;> rfl

/-- The pattern takes the line as a whole, in three groups, and the line is an
entry of the property by itself: `q` is the quote before its value, and `g'`
what is after it. -/
def Replaced (C : ProtectedConfiguration ρ) (pattern : ρ) (name q g' : Text) (b : List UInt8) : Prop :=
  ∃ m g w v, C.regex.find pattern (Utf8.decode b) = [m] ∧ m.start = 0 ∧ m.stop = (Utf8.decode b).length ∧
    m.group 1 = .ok (some g) ∧ m.group 3 = .ok (some g') ∧ Utf8.decode b = g ++ (w ++ g') ∧
    '\\' ∉ g ∧ '$' ∉ g ∧ Opens name q (reloaded g) ∧ Sets name v (latin1 b)

/-- A quote at most. -/
def Quote (q : Text) : Prop := q = [] ∨ q = ['"']

/-- A quote or blanks. -/
def Trailing (t : Text) : Prop := ∀ c ∈ t, c = '"' ∨ isBlank c = true

theorem trailing_of_quote {q : Text} : Quote q → Trailing q
  | Or.inl h => by
    subst h
    exact nofun
  | Or.inr h => by
    subst h
    exact fun c hc => Or.inl (List.mem_singleton.mp hc)

theorem trailing_plain {t : Text} (h : Trailing t) :
    (∀ c ∈ t, c.toNat < 0x80) ∧ '\\' ∉ t ∧ '$' ∉ t ∧ Clean '\r' '\n' t := by
  have key : ∀ c ∈ t, c = '"' ∨ c = ' ' ∨ c = '\t' ∨ c = '\x0c' := by
    intro c hc
    have := h c hc
    simp only [isBlank, Bool.or_eq_true, decide_eq_true_eq] at this
    tauto
  refine ⟨fun c hc => ?_, fun hc => ?_, fun hc => ?_, fun hc => ?_, fun hc => ?_⟩
  · rcases key c hc with rfl | rfl | rfl | rfl <;> decide
  all_goals exact absurd (key _ hc) (by decide)

theorem encoded_plain {u : Text} (h : Encoded u) :
    (∀ c ∈ u, c.toNat < 0x80) ∧ '\\' ∉ u ∧ '$' ∉ u ∧ Clean '\r' '\n' u := by
  obtain ⟨-, -, hu⟩ := h
  have out : ∀ {d : Char}, d.toNat < 43 → d ∉ u := fun hd hm => by
    have := (base64_plain (hu _ hm)).1
    omega
  exact ⟨fun c hc => by have := (base64_plain (hu c hc)).2.1; omega, fun hm => (base64_plain (hu _ hm)).2.2.2 rfl,
    out (by decide), out (by decide), out (by decide)⟩

/-- The new element is one that no separator goes on in. -/
theorem encoded_head {u : Text} (h : Encoded u) (t : Text) : Plain (u ++ t) := by
  obtain ⟨hne, hhead, hu⟩ := h
  cases u with
  | nil => exact absurd rfl hne
  | cons d u =>
    intro c hc
    obtain rfl : d = c := Option.some.inj hc
    have hd := base64_plain (hu d (List.mem_cons_self ..))
    refine ⟨?_, fun he => hhead (he ▸ rfl), hd.2.2.1⟩
    have out : ∀ e : Char, e.toNat < 43 → d ≠ e := by
      rintro e he rfl
      omega
    rw [isBlank, decide_eq_false (out _ (by decide)), decide_eq_false (out _ (by decide)),
      decide_eq_false (out _ (by decide))]
    rfl

theorem reloaded_of_ascii {t : Text} (h : ∀ c ∈ t, c.toNat < 0x80) : reloaded t = t := Utf8.latin1_encode h

/-- A line the pattern takes whole stays an entry of the property, with the new
value in it. -/
theorem filterEntry_of_replaced {pattern : ρ} {name value u q g' : Text} {b : List UInt8} (hu : Encoded u)
    (hc : C.regex.compile (patternOf name value) = some pattern) (h : Replaced C pattern name q g' b)
    (hq : Quote q) (hg' : Trailing g') (hb : Clean (13 : UInt8) 10 b) :
    ∃ r, C.filterEntry [(name, u)] (Utf8.decode b) (name, value) = .ok r ∧ Clean '\r' '\n' r ∧
      Sets name (q ++ (u ++ g')) (reloaded r) := by
  obtain ⟨m, g, w, v, hf, h0, h1, hg1, hg3, hd, hb1, hb2, ho, -⟩ := h
  obtain ⟨ha, hbs, hds, hcl⟩ := trailing_plain hg'
  obtain ⟨ha', hbs', hds', hcl'⟩ := encoded_plain hu
  have hr : replacement ([(name, u)].lookup name) m = .ok (g ++ (u ++ g')) := by
    rw [replacement, hg1, hg3, List.lookup_cons, beq_self_eq_true]
    rfl
  have hmem : ∀ {d : Char}, d ∉ g → d ∉ u → d ∉ g' → d ∉ g ++ (u ++ g') := by
    intro d h1 h2 h3
    simp only [List.mem_append, not_or]
    exact ⟨h1, h2, h3⟩
  refine ⟨g ++ (u ++ g'), ?_, ?_, ?_⟩
  · rw [filterEntry, hc]
    show (Regex.replaceMatches _ _ 0 (C.regex.find pattern _)).mapError _ = _
    rw [hf, Regex.replaceMatches_whole h0 h1 hr (hmem hb1 hbs' hbs) (hmem hb2 hds' hds)]
    rfl
  · have hline := reads_decode.clean hb
    rw [hd, clean_append] at hline
    exact clean_append.mpr ⟨hline.1, clean_append.mpr ⟨hcl', hcl⟩⟩
  · have hascii : ∀ c ∈ u ++ g', c.toNat < 0x80 := fun c hc => (List.mem_append.mp hc).elim (ha' c) (ha c)
    rw [reloaded_append, reloaded_of_ascii hascii]
    refine sets_append ho (encoded_head hu g') (fun he => hu.1 (List.append_eq_nil_iff.mp he).1) ?_
    have hqb : '\\' ∉ q := (trailing_plain (trailing_of_quote hq)).2.1
    simp only [List.mem_append, not_or]
    exact ⟨hqb, hbs', hbs⟩

/-! ### The whole file -/

/-- The lines of a file, from what of a logical line is read before them: one
the pattern does not match and that is UTF-8, a comment it does not match, or
an entry of the property it takes whole. -/
inductive FileFits (C : ProtectedConfiguration ρ) (pattern : ρ) (name : Text) : Option Text → List (List UInt8) → Prop
  | nil (pending) : FileFits C pattern name pending []
  | same {pending b bs} : C.regex.find pattern (Utf8.decode b) = [] → Utf8.encode (Utf8.decode b) = b →
      FileFits C pattern name (step pending (latin1 b)).1 bs → FileFits C pattern name pending (b :: bs)
  | comment {b bs} : C.regex.find pattern (Utf8.decode b) = [] → skipped (latin1 b) = true →
      FileFits C pattern name none bs → FileFits C pattern name none (b :: bs)
  | entry {b bs q g'} : Replaced C pattern name q g' b → Quote q → Trailing g' → FileFits C pattern name none bs →
      FileFits C pattern name none (b :: bs)

/-- A comment is one whatever its bytes are in UTF-8: it starts with ASCII
characters. -/
theorem skipped_reloaded : ∀ {b : List UInt8}, skipped (latin1 b) = true → skipped (reloaded (Utf8.decode b)) = true
  | [], _ => rfl
  | x :: b, h => by
    have hx : x.toNat < 0x80 := by
      by_contra hx
      have ne : ∀ d : Char, d.toNat < 0x80 → Char.ofNat x.toNat ≠ d := by
        rintro d hd rfl
        rw [toNat_ofNat_byte] at hd
        omega
      have hblank : isBlank (Char.ofNat x.toNat) = false := by
        rw [isBlank, decide_eq_false (ne ' ' (by decide)), decide_eq_false (ne '\t' (by decide)),
          decide_eq_false (ne '\x0c' (by decide))]
        rfl
      rw [latin1_cons, skipped, trimStart, List.dropWhile_cons, hblank] at h
      simp only [Bool.false_eq_true, if_false, Bool.or_eq_true, decide_eq_true_eq] at h
      exact h.elim (ne '#' (by decide)) (ne '!' (by decide))
    have hc : reloaded (Utf8.decode (x :: b)) = Char.ofNat x.toNat :: reloaded (Utf8.decode b) := by
      have h1 : reloaded [Char.ofNat x.toNat] = [Char.ofNat x.toNat] := reloaded_of_ascii fun c hc => by
        rw [List.mem_singleton.mp hc, toNat_ofNat_byte]
        exact hx
      rw [Utf8.decode_cons hx, ← List.singleton_append, reloaded_append, h1]
      rfl
    rw [hc]
    rw [latin1_cons] at h
    unfold skipped trimStart at h ⊢
    rw [List.dropWhile_cons] at h ⊢
    by_cases hb : isBlank (Char.ofNat x.toNat) = true
    · rw [if_pos hb] at h ⊢
      exact skipped_reloaded h
    · rw [if_neg hb] at h ⊢
      exact h

/-- A line without a match stays. -/
theorem filterEntry_of_no_match {pattern : ρ} {e : Text × Text} {line : Text} {updatedValues : List (Text × Text)}
    (hc : C.regex.compile (patternOf e.1 e.2) = some pattern) (hf : C.regex.find pattern line = []) :
    C.filterEntry updatedValues line e = .ok line := by
  rw [filterEntry, hc]
  show (Regex.replaceMatches line _ 0 (C.regex.find pattern line)).mapError _ = _
  rw [hf]
  rfl

theorem mapM_append_ok {α β ε : Type} {f : α → Except ε β} {l l' : List α} {rs rs' : List β} (h : l.mapM f = .ok rs)
    (h' : l'.mapM f = .ok rs') : (l ++ l').mapM f = .ok (rs ++ rs') := by
  rw [List.mapM_append, h, h']
  rfl

theorem mapM_cons_ok {α β ε : Type} {f : α → Except ε β} {a : α} {l : List α} {r : β} {rs : List β} (ha : f a = .ok r)
    (hl : l.mapM f = .ok rs) : (a :: l).mapM f = .ok (r :: rs) := by
  rw [List.mapM_cons, ha, hl]
  rfl

/-- The filtered lines of a fitting file rewrite the file's lines. -/
theorem rewrites_of_fits {pattern : ρ} {name value u : Text} {pending : Option Text} {bs : List (List UInt8)}
    (hu : Encoded u) (hc : C.regex.compile (patternOf name value) = some pattern) (h : FileFits C pattern name pending bs)
    (hb : ∀ b ∈ bs, Clean (13 : UInt8) 10 b) :
    ∃ rs, (bs.map Utf8.decode).mapM (C.filterLine [(name, value)] [(name, u)]) = .ok rs ∧
      (∀ r ∈ rs, Clean '\r' '\n' r) ∧ Rewrites name pending (bs.map latin1) (rs.map reloaded) := by
  -- one line, then the rest of the file
  have cons : ∀ {b bs r pending pending'}, C.filterEntry [(name, u)] (Utf8.decode b) (name, value) = .ok r →
      Clean '\r' '\n' r →
      (∃ rs, (bs.map Utf8.decode).mapM (C.filterLine [(name, value)] [(name, u)]) = .ok rs ∧
        (∀ r ∈ rs, Clean '\r' '\n' r) ∧ Rewrites name pending' (bs.map latin1) (rs.map reloaded)) →
      (∀ {rs}, Rewrites name pending' (bs.map latin1) rs → Rewrites name pending (latin1 b :: bs.map latin1) (reloaded r :: rs)) →
      ∃ rs, ((b :: bs).map Utf8.decode).mapM (C.filterLine [(name, value)] [(name, u)]) = .ok rs ∧
        (∀ r ∈ rs, Clean '\r' '\n' r) ∧ Rewrites name pending ((b :: bs).map latin1) (rs.map reloaded) := by
    rintro b bs r pending pending' hr hcl ⟨rs, hrs, hcls, hrw⟩ hstep
    refine ⟨r :: rs, ?_, fun t ht => ?_, hstep hrw⟩
    · rw [List.map_cons]
      exact mapM_cons_ok ((filterLine_single ..).trans hr) hrs
    · rcases List.mem_cons.mp ht with rfl | ht
      · exact hcl
      · exact hcls t ht
  induction h with
  | nil pending => exact ⟨[], rfl, nofun, Rewrites.nil pending⟩
  | @same pending b bs hf henc _ ih =>
    have ih := ih fun b hb' => hb b (List.mem_cons_of_mem _ hb')
    refine cons (filterEntry_of_no_match hc hf) (reads_decode.clean (hb b (List.mem_cons_self ..))) ih fun hrw => ?_
    rw [reloaded, henc]
    exact Rewrites.same hrw
  | @comment b bs hf hs _ ih =>
    have ih := ih fun b hb' => hb b (List.mem_cons_of_mem _ hb')
    exact cons (filterEntry_of_no_match hc hf) (reads_decode.clean (hb b (List.mem_cons_self ..))) ih
      (Rewrites.comment hs (skipped_reloaded hs))
  | @entry b bs q g' hr hq hg' _ ih =>
    have ih := ih fun b hb' => hb b (List.mem_cons_of_mem _ hb')
    obtain ⟨r, hfe, hcl, hsets⟩ := filterEntry_of_replaced hu hc hr hq hg' (hb b (List.mem_cons_self ..))
    obtain ⟨m, g, w, v, -, -, -, -, -, -, -, -, -, hold⟩ := hr
    exact cons hfe hcl ih (Rewrites.entry hold hsets)

/-! ### A call for one property -/

/-- The property gets a new value. -/
def NewlyProtected (C : ProtectedConfiguration ρ) (P : Protector κ) (name value : Text) : Prop :=
  C.protectedPropMarker <+: name ∧ isProtectedValue P value = .ok false

/-- The text is one the value can be read from, but for a quote on either side. -/
def Unlocks (P : Protector κ) (key : κ) (t value : Text) : Prop :=
  ∃ q u q', t = q ++ (u ++ q') ∧ Quote q ∧ Quote q' ∧ P.plainValue key (some u) = .ok value

/-- The text loads as a table of the same names, in which a property that got a
new value has one that unlocks to the old, and every other has its own. -/
def Rewritten (C : ProtectedConfiguration ρ) (P : Protector κ) (key : κ) (T : Properties) (text : Text) : Prop :=
  ∃ T', loadProperties (Utf8.encode text) = .ok T' ∧
    (∀ name, name ∈ T'.stringPropertyNames ↔ name ∈ T.stringPropertyNames) ∧
    ∀ name value, T.getProperty name = some value →
      (NewlyProtected C P name value → ∃ t, T'.getProperty name = some t ∧ Unlocks P key t value) ∧
      (¬ NewlyProtected C P name value → T'.getProperty name = some value)

/-- The file has one property to protect, and its lines suit the filter. -/
structure Rewritable (C : ProtectedConfiguration ρ) (P : Protector κ) (key : κ) (bytes : List UInt8) (T : Properties)
    (name value : Text) : Prop where
  /-- the property is the only one -/
  found : T.getProperty name = some value
  newly : NewlyProtected C P name value
  only : ∀ name' value', T.getProperty name' = some value' → C.protectedPropMarker <+: name' → name' ≠ name →
    isProtectedValue P value' = .ok true
  /-- its value is not taken for a name -/
  unmarked : ¬ C.protectedPropMarker <+: value
  succeeds : ∃ u, P.protectedValue key value = .ok u
  /-- the lines suit the pattern, and the property's last one is replaced -/
  fits : ∃ pattern before b after q q', C.regex.compile (patternOf name value) = some pattern ∧
    lines 13 10 bytes = before ++ b :: after ∧ FileFits C pattern name none before ∧
    pendingAfter none (before.map latin1) = none ∧ Replaced C pattern name q q' b ∧ Quote q ∧ Quote q' ∧
    FileFits C pattern name none after ∧
    ∀ es, (gather none (after.map latin1)).mapM readEntry = some es → name ∉ es.map (·.1)

/-- One entry gets a new value, if one does. -/
theorem updatesOf_single {P : Protector κ} {key : κ} {rest value u : Text} (hu : C.newValue P key value = .ok (some u)) :
    ∀ {l : List (Text × Text)}, (rest, value) ∈ l → (l.map (·.1)).Nodup →
      (∀ e ∈ l, e.1 ≠ rest → isProtectedValue P e.2 = .ok true) →
      C.updatesOf P key l = .ok [(C.protectedPropMarker ++ rest, value, u)]
  | [], h, _, _ => by cases h
  | (r, v) :: l, h, hn, hothers => by
    rw [List.map_cons, List.nodup_cons] at hn
    by_cases hr : r = rest
    · subst hr
      have hval : v = value := by
        rcases List.mem_cons.mp h with h | h
        · cases h
          rfl
        · exact absurd (List.mem_map_of_mem h) hn.1
      subst hval
      have hnone : C.updatesOf P key l = .ok [] := by
        have hl : ∀ e ∈ l, isProtectedValue P e.2 = .ok true := fun e he =>
          hothers e (List.mem_cons_of_mem _ he) fun heq => hn.1 (List.mem_map.mpr ⟨e, he, heq⟩)
        clear h hn hothers
        induction l with
        | nil => rfl
        | cons e l ih =>
          rw [updatesOf, newValue, hl e (List.mem_cons_self ..)]
          exact ih fun e he => hl e (List.mem_cons_of_mem _ he)
      rw [updatesOf, hu, hnone]
      rfl
    · have hin : (rest, value) ∈ l := (List.mem_cons.mp h).resolve_left fun he => hr (Prod.mk.inj he).1.symm
      rw [updatesOf, newValue, hothers _ (List.mem_cons_self ..) hr]
      exact updatesOf_single hu hin hn.2 fun e he => hothers e (List.mem_cons_of_mem _ he)

/-- The loop finds the one entry. -/
theorem updatesOf_newly {P : Protector κ} {key : κ} {T : Properties} {rest value u : Text}
    (hfound : T.getProperty (C.protectedPropMarker ++ rest) = some value) (hnew : isProtectedValue P value = .ok false)
    (honly : ∀ name' value', T.getProperty name' = some value' → C.protectedPropMarker <+: name' →
      name' ≠ C.protectedPropMarker ++ rest → isProtectedValue P value' = .ok true)
    (hunm : ¬ C.protectedPropMarker <+: value) (hu : P.protectedValue key value = .ok u) :
    C.updatesOf P key (C.protectedProperties T) = .ok [(C.protectedPropMarker ++ rest, value, u)] := by
  have hval : C.newValue P key value = .ok (some u) := by
    have hm : ¬ C.isProtectedProperty value = true := fun h => hunm (isProtectedProperty_iff.mp h)
    rw [newValue, hnew]
    show (if C.isProtectedProperty value = true then _ else _) = _
    rw [if_neg hm, hu]
    rfl
  refine updatesOf_single hval (mem_protectedProperties.mpr hfound) (nodup_getValuesStartingWith C.hashOrder_perm T _)
    fun e he hne => ?_
  exact honly _ _ (mem_protectedProperties.mp he) ⟨e.1, rfl⟩ fun h => hne (List.append_cancel_left h)

/-- With one update the filtered lines are what is written. -/
theorem updateValues_single {P : Protector κ} {key key' : κ} {bytes : List UInt8} {T : Properties} {name value u : Text}
    {rs : List Text} (hfile : C.propertyFile = some bytes) (hk : C.keyed P key T = .ok key')
    (hus : C.updatesOf P key' (C.protectedProperties T) = .ok [(name, value, u)])
    (hfilter : (lines '\r' '\n' (Utf8.decode bytes)).mapM (C.filterLine [(name, value)] [(name, u)]) = .ok rs) :
    C.updateValues P key T = .ok ⟨key', T.setProperty name u, some (join '\n' rs)⟩ := by
  rw [updateValues_eq, hk]
  show (C.updatesOf P key' (C.protectedProperties T) >>= _) = _
  rw [hus]
  show (C.getUpdatedProperties _ _ >>= _) = _
  rw [getUpdatedProperties, hfile]
  show ((_ >>= fun filtered => pure (some (join '\n' filtered))) >>= _) = _
  rw [List.map_cons, List.map_cons, List.map_nil, List.map_nil, hfilter]
  rfl

/-- What was loaded are the entries of its bytes. -/
theorem load_of_loadProperties {bytes : List UInt8} {T : Properties} (hT : loadProperties bytes = .ok T) :
    ∃ es, load (latin1 bytes) = some es ∧ Properties.ofEntries es = T := by
  unfold loadProperties at hT
  cases hes : load (latin1 bytes) with
  | none =>
    rw [hes] at hT
    cases hT
  | some es =>
    rw [hes] at hT
    exact ⟨es, rfl, Except.ok.inj hT⟩

/-- **A file with one property to protect whose lines suit the filter is
rewritten rightly.** -/
theorem updateValues_rewritten {P : Protector κ} (hP : P.Lawful) {key key' : κ} {bytes : List UInt8} {T : Properties}
    {name value : Text} (hfile : C.propertyFile = some bytes) (hT : loadProperties bytes = .ok T)
    (hk : C.keyed P key T = .ok key') (h : Rewritable C P key' bytes T name value) :
    ∃ r text, C.updateValues P key T = .ok r ∧ r.handed = some text ∧ Rewritten C P key' T text := by
  obtain ⟨hfound, ⟨⟨rest, rfl⟩, hnew⟩, honly, hunm, ⟨u, hu⟩, hfits⟩ := h
  obtain ⟨pattern, before, b, after, q, q', hc, hlines, hbefore, hpend, hb, hq, hq', hafter, hlast⟩ := hfits
  have henc : Encoded u := hP.encoded hu
  have hus := updatesOf_newly hfound hnew honly hunm hu
  -- the filtered lines
  have hclean := lines_clean (by decide : (13 : UInt8) ≠ 10) bytes
  rw [hlines] at hclean
  obtain ⟨rs, hrs, hrsc, hrw⟩ := rewrites_of_fits henc hc hbefore fun l hl => hclean l (List.mem_append_left _ hl)
  obtain ⟨rs', hrs', hrsc', hrw'⟩ := rewrites_of_fits henc hc hafter fun l hl =>
    hclean l (List.mem_append_right _ (List.mem_cons_of_mem _ hl))
  obtain ⟨r, hr, hrc, hsets⟩ := filterEntry_of_replaced henc hc hb hq (trailing_of_quote hq')
    (hclean b (List.mem_append_right _ (List.mem_cons_self ..)))
  have hfilter : (lines '\r' '\n' (Utf8.decode bytes)).mapM
      (C.filterLine [(C.protectedPropMarker ++ rest, value)] [(C.protectedPropMarker ++ rest, u)]) =
        .ok (rs ++ r :: rs') := by
    rw [lines_read reads_decode (by decide) (by decide), hlines, List.map_append, List.map_cons]
    exact mapM_append_ok hrs (mapM_cons_ok ((filterLine_single ..).trans hr) hrs')
  refine ⟨_, join '\n' (rs ++ r :: rs'), updateValues_single hfile hk hus hfilter, rfl, ?_⟩
  -- what they load as
  obtain ⟨es, hes, rfl⟩ := load_of_loadProperties hT
  have hold : lines '\r' '\n' (latin1 bytes) = before.map latin1 ++ latin1 b :: after.map latin1 := by
    rw [lines_read reads_latin1 (by decide) (by decide), hlines, List.map_append, List.map_cons]
  have hrsall : ∀ l ∈ rs ++ r :: rs', Clean '\r' '\n' l := by
    intro l hl
    rcases List.mem_append.mp hl with hl | hl
    · exact hrsc l hl
    · rcases List.mem_cons.mp hl with rfl | hl
      · exact hrc
      · exact hrsc' l hl
  have hnewl : lines '\r' '\n' (reloaded (join '\n' (rs ++ r :: rs'))) =
      rs.map reloaded ++ reloaded r :: rs'.map reloaded := by
    rw [lines_read reads_reloaded (by decide) (by decide), lines_join hrsall, List.map_append, List.map_cons]
  obtain ⟨-, -, -, v, -, -, -, -, -, -, -, -, -, hbsets⟩ := hb
  obtain ⟨es', hes', hkeys, hk', hsame⟩ := load_rewritten hes hold hnewl hrw hpend hbsets hsets hrw' hlast
  refine ⟨Properties.ofEntries es', ?_, fun name => ?_, fun name old hv => ⟨fun hn => ?_, fun hn => ?_⟩⟩
  · unfold loadProperties
    rw [show load (latin1 (Utf8.encode (join '\n' (rs ++ r :: rs')))) = some es' from hes']
  · rw [Properties.mem_names_ofEntries, Properties.mem_names_ofEntries, hkeys]
  · have hname : name = C.protectedPropMarker ++ rest := by
      by_contra hne
      have hold := hn.2
      rw [honly name old hv hn.1 hne] at hold
      cases hold
    subst hname
    rw [hfound] at hv
    cases hv
    exact ⟨q ++ (u ++ q'), (Properties.getProperty_ofEntries es' _).trans hk', q, u, q', rfl, hq, hq', hP.plainValue hu⟩
  · have hname : name ≠ C.protectedPropMarker ++ rest := by
      rintro rfl
      rw [hfound] at hv
      cases hv
      exact hn ⟨⟨rest, rfl⟩, hnew⟩
    rw [Properties.getProperty_ofEntries, hsame name hname, ← Properties.getProperty_ofEntries]
    exact hv

/-! ### Patterns of plain names and values -/

/-- What a pattern of an entry is made of, if its name and value are letters,
digits and dots; a mark is where a group starts or ends. -/
inductive Piece
  | one (p : Char → Bool)
  | many (p : Char → Bool)
  | maybe (c : Char)
  | mark
  | finish

def isSpace (c : Char) : Bool := isBlank c || c = '\n' || c = '\x0b' || c = '\r'

def pieces : Text → Option (List Piece)
  | [] => some []
  | '(' :: s => (pieces s).map (.mark :: ·)
  | ')' :: s => (pieces s).map (.mark :: ·)
  | '^' :: s => pieces s
  | '$' :: s => (pieces s).map (.finish :: ·)
  | '.' :: s => (pieces s).map (.one (fun c => c ≠ '\n' && c ≠ '\r') :: ·)
  | '\\' :: 's' :: '*' :: s => (pieces s).map (.many isSpace :: ·)
  | '[' :: '=' :: ':' :: ' ' :: ']' :: s => (pieces s).map (.one (fun c => c = '=' || c = ':' || c = ' ') :: ·)
  | '"' :: '?' :: s => (pieces s).map (.maybe '"' :: ·)
  | c :: s => if c.isAlphanum then (pieces s).map (.one (· = c) :: ·) else none

/-- As many characters as the rest of the pattern leaves. -/
def star (p : Char → Bool) (rest : Text → Option (List Text)) : Text → Option (List Text)
  | [] => rest []
  | c :: s => if p c then (star p rest s).or (rest (c :: s)) else rest (c :: s)

/-- What is left of the text at each mark, if the pattern matches it. -/
def marks : List Piece → Text → Option (List Text)
  | [], _ => some []
  | .one p :: ps, s =>
    match s with
    | [] => none
    | c :: t => if p c then marks ps t else none
  | .many p :: ps, s => star p (marks ps) s
  | .maybe q :: ps, s =>
    match s with
    | [] => marks ps []
    | c :: t => if c = q then (marks ps t).or (marks ps s) else marks ps s
  | .mark :: ps, s => (marks ps s).map (s :: ·)
  | .finish :: ps, s => if s = [] then marks ps s else none

def between (s t : Text) : Text := s.take (s.length - t.length)

/-- The patterns match at the start of a line and at its end, so once at most. -/
def plainPatterns : Regex.Engine (List Piece) where
  compile := pieces
  find ps line :=
    match marks ps line with
    | some [a, b, c, d, e, f] =>
      [⟨0, line.length, [some line, some (between a b), some (between c d), some (between e f)], []⟩]
    | _ => []

/-- A configuration with a property file. -/
def withFile (text : Text) : ProtectedConfiguration (List Piece) where
  protectedPropMarker := MARKER
  keyFilePropertyName := none
  regex := plainPatterns
  hashOrder := id
  hashOrder_perm := id_perm
  canRead _ := false
  propertyFile := some (Utf8.encode text)
  fileWrite _ := none

/-- A comment, one property to protect, and one without the marker. -/
def fileOne : Text := ['#', '\n'] ++ (MARKER ++ ['x', '=', 'y', '\n', 'c', '=', 'z', '\n'])

def tableOne : Properties := ⟨[(MARKER ++ ['x'], ['y']), (['c'], ['z'])], by decide⟩

theorem fileOne_rewritable :
    Rewritable (withFile fileOne) tagging () (Utf8.encode fileOne) tableOne (MARKER ++ ['x']) ['y'] where
  found := by decide
  newly := ⟨by decide, rfl⟩
  only := fun name' value' h hm hne => by
    have hmem := Properties.mem_entries_iff.mpr h
    simp only [tableOne, List.mem_cons, Prod.mk.injEq, List.not_mem_nil, or_false] at hmem
    rcases hmem with ⟨rfl, -⟩ | ⟨rfl, -⟩
    · exact absurd rfl hne
    · exact absurd hm (by decide)
  unmarked := by decide
  succeeds := ⟨_, rfl⟩
  fits := by
    refine ⟨_, [Utf8.encode ['#']], Utf8.encode (MARKER ++ ['x', '=', 'y']), [Utf8.encode ['c', '=', 'z']], [], [], rfl,
      by decide, .comment rfl (by decide) (.nil none), rfl, ?_, Or.inl rfl, Or.inl rfl,
      .same rfl (by decide) (.nil _), fun es hes => ?_⟩
    · exact ⟨_, MARKER ++ ['x', '='], ['y'], ['y'], rfl, rfl, rfl, rfl, rfl, by decide, by decide, by decide, by
        exact ⟨by decide, by decide, by decide, by decide⟩, by exact ⟨by decide, by decide, by decide⟩⟩
    · obtain rfl : [(['c'], ['z'])] = es := Option.some.inj hes
      decide

theorem updateValues_rewritten_fileOne :
    ∃ r text, (withFile fileOne).updateValues tagging () tableOne = .ok r ∧ r.handed = some text ∧
      Rewritten (withFile fileOne) tagging () tableOne text :=
  updateValues_rewritten tagging_lawful rfl (by decide) rfl fileOne_rewritable

/-- Two properties to protect, and one without the marker. -/
def fileTwo : Text := MARKER ++ (['a', '=', 'x', '\n'] ++ (MARKER ++ ['b', '=', 'y', '\n', 'c', '=', 'z', '\n']))

def tableTwo : Properties := ⟨[(MARKER ++ ['a'], ['x']), (MARKER ++ ['b'], ['y']), (['c'], ['z'])], by decide⟩

/-- What becomes of them: every line stands there twice. -/
def doubled : Text :=
  MARKER ++ (['a', '=', 'E', 'N', 'C', 'H', 'I'] ++ (MARKER ++ (['a', '=', 'x', '\n'] ++
    (MARKER ++ (['b', '=', 'y'] ++ (MARKER ++ ['b', '=', 'E', 'N', 'C', 'H', 'J', '\n', 'c', '=', 'z', 'c', '=', 'z', '\n']))))))

/-- The second property's filter writes the third's line again. -/
theorem fileTwo_doubled : loadProperties (Utf8.encode fileTwo) = .ok tableTwo ∧
    (∃ r, (withFile fileTwo).protectValues (some tagging) () tableTwo = .ok r ∧ r.handed = some doubled) ∧
    ¬ Rewritten (withFile fileTwo) tagging () tableTwo doubled := by
  refine ⟨by decide, ⟨_, rfl, by decide⟩, ?_⟩
  rintro ⟨T', hT', -, hvalues⟩
  have hc := (hvalues ['c'] ['z'] (by decide)).2 fun h => absurd h.1 (by decide)
  have hload : (loadProperties (Utf8.encode doubled)).toOption.bind (·.getProperty ['c']) = some ['z', 'c', '=', 'z'] := by
    decide
  rw [hT'] at hload
  exact absurd (hc.symm.trans hload) (by decide)

end ProtectedConfiguration

end Plethora
