/-
# The configuration of a C++ agent

`Channel::readConfig` goes over the characters of a file, with the beginning of
a line in `pline`, and gives each line that ends to `processLine`. What is
after the last end of a line is not read.

What the file says, `written`, and what is read, `Line.taken`, come apart in a
line that is not ended, that begins or ends with the delimiter, that has its
first one next to the last place, or that has no blank before it
(`taken_eq_written`). The first entry of a key counts, so such a line does no
harm where an earlier one has the key, or a later one makes up for it:
`readConfig_stores_iff`.

Key definitions: `Cpp.Channel.readConfig`, `Cpp.written`, `Cpp.Line.taken`,
`Cpp.Line.Misread`, `Cpp.MadeUp`, `Cpp.Stores`.
Key theorems: `readLoop_eq`, `readConfig_eq`, `readConfig_stores_iff`.
-/
import Plethora.Agents.CppLines

namespace Plethora

open Strip FirstWins

namespace Cpp

namespace Channel

open Autil

/-! ### Reading the file -/

/-- `readFile`: the buffer for a file has a NUL after it. -/
def readFile (contents : Text) : Block := contents ++ [nul]

/-- The variables of `readConfig`, and `props`. -/
structure ReadState where
  pline : Option ℕ := none
  linelength : ℕ := 0
  newline : Bool := true
  props : List (Text × Text) := []

/-- The end of a line; without a `pline` there is nothing to process. -/
def endLine (config : Block) (s : ReadState) : Option (List (Text × Text)) :=
  match s.pline with
  | some pline => processLine (config.drop pline) s.linelength ':' s.props
  | none => some s.props

/-- The loop of `readConfig`, at the character `c`. -/
def readChar (config : Block) (cursor : ℕ) (c : Char) (s : ReadState) : Option ReadState := do
  let s ←
    if c = '\n' then do
      let props ← endLine config s
      some { s with pline := none, newline := true, props }
    else if s.newline then
      if c ≠ '#' then some { s with newline := false, pline := some cursor, linelength := 0 }
      else some { s with newline := false }
    else some s
  some { s with linelength := s.linelength + 1 }

def readLoop (config : Block) : Text → (cursor : ℕ) → ReadState → Option ReadState
  | [], _, s => some s
  | c :: rest, cursor, s => do
    let s ← readChar config cursor c s
    readLoop config rest (cursor + 1) s

/-- The `props` after `readConfig`. -/
def readConfig (config : Block) : Option (List (Text × Text)) := do
  let text ← asString config
  let s ← readLoop config text 0 {}
  some s.props

end Channel

/-! ### The lines of a file -/

structure Line where
  text : Text
  /-- The line ends with an end of line, not with the file. -/
  terminated : Bool

def linesOf : Text → List Line
  | [] => [⟨[], false⟩]
  | c :: t =>
    if c = '\n' then ⟨[], true⟩ :: linesOf t else (linesOf t).modifyHead fun l => { l with text := c :: l.text }

/-- The entry that a line is for. -/
def written (l : Text) : Option (Text × Text) :=
  if l.head? ≠ some '#' ∧ ':' ∈ l.tail.dropLast then
    some (Autil.trimmed ((nameOf l).map Char.toLower), valueOf l)
  else none

namespace Line

variable (l : Line)

/-- The line is read: it has an end, is no comment and has its delimiter where
one is looked for. -/
def Read : Prop := l.terminated = true ∧ l.text.head? ≠ some '#' ∧ Examined l.text

instance : Decidable l.Read := inferInstanceAs (Decidable (_ ∧ _ ∧ _))

/-- The entry that is read. -/
def taken : Option (Text × Text) := if l.Read then some (cutKey l.text, valueOf l.text) else none

/-- The entry of the line is not read, or is read with its name cut. -/
def Misread : Prop :=
  (written l.text).isSome = true ∧
    (l.terminated = false ∨ l.text.head? = some ':' ∨ l.text.getLast? = some ':' ∨ ':' ∉ l.text.dropLast.dropLast ∨
      (nameOf l.text).getLast? ≠ some ' ')

instance : Decidable l.Misread := inferInstanceAs (Decidable (_ ∧ _))

/-- What reading a line does to the entries. -/
def read (props : List (Text × Text)) : Option (List (Text × Text)) :=
  if l.Read then (if Bare l.text then none else some (insert (cutKey l.text) (valueOf l.text) props)) else some props

end Line

theorem text_linesOf : ∀ t : Text, (linesOf t).map Line.text = t.splitOn '\n'
  | [] => rfl
  | c :: t => by
    have ih := text_linesOf t
    rw [List.splitOn_cons_eq_if_modifyHead, linesOf]
    by_cases hc : c = '\n'
    · rw [if_pos hc, if_pos (by simp [hc]), List.map_cons, ih]
    · rw [if_neg hc, if_neg (by simpa using hc), ← ih]
      cases linesOf t with
      | nil => rfl
      | cons l ls => rfl

/-- What reading lines does to the entries. -/
def readLines : List Line → List (Text × Text) → Option (List (Text × Text))
  | [], props => some props
  | l :: ls, props => (l.read props).bind (readLines ls)

section Loop

open Autil Channel

variable {config : Block} {start : ℕ} {s : ReadState}

/-- The variables after the part `x` of a line that begins at `start`. -/
def After (start : ℕ) : (x : Text) → ReadState → Prop
  | [], s => s.newline = true ∧ s.pline = none
  | c :: x, s =>
    s.newline = false ∧ if c = '#' then s.pline = none else s.pline = some start ∧ s.linelength = x.length + 1

theorem readChar_of_ne (config : Block) {x : Text} {c : Char} (hc : c ≠ '\n') (h : After start x s) :
    ∃ s', readChar config (start + x.length) c s = some s' ∧ s'.props = s.props ∧ After start (x ++ [c]) s' := by
  cases x with
  | nil =>
    obtain ⟨hnew, hpline⟩ := h
    by_cases hcomment : c = '#'
    · refine ⟨{ s with newline := false, linelength := s.linelength + 1 }, ?_, rfl, rfl, ?_⟩
      · simp [readChar, hnew, hcomment]
      · rw [if_pos hcomment]
        exact hpline
    · refine ⟨{ s with newline := false, pline := some start, linelength := 1 }, ?_, rfl, rfl, ?_⟩
      · simp [readChar, hnew, hc, hcomment]
      · rw [if_neg hcomment]
        exact ⟨rfl, rfl⟩
  | cons d x =>
    obtain ⟨hnew, hrest⟩ := h
    refine ⟨{ s with linelength := s.linelength + 1 }, by simp [readChar, hnew, hc], rfl, hnew, ?_⟩
    by_cases hcomment : d = '#'
    · rw [if_pos hcomment] at hrest ⊢
      exact hrest
    · rw [if_neg hcomment] at hrest ⊢
      exact ⟨hrest.1, by simp [hrest.2]⟩

theorem endLine_eq {x rest : Text} (hx : nul ∉ x) (h : After start x s) (hd : config.drop start = x ++ rest) :
    endLine config s = (Line.mk x true).read s.props := by
  cases x with
  | nil =>
    rw [endLine, h.2]
    rfl
  | cons c x =>
    obtain ⟨-, hrest⟩ := h
    by_cases hcomment : c = '#'
    · rw [if_pos hcomment] at hrest
      rw [endLine, hrest, Line.read, if_neg]
      rintro ⟨-, hne, -⟩
      exact hne (by rw [hcomment]; rfl)
    · rw [if_neg hcomment] at hrest
      have hread : (Line.mk (c :: x) true).Read ↔ Examined (c :: x) := by
        simp [Line.Read, hcomment]
      rw [endLine, hrest.1]
      show processLine (config.drop start) s.linelength ':' s.props = _
      rw [hd, hrest.2, ← List.length_cons, processLine_eq (List.cons_ne_nil c x) hx, Line.read]
      simp only [hread]

/-- At the end of a line it is processed. -/
theorem readChar_newline {x rest : Text} (hx : nul ∉ x) (h : After start x s) (hd : config.drop start = x ++ rest)
    (cursor : ℕ) : readChar config cursor '\n' s =
      ((Line.mk x true).read s.props).map fun props => ⟨none, s.linelength + 1, true, props⟩ := by
  rw [readChar, if_pos rfl, endLine_eq hx h hd]
  cases (Line.mk x true).read s.props with
  | none => rfl
  | some props => rfl

/-- The lines whose first one began with `x` already. -/
def after (x : Text) (ls : List Line) : List Line := ls.modifyHead fun l => { l with text := x ++ l.text }

theorem after_nil (ls : List Line) : after [] ls = ls := by
  cases ls with
  | nil => rfl
  | cons l ls => rfl

theorem after_linesOf_cons (x : Text) {c : Char} (hc : c ≠ '\n') (t : Text) :
    after x (linesOf (c :: t)) = after (x ++ [c]) (linesOf t) := by
  rw [linesOf, if_neg hc]
  cases linesOf t with
  | nil => rfl
  | cons l ls => simp [after]

/-- **The loop reads the lines**, from where it stands, with `x` of the current
one behind it. -/
theorem readLoop_eq (config post : Block) : ∀ (rest x : Text) (start : ℕ) {s : ReadState}, nul ∉ x ++ rest → After start x s →
    config.drop start = x ++ (rest ++ post) →
    (readLoop config rest (start + x.length) s).map ReadState.props = readLines (after x (linesOf rest)) s.props
  | [], _, _, _, _, _, _ => rfl
  | c :: rest, x, start, s, hn, h, hd => by
    by_cases hc : c = '\n'
    · subst hc
      have hnx : nul ∉ x := fun hm => hn (List.mem_append_left _ hm)
      have hnrest : nul ∉ rest := fun hm => hn (List.mem_append_right _ (List.mem_cons_of_mem _ hm))
      have hdrop : config.drop (start + x.length + 1) = rest ++ post := by
        rw [← List.drop_drop, ← List.drop_drop, hd, List.drop_left]
        rfl
      have hlines : after x (linesOf ('\n' :: rest)) = ⟨x, true⟩ :: linesOf rest := by
        rw [linesOf, if_pos rfl, after, List.modifyHead_cons, List.append_nil]
      rw [readLoop, readChar_newline hnx h hd, hlines, readLines]
      cases (Line.mk x true).read s.props with
      | none => rfl
      | some props =>
        have ih := readLoop_eq config post rest [] (start + x.length + 1)
          (s := ⟨none, s.linelength + 1, true, props⟩) hnrest ⟨rfl, rfl⟩ hdrop
        rw [after_nil] at ih
        exact ih
    · obtain ⟨s', hs, hprops, h'⟩ := readChar_of_ne config hc h
      have ih := readLoop_eq config post rest (x ++ [c]) start (by simpa using hn) h' (by simpa using hd)
      rw [List.length_append, List.length_singleton, ← Nat.add_assoc, hprops] at ih
      rw [readLoop, hs, after_linesOf_cons x hc, ← ih]
      rfl

theorem readLines_eq : ∀ (ls : List Line) (props : List (Text × Text)), readLines ls props =
    if ∃ l ∈ ls, l.Read ∧ Bare l.text then none
    else some ((ls.filterMap Line.taken).foldl (fun m e => insert e.1 e.2 m) props)
  | [], props => by simp [readLines]
  | l :: ls, props => by
    rw [readLines, Line.read]
    by_cases hr : l.Read
    · have htaken : l.taken = some (cutKey l.text, valueOf l.text) := if_pos hr
      rw [if_pos hr, List.filterMap_cons_some htaken, List.foldl_cons]
      by_cases hb : Bare l.text
      · rw [if_pos hb, if_pos ⟨l, List.mem_cons_self, hr, hb⟩]
        rfl
      · rw [if_neg hb, Option.bind_some, readLines_eq ls]
        simp [hr, hb]
    · have htaken : l.taken = none := if_neg hr
      rw [if_neg hr, List.filterMap_cons_none htaken, Option.bind_some, readLines_eq ls]
      simp [hr]

/-- **What `readConfig` reads**: the map of the entries of the lines, if none of
them has only blanks in its cut name. -/
theorem readConfig_eq {t : Text} (hn : nul ∉ t) : readConfig (readFile t) =
    if ∃ l ∈ linesOf t, l.Read ∧ Bare l.text then none else some (mapOf ((linesOf t).filterMap Line.taken)) := by
  have hloop := readLoop_eq (readFile t) [nul] t [] 0 (s := {}) hn ⟨rfl, rfl⟩ rfl
  rw [after_nil, readLines_eq, Option.map_eq_bind] at hloop
  rw [readConfig, readFile, asString_eq [] hn]
  exact hloop

end Loop

/-! ### What is read and what the file says -/

section Stored

open Autil Channel

theorem trimmed_append_white (t : Text) {c : Char} (hc : isWhite c = true) : trimmed (t ++ [c]) = trimmed t := by
  obtain ⟨l, r, he, hl, hr⟩ := strip_spec isWhite t
  have hr' : ∀ d ∈ r ++ [c], isWhite d = true := by
    rw [List.forall_mem_append, List.forall_mem_singleton]
    exact ⟨hr, hc⟩
  calc trimmed (t ++ [c]) = strip isWhite (l ++ (trimmed t ++ (r ++ [c]))) := by
        conv_lhs => rw [trimmed, he]
        simp only [List.append_assoc, trimmed]
    _ = trimmed t := strip_eq hl hr' (stripped_strip isWhite t)

/-- A line that is read has an entry. -/
theorem Line.Read.isSome_written {l : Line} (h : l.Read) : (written l.text).isSome = true := by
  obtain ⟨-, hcomment, hexam⟩ := h
  have hmem : ':' ∈ l.text.tail.dropLast := by
    have hm := List.mem_of_mem_dropLast hexam.2.2
    have hfirst := hexam.1
    cases ht : l.text with
    | nil =>
      rw [ht] at hm
      cases hm
    | cons c t =>
      rw [ht] at hm hfirst
      cases t with
      | nil => cases hm
      | cons d t =>
        rw [List.dropLast_cons_cons] at hm
        rcases List.mem_cons.mp hm with rfl | hm
        · exact absurd rfl hfirst
        · exact hm
  rw [written, if_pos ⟨hcomment, hmem⟩]
  rfl

/-- **A line is read as it is written** in a file, unless its shape is one of
those that are not. -/
theorem taken_eq_written {l : Line} (h : ¬ l.Misread) : l.taken = written l.text := by
  by_cases hw : (written l.text).isSome = true
  · have hshape := not_and.mp h hw
    simp only [not_or, not_not, ne_eq, Bool.not_eq_false] at hshape
    obtain ⟨hend, hfirst, hlast, hinner, hblank⟩ := hshape
    have hcond : l.text.head? ≠ some '#' ∧ ':' ∈ l.text.tail.dropLast := by
      by_contra hc
      rw [written, if_neg hc] at hw
      cases hw
    have hread : l.Read := ⟨hend, hcond.1, hfirst, hlast, hinner⟩
    obtain ⟨n, hn⟩ := List.getLast?_eq_some_iff.mp hblank
    have hkey : cutKey l.text = trimmed ((nameOf l.text).map Char.toLower) := by
      rw [cutKey, hn, List.dropLast_concat, List.map_append]
      exact (trimmed_append_white _ rfl).symm
    rw [Line.taken, if_pos hread, written, if_pos hcond, hkey]
  · have hread : ¬ l.Read := fun hr => hw hr.isSome_written
    rw [Line.taken, if_neg hread]
    rw [Bool.not_eq_true, Option.isSome_eq_false_iff, Option.isNone_iff_eq_none] at hw
    exact hw.symm

/-- The entries that a file has, in the order of its lines. -/
def declared (config : Text) : List (Text × Text) := (config.splitOn '\n').filterMap written

/-- The map has one entry for each key of the file, the first one. -/
structure Stores (config : Text) (props : List (Text × Text)) : Prop where
  nodup : (props.map (·.1)).Nodup
  lookup : ∀ key, props.lookup key = (declared config).lookup key

/-- The line makes no difference to what the keys of the file have: if no line
before it has its key, written or read, then the first entry for the key from
there on has the same value in the other way. -/
def MadeUp (before : List Line) (l : Line) (after : List Line) : Prop :=
  ∀ key, (∀ b ∈ before, ¬ Bears (fun l : Line => written l.text) key b ∧ ¬ Bears Line.taken key b) →
    (∀ value, written l.text = some (key, value) → ((l :: after).filterMap Line.taken).lookup key = some value) ∧
    ∀ value, l.taken = some (key, value) →
      ((l :: after).filterMap fun l => written l.text).lookup key = some value

theorem declared_eq (config : Text) : declared config = (linesOf config).filterMap fun l => written l.text := by
  rw [declared, ← text_linesOf, List.filterMap_map]
  rfl

/-- The two ways to read a file agree, but for lines that are not made up
for. -/
theorem lookup_taken_iff (config : Text) :
    (∀ key, ((linesOf config).filterMap Line.taken).lookup key = (declared config).lookup key) ↔
      ∀ before l after, linesOf config = before ++ l :: after → l.Misread → MadeUp before l after := by
  rw [declared_eq]
  constructor
  · intro h before l after he _ key hb
    exact lookup_eq_iff.mp (h key).symm before l after he hb
  · intro h key
    refine (lookup_eq_iff.mpr fun before l after he hb => ?_).symm
    by_cases hm : l.Misread
    · exact h before l after he hm key hb
    · have htaken := taken_eq_written hm
      refine ⟨fun v hv => lookup_cons_of_bears (htaken.trans hv) after, fun v hv => ?_⟩
      exact lookup_cons_of_bears (f := fun l : Line => written l.text) (htaken.symm.trans hv) after

theorem exists_stores_iff {config : Text} (hn : nul ∉ config) :
    (∃ props, readConfig (readFile config) = some props ∧ Stores config props) ↔
      (∀ l ∈ linesOf config, l.Read → ¬ Bare l.text) ∧
      ∀ key, ((linesOf config).filterMap Line.taken).lookup key = (declared config).lookup key := by
  have hinside : (∀ l ∈ linesOf config, l.Read → ¬ Bare l.text) ↔ ¬ ∃ l ∈ linesOf config, l.Read ∧ Bare l.text := by
    simp only [not_exists, not_and]
  rw [readConfig_eq hn, hinside]
  by_cases hbare : ∃ l ∈ linesOf config, l.Read ∧ Bare l.text
  · rw [if_pos hbare]
    simp [hbare]
  · rw [if_neg hbare]
    constructor
    · rintro ⟨props, hprops, hstores⟩
      cases hprops
      refine ⟨hbare, fun key => ?_⟩
      rw [← lookup_mapOf, hstores.lookup]
    · rintro ⟨-, hlookup⟩
      refine ⟨_, rfl, (sorted_mapOf _).nodup, fun key => ?_⟩
      rw [lookup_mapOf, hlookup]

/-- All that a file says is stored where every line with an entry ends, has a
blank before its delimiter, and does not have it at an end or next to it. -/
theorem exists_stores {config : Text} (hn : nul ∉ config) (hbare : ∀ l ∈ linesOf config, l.Read → ¬ Bare l.text)
    (hread : ∀ l ∈ linesOf config, ¬ l.Misread) :
    ∃ props, readConfig (readFile config) = some props ∧ Stores config props := by
  refine (exists_stores_iff hn).mpr ⟨hbare, fun key => ?_⟩
  rw [declared_eq, List.filterMap_congr fun l hl => taken_eq_written (hread l hl)]

/-- **What is stored**: one entry for each key of a file, exactly if no line has
only blanks in its cut name, and each line that is not read as it is written
is made up for. -/
theorem readConfig_stores_iff {config : Text} (hn : nul ∉ config) :
    (∃ props, readConfig (readFile config) = some props ∧ Stores config props) ↔
      (∀ l ∈ linesOf config, l.Read → ¬ Bare l.text) ∧
      ∀ before l after, linesOf config = before ++ l :: after → l.Misread → MadeUp before l after := by
  rw [exists_stores_iff hn, lookup_taken_iff]

theorem readConfig_stores_foo :
    ∃ props, readConfig (readFile "foo : bar\n".toList) = some props ∧ Stores "foo : bar\n".toList props := by
  refine (readConfig_stores_iff (by decide)).mpr ⟨by decide, fun before l after he hm => ?_⟩
  have hnone : ∀ l ∈ linesOf "foo : bar\n".toList, ¬ l.Misread := by decide
  exact absurd hm (hnone l (he ▸ List.mem_append_right before List.mem_cons_self))

/-- Without the blank before the delimiter the name is cut. -/
theorem not_stores_cut :
    ¬ ∃ props, readConfig (readFile "foo: bar\n".toList) = some props ∧ Stores "foo: bar\n".toList props := by
  rintro ⟨props, hprops, hstores⟩
  have hread : readConfig (readFile "foo: bar\n".toList) = some [("fo".toList, "bar".toList)] := by decide
  rw [hread] at hprops
  cases hprops
  have hfoo := hstores.lookup "foo".toList
  revert hfoo
  decide

end Stored

end Cpp

end Plethora
