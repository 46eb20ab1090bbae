/-
# Reading a Java properties file in Python

`getJavaProperties` as a machine that reads the file line by line: the outer
loop skips blank lines and comments, the inner one joins lines as long as the
logical line ends in a backslash, and a logical line is cut by one regular
expression, changed by two more and decoded.

The inner loop ends: a line that is joined takes at least the backslash away,
so what is left of the file and the logical line together get shorter in each
turn, also at the end of the file, where nothing is read (`size_lt_of_step`).
The machine halts after as many steps as three times the file has characters,
either at the end of the file or at a logical line with a malformed escape;
and the lines it read are the file's lines, once each and in order, all of
them or those up to the malformed one (`getJavaProperties_terminates`).

Key definitions: `readline`, `decode`, `entryOf`, `State`, `step`, `start`,
`getJavaProperties`.
Key theorems: `physicalLines_readline`, `size_lt_of_step`,
`getJavaProperties_terminates`.
-/
import Plethora.Agents.PythonReader
import Plethora.Lib.Halting
import Plethora.Lib.Pattern

namespace Plethora

namespace Plethoralib

namespace Jprop

open Pattern Strip

/-! ### Files and lines -/

/-- `readline()`: a line with its line feed, empty at the end of the file; and
what is left of the file. -/
def readline : Text → Text × Text
  | [] => ([], [])
  | c :: t => if c = '\n' then ([c], t) else (c :: (readline t).1, (readline t).2)

/-- The physical lines of a file, with their line feeds. -/
def physicalLines : Text → List Text
  | [] => []
  | c :: t =>
    if c = '\n' then [c] :: physicalLines t
    else
      match physicalLines t with
      | [] => [[c]]
      | l :: ls => (c :: l) :: ls

def isLineBreak (c : Char) : Bool := c ∈ ['\n', '\r', '\x0c']

def lstrip (t : Text) : Text := t.dropWhile isAsciiSpace

def rstrip (t : Text) : Text := t.rdropWhile isAsciiSpace

/-- `rstrip(LINE_BREAKS)`. -/
def rstripBreaks (t : Text) : Text := t.rdropWhile isLineBreak

/-! ### The regular expressions -/

def isBackslash (c : Char) : Bool := c = '\\'

/-- `$`. -/
def lineEnd : Item Char := .look fun _ t => t = [] || t = ['\n']

/-- `\s*[#!].*`. -/
def COMMENT_LINE : List (Item Char) := [.many isAsciiSpace, .one fun c => c ∈ ['#', '!'], .many (· ≠ '\n')]

/-- `.*[\\]\s*$`. -/
def MULTI_LINE : List (Item Char) := [.many (· ≠ '\n'), .one isBackslash, .many isAsciiSpace, lineEnd]

/-- `(?<!\\)\s*(?<!\\)[=: ]\s*`. -/
def SPLIT_DELIM : List (Item Char) :=
  [.notBehind isBackslash, .many isAsciiSpace, .notBehind isBackslash, .one fun c => c ∈ ['=', ':', ' '],
    .many isAsciiSpace]

/-- `(?<!\\)[\\](?!u)`. -/
def VALID_ESC_DELIM : List (Item Char) := [.notBehind isBackslash, .one isBackslash, .notAhead (· = 'u')]

/-- `\\\\`. -/
def ESCAPED_ESC_DELIM : List (Item Char) := [.one isBackslash, .one isBackslash]

/-! ### The codec `unicode_escape` -/

/-- The escapes of one character. -/
def simpleEscapes : List (Char × List ℕ) :=
  [('\n', []), ('\\', [92]), ('\'', [39]), ('"', [34]), ('b', [8]), ('f', [12]), ('t', [9]), ('n', [10]), ('r', [13]),
    ('v', [11]), ('a', [7])]

def isOctal (c : Char) : Bool := '0' ≤ c && c ≤ '7'

def octalValue (digits : Text) : ℕ := digits.foldl (fun n c => 8 * n + (c.toNat - 48)) 0

/-- The number of `k` hexadecimal digits, if there are as many. -/
def hexNumber : ℕ → ℕ → Text → Option ℕ
  | 0, n, _ => some n
  | _ + 1, _, [] => none
  | k + 1, n, c :: t => (PropertiesFile.hexDigit c).bind fun d => hexNumber k (16 * n + d) t

/-- The code units of a code point. -/
def codeUnits (n : ℕ) : Option (List ℕ) :=
  if n < 0x10000 then some [n]
  else if n ≤ 0x10FFFF then some [0xD800 + (n - 0x10000) / 0x400, 0xDC00 + (n - 0x10000) % 0x400]
  else none

variable (names : Text → Option ℕ)

/-- The character of a name between braces, and the length of all that; `names`
is the Unicode database. -/
def named : Text → Option (List ℕ × ℕ)
  | '\x7b' :: t =>
    let name := t.takeWhile (· ≠ '\x7d')
    if name ≠ [] ∧ name.length < t.length then ((names name).bind codeUnits).map (·, name.length + 3) else none
  | _ => none

/-- What a backslash and the text after it stand for, and how much of the text
belongs to the escape. -/
def escape : Text → Option (List ℕ × ℕ)
  | [] => none
  | c :: t =>
    match simpleEscapes.lookup c with
    | some units => some (units, 1)
    | none =>
      if isOctal c then
        let digits := ((c :: t).take 3).takeWhile isOctal
        some ([octalValue digits], digits.length)
      else if c = 'x' then (hexNumber 2 0 t).map fun n => ([n], 3)
      else if c = 'u' then (hexNumber 4 0 t).map fun n => ([n], 5)
      else if c = 'U' then ((hexNumber 8 0 t).bind codeUnits).map (·, 9)
      else if c = 'N' then named names t
      else some ([92, c.toNat], 1)

/-- `unicode(item, 'unicode_escape')`, so many characters already taken; `none`
for a `UnicodeDecodeError`. -/
def decodeFrom : ℕ → Text → Option (List ℕ)
  | _, [] => some []
  | taken + 1, _ :: t => decodeFrom taken t
  | 0, c :: t =>
    if c = '\\' then (escape names t).bind fun e => (decodeFrom e.2 t).map (e.1 ++ ·)
    else (decodeFrom 0 t).map (c.toNat :: ·)

def decode (item : Text) : Option (List ℕ) := decodeFrom names 0 item

/-! ### One logical line -/

/-- The pieces of a logical line, with a default for the element. -/
def pairOf (logical_line : Text) : Text × Text := (cut SPLIT_DELIM none logical_line).getD (logical_line, [])

/-- The three changes an item goes through. -/
def convert (item : Text) : Option (List ℕ) :=
  decode names (sub ESCAPED_ESC_DELIM ['\\'] (sub VALID_ESC_DELIM [] item))

def entryOf (logical_line : Text) : Option (List ℕ × List ℕ) := do
  let key ← convert names (pairOf logical_line).1
  let element ← convert names (pairOf logical_line).2
  pure (key, element)

/-! ### The loops -/

/-- Where the function is: at the condition of the outer loop, at that of the
inner one, returned, or stopped by an exception at a logical line. -/
inductive Point
  | outer (natural_line : Text)
  | inner (logical_line : Text)
  | finished
  | raised (logical_line : Text)
  deriving DecidableEq

structure State where
  /-- What of the file is not read yet. -/
  file : Text
  /-- The lines read so far. -/
  reads : List Text
  result : List (List ℕ × List ℕ)
  point : Point
  deriving DecidableEq

/-- The lines there are in what `readline` returns. -/
def someLine (line : Text) : List Text := if line = [] then [] else [line]

/-- A line is read, and the function goes on with it. -/
def State.next (s : State) (continued : Text → Point) : State where
  file := (readline s.file).2
  reads := s.reads ++ someLine (readline s.file).1
  result := s.result
  point := continued (readline s.file).1

/-- The logical line with another line joined to it. -/
def joined (logical_line line : Text) : Text := (rstrip logical_line).dropLast ++ rstripBreaks (lstrip line)

def step (s : State) : Option State :=
  match s.point with
  | .outer natural_line =>
    if natural_line = [] then some { s with point := .finished }
    -- skip blank lines and comment lines
    else if strip isAsciiSpace natural_line ≠ [] ∧ isMatch COMMENT_LINE natural_line = false then
      some { s with point := .inner (rstripBreaks (lstrip natural_line)) }
    else some (s.next .outer)
  | .inner logical_line =>
    if isMatch MULTI_LINE logical_line then some (s.next fun line => .inner (joined logical_line line))
    else
      match entryOf names logical_line with
      | none => some { s with point := .raised logical_line }
      | some entry => some ({ s with result := put entry.1 entry.2 s.result }.next .outer)
  | .finished => none
  | .raised _ => none

/-- The first line is read. -/
def start (text : Text) : State := State.next ⟨text, [], [], .finished⟩ .outer

/-- What is left to do. -/
def State.size (s : State) : ℕ :=
  match s.point with
  | .outer natural_line => 3 * (s.file.length + natural_line.length) + 1
  | .inner logical_line => 3 * s.file.length + logical_line.length + 2
  | .finished => 0
  | .raised _ => 0

/-- `getJavaProperties`, or the logical line that raised an exception. -/
def getJavaProperties (text : Text) : Except Text (List (List ℕ × List ℕ)) :=
  match Halting.final (step names) State.size (start text) with
  | ⟨_, _, _, .raised logical_line⟩ => .error logical_line
  | s => .ok s.result

/-! ### Lines -/

theorem length_readline : ∀ text : Text, (readline text).1.length + (readline text).2.length = text.length
  | [] => rfl
  | c :: t => by
    have ih := length_readline t
    rw [readline]
    split
    · simp only [List.length_cons, List.length_nil]
      omega
    · simp only [List.length_cons]
      omega

/-- A line that is read is the first of those left. -/
theorem physicalLines_readline : ∀ text : Text,
    physicalLines text = someLine (readline text).1 ++ physicalLines (readline text).2
  | [] => rfl
  | c :: t => by
    have ih := physicalLines_readline t
    rw [physicalLines, readline]
    split
    · rfl
    · rw [ih]
      unfold someLine
      by_cases h : (readline t).1 = []
      · have ht : (readline t).2 = [] := by
          cases t with
          | nil => rfl
          | cons d t =>
            rw [readline] at h
            split at h
            · cases h
            · cases h
        rw [h, ht]
        rfl
      · rw [if_neg h, if_neg (List.cons_ne_nil _ _)]
        rfl

/-! ### Termination -/

theorem isMatch_iff {items : List (Item Char)} {t : Text} : isMatch items t = true ↔ ∃ rest, rest ∈ ends items none t := by
  rw [isMatch, Bool.not_eq_true', List.isEmpty_eq_false_iff_exists_mem]

/-- A line goes on after a backslash with white space only after it. -/
theorem isMatch_MULTI_LINE_iff {t : Text} : isMatch MULTI_LINE t = true ↔
    ∃ before after, t = before ++ '\\' :: after ∧ '\n' ∉ before ∧ ∀ c ∈ after, isAsciiSpace c = true := by
  rw [isMatch_iff]
  simp only [MULTI_LINE, ends, mem_many_iff]
  constructor
  · rintro ⟨r, before, rest, rfl, hbefore, h⟩
    cases rest with
    | nil => exact absurd h List.not_mem_nil
    | cons c rest =>
      simp only [ends] at h
      split at h
      · rename_i hc
        obtain rfl : c = '\\' := of_decide_eq_true hc
        obtain ⟨run, v, rfl, hrun, h⟩ := mem_many_iff.mp h
        refine ⟨before, run ++ v, rfl, fun hn => by simpa using hbefore _ hn, ?_⟩
        simp only [ends, lineEnd] at h
        split at h
        · rename_i hv
          rw [List.forall_mem_append]
          refine ⟨hrun, fun c hc => ?_⟩
          rcases Bool.or_eq_true_iff.mp hv with hv | hv
          · rw [of_decide_eq_true hv] at hc
            exact absurd hc List.not_mem_nil
          · rw [of_decide_eq_true hv] at hc
            rw [List.mem_singleton.mp hc]
            rfl
        · exact absurd h List.not_mem_nil
      · exact absurd h List.not_mem_nil
  · rintro ⟨before, after, rfl, hbefore, hafter⟩
    refine ⟨[], before, '\\' :: after, rfl, fun c hc => ?_, ?_⟩
    · exact decide_eq_true fun he => hbefore (he ▸ hc)
    · simp only [ends]
      rw [if_pos (show isBackslash '\\' = true from rfl)]
      exact mem_many_iff.mpr ⟨after, [], (List.append_nil _).symm, hafter, List.mem_singleton_self _⟩

theorem length_rstripBreaks_le (t : Text) : (rstripBreaks t).length ≤ t.length := (List.rdropWhile_prefix _ t).length_le

theorem length_lstrip_le (t : Text) : (lstrip t).length ≤ t.length := (List.dropWhile_suffix _).length_le

/-- The backslash a line goes on after is taken away. -/
theorem length_joined_lt {logical_line : Text} (h : isMatch MULTI_LINE logical_line = true) (line : Text) :
    (joined logical_line line).length < logical_line.length + line.length := by
  obtain ⟨before, after, rfl, -, -⟩ := isMatch_MULTI_LINE_iff.mp h
  have hne : rstrip (before ++ '\\' :: after) ≠ [] := by
    intro he
    have hall := List.rdropWhile_eq_nil_iff.mp he '\\' (List.mem_append_right _ List.mem_cons_self)
    exact absurd hall (by decide)
  have hpos := List.length_pos_of_ne_nil hne
  have hle : (rstrip (before ++ '\\' :: after)).length ≤ (before ++ '\\' :: after).length :=
    (List.rdropWhile_prefix _ _).length_le
  have hline := (length_rstripBreaks_le (lstrip line)).trans (length_lstrip_le line)
  rw [joined, List.length_append, List.length_dropLast]
  omega

/-- **Every step leaves less to do.** -/
theorem size_lt_of_step (s t : State) (h : step names s = some t) : t.size < s.size := by
  obtain ⟨file, reads, result, point⟩ := s
  have hread := length_readline file
  cases point with
  | outer natural_line =>
    simp only [step] at h
    split at h
    · cases h
      simp only [State.size]
      omega
    · rename_i hne
      have hpos := List.length_pos_of_ne_nil hne
      split at h
      · cases h
        have hline := (length_rstripBreaks_le (lstrip natural_line)).trans (length_lstrip_le natural_line)
        simp only [State.size]
        omega
      · cases h
        simp only [State.size, State.next]
        omega
  | inner logical_line =>
    simp only [step] at h
    split at h
    · rename_i hmulti
      cases h
      have hjoined := length_joined_lt hmulti (readline file).1
      simp only [State.size, State.next]
      omega
    · split at h
      · cases h
        simp only [State.size]
        omega
      · cases h
        simp only [State.size, State.next]
        omega
  | finished => cases h
  | raised logical_line => cases h

/-! ### Reads -/

/-- What was read and what is left are the lines of the file. -/
def ReadsOf (text : Text) (s : State) : Prop := physicalLines text = s.reads ++ physicalLines s.file

theorem readsOf_next {text : Text} {s : State} (h : ReadsOf text s) (continued : Text → Point) :
    ReadsOf text (s.next continued) := by
  show physicalLines text = (s.reads ++ someLine (readline s.file).1) ++ physicalLines (readline s.file).2
  rw [List.append_assoc, ← physicalLines_readline]
  exact h

/-- The function returns at the end of the file only, and stops only at a
logical line with a malformed escape. -/
def EndsRight (s : State) : Prop :=
  match s.point with
  | .outer natural_line => natural_line = [] → s.file = []
  | .inner _ => True
  | .finished => s.file = []
  | .raised logical_line => entryOf names logical_line = none

theorem endsRight_next (s : State) : EndsRight names (s.next .outer) := by
  intro h
  have hline : (readline s.file).1 = [] := h
  show (readline s.file).2 = []
  cases hfile : s.file with
  | nil => rfl
  | cons c t =>
    rw [hfile, readline] at hline
    split at hline
    · cases hline
    · cases hline

/-- What every step keeps. -/
theorem reads_of_step {text : Text} (s t : State) (h : step names s = some t)
    (hs : ReadsOf text s ∧ EndsRight names s) : ReadsOf text t ∧ EndsRight names t := by
  obtain ⟨file, reads, result, point⟩ := s
  obtain ⟨hreads, hends⟩ := hs
  cases point with
  | outer natural_line =>
    simp only [step] at h
    split at h
    · rename_i hnil
      cases h
      exact ⟨hreads, hends hnil⟩
    · split at h
      · cases h
        exact ⟨hreads, trivial⟩
      · cases h
        exact ⟨readsOf_next hreads _, endsRight_next names _⟩
  | inner logical_line =>
    simp only [step] at h
    split at h
    · cases h
      exact ⟨readsOf_next hreads _, trivial⟩
    · split at h
      · rename_i hentry
        cases h
        exact ⟨hreads, hentry⟩
      · cases h
        exact ⟨readsOf_next hreads Point.outer, endsRight_next names _⟩
  | finished => cases h
  | raised logical_line => cases h

theorem size_start (text : Text) : (start text).size = 3 * text.length + 1 := by
  have hread := length_readline text
  show 3 * ((readline text).2.length + (readline text).1.length) + 1 = _
  omega

theorem halted_cases {s : State} (h : step names s = none) : s.point = .finished ∨ ∃ l, s.point = .raised l := by
  obtain ⟨file, reads, result, point⟩ := s
  cases point with
  | outer natural_line =>
    simp only [step] at h
    split at h
    · cases h
    · split at h <;> cases h
  | inner logical_line =>
    simp only [step] at h
    split at h
    · cases h
    · split at h <;> cases h
  | finished => exact .inl rfl
  | raised logical_line => exact .inr ⟨_, rfl⟩

/-- **The function ends** within so many steps for any file. It returns with
every line of the file read once, in order, or it stops at a logical line with
a malformed escape, with the lines up to there read once. -/
theorem getJavaProperties_terminates (text : Text) :
    ∃ t, t = Halting.runFor (step names) (3 * text.length + 1) (start text) ∧ step names t = none ∧
      (t.point = .finished ∧ t.reads = physicalLines text ∨
        ∃ logical_line, t.point = .raised logical_line ∧ entryOf names logical_line = none ∧
          t.reads <+: physicalLines text) := by
  refine ⟨_, rfl, ?_⟩
  have hhalted := Halting.step_runFor (size_lt_of_step names) (size_start text).le
  have hstart : ReadsOf text (start text) ∧ EndsRight names (start text) :=
    ⟨readsOf_next (s := ⟨text, [], [], .finished⟩) rfl _, endsRight_next names _⟩
  obtain ⟨hreads, hends⟩ :=
    Halting.runFor_invariant (reads_of_step names) (3 * text.length + 1) hstart
  refine ⟨hhalted, ?_⟩
  rcases halted_cases names hhalted with hpoint | ⟨logical_line, hpoint⟩
  · left
    refine ⟨hpoint, ?_⟩
    have hfile : (Halting.runFor (step names) (3 * text.length + 1) (start text)).file = [] := by
      rw [EndsRight, hpoint] at hends
      exact hends
    rw [ReadsOf, hfile] at hreads
    rw [hreads, physicalLines, List.append_nil]
  · right
    refine ⟨logical_line, hpoint, ?_, hreads ▸ List.prefix_append _ _⟩
    rw [EndsRight, hpoint] at hends
    exact hends

/-- After a malformed escape the next line is not read. -/
theorem not_all_read_malformed :
    ¬ ∀ (names : Text → Option ℕ) (text : Text),
      (Halting.runFor (step names) (3 * text.length + 1) (start text)).reads = physicalLines text := by
  intro h
  have hread := h (fun _ => none) "a=\\u12\nb=c\n".toList
  revert hread
  decide +kernel

end Jprop

end Plethoralib

end Plethora
