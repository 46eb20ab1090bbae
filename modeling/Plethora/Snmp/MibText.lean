/-
# The MIB, read back

`readMib` reads the text of a MIB in the layout of the template, character by
character: after the header the object identifier lines, up to an empty line,
and then the object sections, up to the end. What is between two quotation
marks is a description, whatever it looks like.

A text is read as the entries it was written from, if no name breaks its line
and no description has a quotation mark (`readMib_contents`). A description ends
at its first quotation mark, and since it has no line break but at its end, what
follows is never what should follow a description: such a text is not read at
all (`readObject_quoted`). So the MIB is a tree exactly if `LabelsLinkUp` and it
reads as what was written (`generateMib_links_iff`).

Key definitions: `readMib`, `SnmpAgent.MibLinks`, `SnmpAgent.OneLine`,
`SnmpAgent.Delimited`.
Key theorems: `readOidLine_showLine`, `readObject_showSection`,
`readObject_quoted`, `generateMib_links_iff`.
-/
import Plethora.Snmp.MibLabels
import Plethora.Snmp.Sections

namespace Plethora

open Labels ItemReader Replace Template MIBEngine

/-! ### The reader -/

/-- A comment is a line of its own. -/
def skipComment (t : Text) : Option Text := do
  let rest ← expect "---".toList t
  expect EOL (rest.dropWhile (· ≠ '\n'))

/-- From behind the name of the MIB to its first line. -/
def IMPORTS : Text :=
  "-MIB DEFINITIONS ::= BEGIN\n\nIMPORTS\n  enterprises FROM RFC1155-SMI\n".toList ++
    "  OBJECT-TYPE FROM RFC-1212\n  DisplayString FROM RFC1213-MIB;\n\n".toList

def skipHeader (t : Text) : Option Text := do
  let t ← skipComment t
  let t ← skipComment t
  let t ← skipComment t
  expect IMPORTS (t.dropWhile (· ≠ '-'))

/-- A label, the rest of its line, and what is between the braces, a parent and
a number. -/
def readOidLine (t : Text) : Option (Line Text × Text) := do
  let label := t.takeWhile (· ≠ '\t')
  let body ← expect IDENTIFIER (t.dropWhile (· ≠ '\t'))
  let rest ← expect "\x7d\n".toList (body.dropWhile (· ≠ '\x7d'))
  let (parent, id) ← cutAtLast ' ' (body.takeWhile (· ≠ '\x7d'))
  if '\n' ∉ label ∧ '\n' ∉ parent then return (⟨label, parent, Nat.ofDigitChars 10 id 0⟩, rest) else none

/-- A section: letters and digits, a line of syntax, a text between quotation
marks, letters and digits, and a number. -/
def readObject (t : Text) : Option (Line Text × Text) := do
  let syntxOn ← expect OBJECT_TYPE (t.dropWhile Char.isAlphanum)
  let descriptionOn ← expect CLAUSES (syntxOn.dropWhile (· ≠ '\n'))
  let parentOn ← expect ASSIGNMENT (descriptionOn.dropWhile (· ≠ '"'))
  let idOn ← expect " ".toList (parentOn.dropWhile Char.isAlphanum)
  let rest ← expect "\x7d\n\n".toList (idOn.dropWhile (· ≠ '\x7d'))
  return (⟨t.takeWhile Char.isAlphanum, parentOn.takeWhile Char.isAlphanum,
    Nat.ofDigitChars 10 (idOn.takeWhile (· ≠ '\x7d')) 0⟩, rest)

/-- The object identifier lines of a MIB, and its sections. -/
def readMib (text : Text) : Option (List (Line Text) × List (Line Text)) := do
  let t ← skipHeader text
  let (lines, t) ← items readOidLine (expect EOL) (t.length + 1) t
  let (sections, t) ← items readObject (expect END_LINE) (t.length + 1) t
  if t = [] then return (lines, sections) else none

/-! ### The header -/

theorem skipComment_append {s : Text} (h : '\n' ∉ s) (t : Text) :
    skipComment ("---".toList ++ (s ++ '\n' :: t)) = some t := by
  rw [skipComment, expect_append, Option.bind_eq_bind, Option.bind_some, Pieces.dropWhile_append_cons h]
  exact expect_append EOL t

/-- A letter or a digit is one as a capital too. -/
theorem toUpper_isAlphanum {c : Char} (h : c.isAlphanum = true) : c.toUpper.isAlphanum = true := by
  unfold Char.toUpper
  split
  · rename_i hc
    have hlow : 97 ≤ c.val.toNat := hc.1
    have hhigh : c.val.toNat ≤ 122 := hc.2
    have hv : (c.val + ('A'.val - 'a'.val)).toNat = c.val.toNat - 32 := by
      rw [UInt32.toNat_add]
      show (c.val.toNat + 4294967264) % 4294967296 = _
      omega
    have hupper : 65 ≤ (c.val + ('A'.val - 'a'.val)).toNat ∧ (c.val + ('A'.val - 'a'.val)).toNat ≤ 90 := by
      omega
    delta Char.isAlphanum Char.isAlpha Char.isUpper
    simp only [Bool.or_eq_true, decide_eq_true_iff]
    exact Or.inl (Or.inl hupper)
  · exact h

/-- The name of the MIB, in capitals. -/
def mibName (name : Text) : Text := (validDescriptor name).map Char.toUpper

theorem not_mem_mibName (name : Text) : '-' ∉ mibName name := by
  intro h
  obtain ⟨c, hc, he⟩ := List.mem_map.mp h
  exact absurd (toUpper_isAlphanum (isAlphanum_of_mem_validDescriptor hc)) (by rw [he]; decide)

/-- What is said of the place of the latest version. -/
def urlMessage (url : Option Text) : Text := url.elim [] fun url => "at ".toList ++ url

def FIRST_COMMENT : Text := "--- Management Information Base for SNMP Network Management\n".toList

def DATE_COMMENT : Text := "--- Dynamically generated by Plethora agent at ".toList

def URL_COMMENT : Text := "\n--- Please make sure to use the latest version ".toList

/-- A date without brackets is put in as it is, and so are the rest. -/
theorem transformHeaderSection_eq (name : Text) {date : Text} (hdate : '<' ∉ date) (url : Option Text) :
    Transformer.transformHeaderSection name date url = FIRST_COMMENT ++ (DATE_COMMENT ++ (date ++ (URL_COMMENT ++
      (urlMessage url ++ (EOL ++ (mibName name ++ IMPORTS)))))) := by
  have hfirst : '<' ∉ FIRST_COMMENT ++ DATE_COMMENT := by decide
  have hurl : '<' ∉ URL_COMMENT := by decide
  have heol : '<' ∉ EOL := by decide
  have himports : '<' ∉ IMPORTS := by decide
  have hname : '<' ∉ mibName name ++ IMPORTS := by
    intro h
    rcases List.mem_append.mp h with h | h
    · obtain ⟨c, hc, he⟩ := List.mem_map.mp h
      exact absurd (toUpper_isAlphanum (isAlphanum_of_mem_validDescriptor hc)) (by rw [he]; decide)
    · exact himports h
  have hN : NAME.head? = some '<' := rfl
  have hD : DATE.head? = some '<' := rfl
  have hU : URL.head? = some '<' := rfl
  have h1 : replace NAME (mibName name) HEADER_SECTION =
      (FIRST_COMMENT ++ DATE_COMMENT) ++ (DATE ++ (URL_COMMENT ++ (URL ++ (EOL ++ (mibName name ++ IMPORTS))))) := by
    have hsplit : HEADER_SECTION =
        (FIRST_COMMENT ++ DATE_COMMENT ++ DATE ++ URL_COMMENT ++ URL ++ EOL) ++ (NAME ++ IMPORTS) := by
      simp only [List.append_assoc]
      rfl
    have hbefore : Inert NAME (FIRST_COMMENT ++ DATE_COMMENT ++ DATE ++ URL_COMMENT ++ URL ++ EOL) :=
      (((((inert_of_not_mem hN hfirst).append (inert_label hN hD (by decide) (by decide) (by decide))).append
        (inert_of_not_mem hN hurl)).append (inert_label hN hU (by decide) (by decide) (by decide))).append
          (inert_of_not_mem hN heol))
    rw [hsplit, replace_fill (by decide) hbefore (inert_of_not_mem hN himports)]
    simp only [List.append_assoc]
  have h2 : replace DATE date ((FIRST_COMMENT ++ DATE_COMMENT) ++ (DATE ++ (URL_COMMENT ++
      (URL ++ (EOL ++ (mibName name ++ IMPORTS)))))) =
      (FIRST_COMMENT ++ DATE_COMMENT ++ date ++ URL_COMMENT) ++ (URL ++ (EOL ++ (mibName name ++ IMPORTS))) := by
    rw [replace_fill (by decide) (inert_of_not_mem hD hfirst) ((inert_of_not_mem hD hurl).append
      ((inert_label hD hU (by decide) (by decide) (by decide)).append
        ((inert_of_not_mem hD heol).append (inert_of_not_mem hD hname))))]
    simp only [List.append_assoc]
  have hbefore : '<' ∉ FIRST_COMMENT ++ DATE_COMMENT ++ date ++ URL_COMMENT := by
    rw [List.mem_append, List.mem_append, not_or, not_or]
    exact ⟨⟨hfirst, hdate⟩, hurl⟩
  have hheader : Transformer.transformHeaderSection name date url =
      replace URL (urlMessage url) (replace DATE date (replace NAME (mibName name) HEADER_SECTION)) := by
    cases url <;> rfl
  rw [hheader, h1, h2, replace_fill (by decide) (inert_of_not_mem hU hbefore)
    ((inert_of_not_mem hU heol).append (inert_of_not_mem hU hname))]
  simp only [List.append_assoc]

theorem skipHeader_append (name : Text) {date : Text} (hdate : '<' ∉ date) (hline : '\n' ∉ date) {url : Option Text}
    (hurl : '\n' ∉ urlMessage url) (t : Text) :
    skipHeader (Transformer.transformHeaderSection name date url ++ t) = some t := by
  have h1 : skipComment (FIRST_COMMENT ++ (DATE_COMMENT ++ (date ++ (URL_COMMENT ++ (urlMessage url ++ (EOL ++
      (mibName name ++ (IMPORTS ++ t)))))))) = some (DATE_COMMENT ++ (date ++ (URL_COMMENT ++ (urlMessage url ++
        (EOL ++ (mibName name ++ (IMPORTS ++ t))))))) :=
    skipComment_append (s := " Management Information Base for SNMP Network Management".toList) (by decide) _
  have h2 : skipComment (DATE_COMMENT ++ (date ++ (URL_COMMENT ++ (urlMessage url ++ (EOL ++
      (mibName name ++ (IMPORTS ++ t))))))) = some (URL_COMMENT.tail ++ (urlMessage url ++ (EOL ++
        (mibName name ++ (IMPORTS ++ t))))) := by
    have hs : '\n' ∉ " Dynamically generated by Plethora agent at ".toList ++ date := by
      simp [hline]
    have h := skipComment_append hs (URL_COMMENT.tail ++ (urlMessage url ++ (EOL ++ (mibName name ++ (IMPORTS ++ t)))))
    rw [List.append_assoc] at h
    exact h
  have h3 : skipComment (URL_COMMENT.tail ++ (urlMessage url ++ (EOL ++ (mibName name ++ (IMPORTS ++ t))))) =
      some (mibName name ++ (IMPORTS ++ t)) := by
    have hs : '\n' ∉ " Please make sure to use the latest version ".toList ++ urlMessage url := by
      simp [hurl]
    have h := skipComment_append hs (mibName name ++ (IMPORTS ++ t))
    rw [List.append_assoc] at h
    exact h
  have h4 : (mibName name ++ (IMPORTS ++ t)).dropWhile (· ≠ '-') = IMPORTS ++ t :=
    Pieces.dropWhile_append_cons (not_mem_mibName name) (IMPORTS.tail ++ t)
  rw [transformHeaderSection_eq name hdate]
  simp only [List.append_assoc]
  simp only [skipHeader, h1, h2, h3, h4, Option.bind_eq_bind, Option.bind_some, expect_append]

/-! ### Lines -/

theorem not_mem_valueOf {c : Char} (hc : c.isDigit = false) (id : ℕ) : c ∉ valueOf id := by
  intro h
  have hdigit := Nat.isDigit_of_mem_toDigits (by decide) (by decide) h
  rw [hc] at hdigit
  cases hdigit

/-- A label and a parent that do not break the line. -/
def LineWhole (l : Line Text) : Prop := '\t' ∉ l.label ∧ '\n' ∉ l.label ∧ '\n' ∉ l.parent

instance (l : Line Text) : Decidable (LineWhole l) := inferInstanceAs (Decidable (_ ∧ _ ∧ _))

theorem readOidLine_label {l : Line Text} (h : LineWhole l) (t : Text) :
    (showLine l ++ t).takeWhile (· ≠ '\t') = l.label ∧
      expect IDENTIFIER ((showLine l ++ t).dropWhile (· ≠ '\t')) =
        some (l.parent ++ (' ' :: valueOf l.id ++ ("\x7d\n".toList ++ t))) := by
  have hshow : showLine l ++ t = l.label ++ '\t' :: (IDENTIFIER.tail ++
      (l.parent ++ (' ' :: valueOf l.id ++ ("\x7d\n".toList ++ t)))) := by
    rw [showLine]
    simp only [List.append_assoc]
    rfl
  rw [hshow, Pieces.takeWhile_append_cons h.1, Pieces.dropWhile_append_cons h.1]
  exact ⟨rfl, expect_append IDENTIFIER _⟩

/-- A line is read as what it shows, -/
theorem readOidLine_showLine {l : Line Text} (h : LineWhole l) (hbrace : '\x7d' ∉ l.parent) (t : Text) :
    readOidLine (showLine l ++ t) = some (l, t) := by
  obtain ⟨hlabel, hbody⟩ := readOidLine_label h t
  have hinside : '\x7d' ∉ l.parent ++ ' ' :: valueOf l.id := by
    rw [List.mem_append, List.mem_cons, not_or, not_or]
    exact ⟨hbrace, by decide, not_mem_valueOf rfl _⟩
  have hend : l.parent ++ (' ' :: valueOf l.id ++ ("\x7d\n".toList ++ t)) =
      (l.parent ++ ' ' :: valueOf l.id) ++ '\x7d' :: ('\n' :: t) := by
    rw [List.append_assoc]
    rfl
  have hrest : expect "\x7d\n".toList ('\x7d' :: '\n' :: t) = some t := expect_append "\x7d\n".toList t
  rw [readOidLine, hlabel, hbody, Option.bind_eq_bind, Option.bind_some, hend, Pieces.dropWhile_append_cons hinside,
    Pieces.takeWhile_append_cons hinside, hrest, Option.bind_eq_bind, Option.bind_some,
    cutAtLast_append (not_mem_valueOf rfl _), Option.bind_some]
  simp only [if_pos h.2]
  show some (⟨l.label, l.parent, Nat.ofDigitChars 10 (Nat.toDigits 10 l.id) 0⟩, t) = some (l, t)
  rw [Nat.ofDigitChars_ten_toDigits]

/-- or not at all, where its parent closes the braces. -/
theorem readOidLine_closed {l : Line Text} (h : LineWhole l) (hbrace : '\x7d' ∈ l.parent) (t : Text) :
    readOidLine (showLine l ++ t) = none := by
  obtain ⟨hlabel, hbody⟩ := readOidLine_label h t
  obtain ⟨front, back, hp, hfront⟩ := List.eq_append_cons_of_mem hbrace
  have hnone : expect "\x7d\n".toList
      ('\x7d' :: (back ++ (' ' :: valueOf l.id ++ ("\x7d\n".toList ++ t)))) = none := by
    refine expect_eq_none fun hpre => ?_
    have hpre : ['\n'] <+: back ++ (' ' :: valueOf l.id ++ ("\x7d\n".toList ++ t)) :=
      (List.cons_prefix_cons.mp hpre).2
    cases back with
    | nil => exact absurd (List.cons_prefix_cons.mp hpre).1 (by decide)
    | cons c back =>
      have hc : '\n' = c := (List.cons_prefix_cons.mp hpre).1
      refine h.2.2 ?_
      rw [hp, ← hc]
      simp
  rw [readOidLine, hbody, Option.bind_eq_bind, Option.bind_some, hp, List.append_assoc, List.cons_append,
    Pieces.dropWhile_append_cons hfront, hnone]
  rfl

/-- A line is not the end of the lines. -/
theorem expect_showLine {l : Line Text} (h : LineWhole l) (t : Text) : expect EOL (showLine l ++ t) = none := by
  cases hl : l.label with
  | nil =>
    rw [showLine, hl]
    exact expect_cons_ne (by decide) _ _
  | cons c label =>
    have hc : '\n' ≠ c := fun he => h.2.1 (by rw [hl, he]; exact List.mem_cons_self)
    rw [showLine, hl]
    exact expect_cons_ne hc _ _

theorem showLine_ne_nil (l : Line Text) : showLine l ≠ [] := by
  have hidentifier : IDENTIFIER ≠ [] := by decide
  simp [showLine, hidentifier]

/-! ### Sections -/

theorem span_isAlphanum {s : Text} (hs : ∀ c ∈ s, c.isAlphanum = true) {c : Char} (hc : c.isAlphanum = false)
    (t : Text) : (s ++ c :: t).takeWhile Char.isAlphanum = s ∧ (s ++ c :: t).dropWhile Char.isAlphanum = c :: t := by
  have hc' : ¬ c.isAlphanum = true := by simp [hc]
  rw [List.takeWhile_append_of_pos hs, List.dropWhile_append_of_pos hs, List.takeWhile_cons_of_neg hc',
    List.dropWhile_cons_of_neg hc', List.append_nil]
  exact ⟨rfl, rfl⟩

/-- A section's label and parent are letters and digits. -/
def SectionWhole (l : Line Text) (syntx : Text) : Prop :=
  (∀ c ∈ l.label, c.isAlphanum = true) ∧ (∀ c ∈ l.parent, c.isAlphanum = true) ∧ '\n' ∉ syntx

/-- Up to the description. -/
theorem readObject_start {l : Line Text} {syntx : Text} (h : SectionWhole l syntx) (d t : Text) :
    (showSection l syntx d ++ t).takeWhile Char.isAlphanum = l.label ∧
    (expect OBJECT_TYPE ((showSection l syntx d ++ t).dropWhile Char.isAlphanum)).bind
      (fun syntxOn => expect CLAUSES (syntxOn.dropWhile (· ≠ '\n'))) =
        some (d ++ (ASSIGNMENT ++ (l.parent ++ (' ' :: (valueOf l.id ++ ("\x7d\n\n".toList ++ t)))))) := by
  have hshow : showSection l syntx d ++ t = l.label ++ ' ' :: (OBJECT_TYPE.tail ++ (syntx ++ '\n' :: (CLAUSES.tail ++
      (d ++ (ASSIGNMENT ++ (l.parent ++ (' ' :: (valueOf l.id ++ ("\x7d\n\n".toList ++ t))))))))) := by
    rw [showSection]
    simp only [List.append_assoc]
    rfl
  obtain ⟨htake, hdrop⟩ := span_isAlphanum h.1 (c := ' ') rfl (OBJECT_TYPE.tail ++ (syntx ++ '\n' :: (CLAUSES.tail ++
    (d ++ (ASSIGNMENT ++ (l.parent ++ (' ' :: (valueOf l.id ++ ("\x7d\n\n".toList ++ t)))))))))
  have htype : ∀ u : Text, expect OBJECT_TYPE (' ' :: (OBJECT_TYPE.tail ++ u)) = some u := expect_append OBJECT_TYPE
  have hclauses : ∀ u : Text, expect CLAUSES ('\n' :: (CLAUSES.tail ++ u)) = some u := expect_append CLAUSES
  rw [hshow, htake, hdrop, htype, Option.bind_some, Pieces.dropWhile_append_cons h.2.2, hclauses]
  exact ⟨rfl, rfl⟩

/-- A section is read as its label, parent and number. -/
theorem readObject_showSection {l : Line Text} {syntx d : Text} (h : SectionWhole l syntx) (hd : '"' ∉ d) (t : Text) :
    readObject (showSection l syntx d ++ t) = some (l, t) := by
  obtain ⟨hlabel, hstart⟩ := readObject_start h d t
  obtain ⟨htake, hdrop⟩ := span_isAlphanum h.2.1 (c := ' ') rfl (valueOf l.id ++ ("\x7d\n\n".toList ++ t))
  have hassignment : ∀ u : Text, ASSIGNMENT ++ u = '"' :: (ASSIGNMENT.tail ++ u) := fun u => rfl
  have hblank : ∀ u : Text, expect " ".toList (' ' :: u) = some u := expect_append " ".toList
  have hid : '\x7d' ∉ valueOf l.id := not_mem_valueOf rfl _
  have hend : valueOf l.id ++ ("\x7d\n\n".toList ++ t) = valueOf l.id ++ '\x7d' :: ('\n' :: '\n' :: t) := rfl
  have hrest : expect "\x7d\n\n".toList ('\x7d' :: '\n' :: '\n' :: t) = some t := expect_append "\x7d\n\n".toList t
  unfold readObject
  rw [hlabel]
  simp only [Option.bind_eq_bind]
  rw [← Option.bind_assoc, hstart, Option.bind_some, hassignment, Pieces.dropWhile_append_cons hd, ← hassignment,
    expect_append, Option.bind_some, hdrop, hblank, Option.bind_some, hend, Pieces.dropWhile_append_cons hid,
    Pieces.takeWhile_append_cons hid, hrest, Option.bind_some, ← hend, htake]
  show some (⟨l.label, l.parent, Nat.ofDigitChars 10 (Nat.toDigits 10 l.id) 0⟩, t) = some (l, t)
  rw [Nat.ofDigitChars_ten_toDigits]

/-- With a quotation mark in its description it is not read at all: what should
follow a description never stands inside one. -/
theorem readObject_quoted {l : Line Text} {syntx d : Text} (h : SectionWhole l syntx) (hd : '"' ∈ d)
    (hbreak : ':' ∉ d.dropWhile (· ≠ '\n')) (t : Text) : readObject (showSection l syntx d ++ t) = none := by
  obtain ⟨hlabel, hstart⟩ := readObject_start h d t
  obtain ⟨front, back, hsplit, hfront⟩ := List.eq_append_cons_of_mem hd
  have hnone : ∀ u : Text, expect ASSIGNMENT ('"' :: (back ++ (ASSIGNMENT ++ u))) = none := by
    refine fun u => expect_eq_none fun hpre => hbreak ?_
    have hpre : ASSIGNMENT.tail <+: back ++ '"' :: (ASSIGNMENT.tail ++ u) := (List.cons_prefix_cons.mp hpre).2
    obtain ⟨rest, hback⟩ := (prefix_append_cons_iff (by decide)).mp hpre
    have hcolon : ':' ∈ '\n' :: ("  ::= \x7b".toList ++ rest) := by simp
    have hd : d = (front ++ ['"']) ++ '\n' :: ("  ::= \x7b".toList ++ rest) := by
      rw [hsplit, ← hback, List.append_assoc]
      rfl
    rw [hd, List.dropWhile_append]
    split
    · rwa [List.dropWhile_cons_of_neg (by decide)]
    · exact List.mem_append_right _ hcolon
  unfold readObject
  simp only [Option.bind_eq_bind]
  rw [← Option.bind_assoc, hstart, Option.bind_some, hsplit, List.append_assoc, List.cons_append,
    Pieces.dropWhile_append_cons hfront, hnone]
  rfl

/-- A section is not the end of the text. -/
theorem expect_showSection {l : Line Text} {syntx : Text} (h : SectionWhole l syntx) (d t : Text) :
    expect END_LINE (showSection l syntx d ++ t) = none := by
  refine expect_eq_none ?_
  rintro ⟨rest, hend⟩
  have hshow : ∃ u, showSection l syntx d ++ t = l.label ++ ' ' :: u := by
    rw [showSection]
    simp only [List.append_assoc]
    exact ⟨_, rfl⟩
  obtain ⟨u, hu⟩ := hshow
  have hdrop := (span_isAlphanum h.1 (c := ' ') rfl u).2
  rw [← hu, ← hend] at hdrop
  exact absurd (List.cons.inj hdrop).1 (by decide)

theorem showSection_ne_nil (l : Line Text) (syntx d : Text) : showSection l syntx d ≠ [] := by
  have htype : OBJECT_TYPE ≠ [] := by decide
  simp [showSection, htype]

/-! ### Descriptions -/

/-- An aligned description has no line break but at its end. -/
theorem dropWhile_prettyFormat (d : Text) :
    ':' ∉ (ObjectSectionTransformer.prettyFormat d).dropWhile (· ≠ '\n') ∧
      '<' ∉ (ObjectSectionTransformer.prettyFormat d).dropWhile (· ≠ '\n') := by
  fun_induction ObjectSectionTransformer.prettyFormat d with
  | case1 => decide
  | case2 rest h ih =>
    -- what is left is a line terminator
    have hends : ∀ t ∈ [] :: ["\n", "\r\n", "\r", "\u0085", "\u2028", "\u2029"].map String.toList,
        ':' ∉ '\n' :: ObjectSectionTransformer.prettyFormat ('\n' :: t) ∧
          '<' ∉ '\n' :: ObjectSectionTransformer.prettyFormat ('\n' :: t) := by
      decide
    refine hends rest ?_
    rw [ObjectSectionTransformer.atEnd, Bool.or_eq_true, decide_eq_true_iff, List.any_eq_true] at h
    rcases h with rfl | ⟨t, ht, he⟩
    · exact List.mem_cons_self
    · rw [of_decide_eq_true he]
      exact List.mem_cons_of_mem _ (List.mem_map_of_mem ht)
  | case3 rest h ih => exact ih
  | case4 rest h ih => exact ih
  | case5 c rest h1 h2 ih =>
    have hc : decide (c ≠ '\n') = true := decide_eq_true h2
    rwa [List.dropWhile_cons, if_pos hc]

/-- And so has a description as it is shown. -/
theorem dropWhile_shownDescription (d parent : Text) (id : ℕ) :
    ':' ∉ (shownDescription d parent id).dropWhile (· ≠ '\n') := by
  obtain ⟨hcolon, hbracket⟩ := dropWhile_prettyFormat d
  have hparent : '\n' ∉ validDescriptor parent := fun h => absurd (isAlphanum_of_mem_validDescriptor h) (by decide)
  have hfirst : (replace PARENT (validDescriptor parent) (ObjectSectionTransformer.prettyFormat d)).dropWhile (· ≠ '\n') =
      (ObjectSectionTransformer.prettyFormat d).dropWhile (· ≠ '\n') :=
    dropWhile_replace (by decide) (by decide) hparent rfl hbracket
  rw [shownDescription, dropWhile_replace (by decide) (by decide) (not_mem_valueOf rfl id) rfl (by rwa [hfirst]), hfirst]
  exact hcolon

/-- Its quotation marks are those it was given. -/
theorem mem_shownDescription {d parent : Text} {id : ℕ} : '"' ∈ shownDescription d parent id ↔ '"' ∈ d := by
  have hparent : '"' ∉ validDescriptor parent := fun h => absurd (isAlphanum_of_mem_validDescriptor h) (by decide)
  have hin := infix_prettyFormat (p := ['"']) (by decide) (by decide) (by decide) d
  rw [List.singleton_infix_iff, List.singleton_infix_iff] at hin
  rw [shownDescription, mem_replace_iff (by decide) (by decide) (not_mem_valueOf rfl id),
    mem_replace_iff (by decide) (by decide) hparent, hin]

namespace MIBEngine

/-- The description that is handed to a section. -/
def written (name : Text) (p : MetricProperties) : Text :=
  if p.description = [] then "Metric for ".toList ++ name else p.description

theorem description_eq (e : MetricEntry) : description e = shownDescription (written e.name e.properties) e.parent e.id :=
  rfl

theorem sectionWhole {engine : MIBEngine} {e : MetricEntry} {m : Metric} (h : engine.Describes e m) :
    SectionWhole e.line e.syntx :=
  ⟨fun _ hc => isAlphanum_of_mem_validDescriptor hc, fun _ hc => isAlphanum_of_mem_validDescriptor hc,
    (syntax_plain h.syntx).2⟩

end MIBEngine

/-! ### The agent's text -/

namespace SnmpAgent

variable (agent : SnmpAgent)

/-- What was read is a tree: every parent is the label of one line before, the
sections are those of the listed metrics, in their order, and each section's
parents lead to the OID its metric is served at. -/
structure Links (lines sections : List (Line Text)) : Prop where
  linked : Linked MIB_OID_ENTERPRISE_NAME [] (lines ++ sections)
  labelled : sections.map (·.label) =
    (agent.mibEngine.numbered agent.metricService.moduleList 1).map fun p => validDescriptor p.2.2
  leads : ∀ i l m k module metric, sections[i]? = some l →
    (agent.mibEngine.numbered agent.metricService.moduleList 1)[i]? = some ((m, k), module, metric) →
    (resolve MIB_OID_ENTERPRISE_NAME ((sections.take i).reverse ++ lines.reverse) l.parent).map
      (fun arcs => enterprisesOid ++ (arcs ++ [l.id])) = some (agent.metricOid m k).arcs

/-- The text of a MIB is read, and is a tree. -/
def MibLinks (text : Text) : Prop := ∃ lines sections, readMib text = some (lines, sections) ∧ agent.Links lines sections

/-- The object identifier lines as they show. -/
def shownLines : List (Line Text) := (agent.mibEngine.oidLines agent.oidMap).map OidEntry.line

/-- No name that is shown on a line breaks it, nor does the place of the latest
version break its comment. -/
structure OneLine : Prop where
  url : ∀ url, agent.mibUrl = some url → '\n' ∉ url
  lines : ∀ l ∈ agent.shownLines, LineWhole l

/-- What stands between braces or quotation marks does not close them. -/
structure Delimited : Prop where
  parents : ∀ l ∈ agent.shownLines, '\x7d' ∉ l.parent
  descriptions : ∀ m k module metric x, agent.metricService.metricAt m k = some (module, metric) →
    agent.metricService.metrics.getMetric (NameResolver.resolveMetricName metric module) = .ok (some x) →
    '"' ∉ written metric x.properties

variable {agent} {sections : List MetricEntry}

/-- The tree that is read is the one that was written. -/
theorem links_iff
    (hn : sections.map MetricEntry.numbers = agent.mibEngine.numbered agent.metricService.moduleList 1) :
    agent.Links agent.shownLines (sections.map MetricEntry.line) ↔ agent.EntriesLink sections := by
  constructor
  · rintro ⟨hlinked, -, hleads⟩
    refine ⟨hlinked, ?_⟩
    rintro before e after rfl
    have hline : ((before ++ e :: after).map MetricEntry.line)[before.length]? = some e.line := by simp
    have hnumbers : (agent.mibEngine.numbered agent.metricService.moduleList 1)[before.length]? =
        some ((e.moduleId, e.id), e.parent, e.name) := by
      rw [← hn]
      simp [MetricEntry.numbers]
    have h := hleads _ _ _ _ _ _ hline hnumbers
    have htake : ((before ++ e :: after).map MetricEntry.line).take before.length = before.map MetricEntry.line := by
      simp
    rw [htake] at h
    exact h
  · rintro ⟨hlinked, hleads⟩
    refine ⟨hlinked, ?_, ?_⟩
    · rw [← hn, List.map_map, List.map_map]
      rfl
    · intro i l m k module metric hl hnum
      rw [← hn, List.getElem?_map, Option.map_eq_some_iff] at hnum
      obtain ⟨e, he, hnum⟩ := hnum
      cases hnum
      rw [List.getElem?_map, he] at hl
      cases hl
      obtain ⟨hi, rfl⟩ := List.getElem?_eq_some_iff.mp he
      have h := hleads (sections.take i) sections[i] (sections.drop (i + 1)) (by simp)
      rw [List.map_take] at h
      exact h

/-- The quotation marks are those of the registered descriptions. -/
theorem descriptions_iff
    (hn : sections.map MetricEntry.numbers = agent.mibEngine.numbered agent.metricService.moduleList 1)
    (hd : ∀ e ∈ sections, ∃ m, agent.mibEngine.Describes e m) :
    (∀ e ∈ sections, '"' ∉ description e) ↔
    ∀ m k module metric x, agent.metricService.metricAt m k = some (module, metric) →
      agent.metricService.metrics.getMetric (NameResolver.resolveMetricName metric module) = .ok (some x) →
      '"' ∉ written metric x.properties := by
  have hquote : ∀ e, '"' ∉ description e ↔ '"' ∉ written e.name e.properties := fun e => by
    rw [description_eq, mem_shownDescription]
  simp only [hquote]
  constructor
  · intro h m k module metric x hat hx
    have hmem := agent.mibEngine.mem_numbered_iff.mpr hat
    change _ ∈ agent.mibEngine.numbered agent.metricService.moduleList 1 at hmem
    rw [← hn, List.mem_map] at hmem
    obtain ⟨e, he, hnum⟩ := hmem
    cases hnum
    obtain ⟨m, hm⟩ := hd e he
    have hsame : (.ok (some m) : Except JavaError (Option Metric)) = .ok (some x) := hm.registered.symm.trans hx
    cases hsame
    rw [← hm.properties]
    exact h e he
  · intro h e he
    obtain ⟨m, hm⟩ := hd e he
    rw [hm.properties]
    exact h e.moduleId e.id e.parent e.name m (metricAt_of_mem hn he) hm.registered

/-- The sections as they show, and the end. -/
def shownSections (sections : List MetricEntry) : Text :=
  sections.flatMap (fun e => showSection e.line e.syntx (description e)) ++ END_LINE

/-- The text of these sections. -/
def textOf (agent : SnmpAgent) (date : Text) (sections : List MetricEntry) : Text :=
  Transformer.transformHeaderSection agent.productName date agent.mibUrl ++
    (agent.shownLines.flatMap showLine ++ (EOL ++ shownSections sections))

/-- A generated text is that of the entries for the listed metrics. -/
theorem generateMib_eq {date text : Text}
    (h : agent.mibEngine.generateMib date agent.enterprise.arcs agent.oidNames = .ok text) :
    ∃ sections : List MetricEntry,
      sections.map MetricEntry.numbers = agent.mibEngine.numbered agent.metricService.moduleList 1 ∧
      (∀ e ∈ sections, ∃ m, agent.mibEngine.Describes e m) ∧ text = agent.textOf date sections := by
  obtain ⟨oidMap, hm, h⟩ := bind_eq_ok.mp h
  obtain rfl : oidMap = agent.oidMap := makeOidMap_eq hm
  obtain ⟨sections, hs, h⟩ := bind_eq_ok.mp h
  obtain ⟨hn, hd⟩ := agent.mibEngine.buildSections_numbered _ _ _ hs
  refine ⟨sections, hn, hd, (Except.ok.inj h).symm.trans ((agent.mibEngine.contents_eq date _ hd).trans ?_)⟩
  simp only [List.append_assoc]
  rfl

section Text

variable {date : Text} (hdate : '<' ∉ date ∧ '\n' ∉ date) (hone : agent.OneLine)

include hdate hone in
theorem skipHeader_textOf :
    skipHeader (agent.textOf date sections) = some (agent.shownLines.flatMap showLine ++ (EOL ++ shownSections sections)) := by
  have hurl : '\n' ∉ urlMessage agent.mibUrl := by
    cases h : agent.mibUrl with
    | none => exact List.not_mem_nil
    | some url => simpa [urlMessage] using hone.url url h
  exact skipHeader_append _ hdate.1 hdate.2 hurl _

include hone in
/-- The lines are read as they show. -/
theorem items_shownLines (hparents : ∀ l ∈ agent.shownLines, '\x7d' ∉ l.parent) (t : Text) :
    items readOidLine (expect EOL) ((agent.shownLines.flatMap showLine ++ (EOL ++ t)).length + 1)
      (agent.shownLines.flatMap showLine ++ (EOL ++ t)) = some (agent.shownLines, t) := by
  have hlen := length_le_flatMap showLine_ne_nil agent.shownLines
  have hfuel : agent.shownLines.length < (agent.shownLines.flatMap showLine ++ (EOL ++ t)).length + 1 := by
    rw [List.length_append]
    exact Nat.lt_succ_of_le (hlen.trans (Nat.le_add_right _ _))
  have hread := @items_flatMap _ _ _ readOidLine (expect EOL) showLine id _ t (expect_append EOL t) agent.shownLines
    (fun l hl u => ⟨expect_showLine (hone.lines l hl) u, readOidLine_showLine (hone.lines l hl) (hparents l hl) u⟩)
    _ hfuel
  rwa [List.map_id] at hread

include hone in
theorem parents_of_items {n : ℕ} {t : Text} {r : List (Line Text) × Text}
    (h : items readOidLine (expect EOL) n (agent.shownLines.flatMap showLine ++ t) = some r) :
    ∀ l ∈ agent.shownLines, '\x7d' ∉ l.parent :=
  @good_of_items _ _ _ readOidLine (expect EOL) showLine id (fun l => '\x7d' ∉ l.parent) t r agent.shownLines n
    (fun l hl u => ⟨expect_showLine (hone.lines l hl) u, fun hb => readOidLine_showLine (hone.lines l hl) hb u,
      fun hb => readOidLine_closed (hone.lines l hl) (not_not.mp hb) u⟩) h

variable (hd : ∀ e ∈ sections, ∃ m, agent.mibEngine.Describes e m)

include hd in
theorem items_shownSections (hquotes : ∀ e ∈ sections, '"' ∉ description e) :
    items readObject (expect END_LINE) ((shownSections sections).length + 1) (shownSections sections) =
      some (sections.map MetricEntry.line, []) := by
  have hlen := length_le_flatMap (fun e : MetricEntry => showSection_ne_nil e.line e.syntx (description e)) sections
  have hfuel : sections.length < (shownSections sections).length + 1 := by
    rw [shownSections, List.length_append]
    exact Nat.lt_succ_of_le (hlen.trans (Nat.le_add_right _ _))
  refine @items_flatMap _ _ MetricEntry readObject (expect END_LINE) (fun e => showSection e.line e.syntx (description e))
    MetricEntry.line END_LINE [] rfl sections (fun e he u => ?_) _ hfuel
  obtain ⟨m, hm⟩ := hd e he
  exact ⟨expect_showSection (sectionWhole hm) _ u, readObject_showSection (sectionWhole hm) (hquotes e he) u⟩

include hd in
theorem quotes_of_items {n : ℕ} {r : List (Line Text) × Text}
    (h : items readObject (expect END_LINE) n (shownSections sections) = some r) :
    ∀ e ∈ sections, '"' ∉ description e := by
  refine @good_of_items _ _ MetricEntry readObject (expect END_LINE) (fun e => showSection e.line e.syntx (description e))
    MetricEntry.line (fun e => '"' ∉ description e) END_LINE r sections n (fun e he u => ?_) h
  obtain ⟨m, hm⟩ := hd e he
  have hbreak : ':' ∉ (description e).dropWhile (· ≠ '\n') := dropWhile_shownDescription _ e.parent e.id
  exact ⟨expect_showSection (sectionWhole hm) _ u, fun hq => readObject_showSection (sectionWhole hm) hq u,
    fun hq => readObject_quoted (sectionWhole hm) (not_not.mp hq) hbreak u⟩

include hdate hone hd in
/-- **A text is read as what it was written from**, or not at all. -/
theorem readMib_textOf_iff {r : List (Line Text) × List (Line Text)} :
    readMib (agent.textOf date sections) = some r ↔
      (∀ l ∈ agent.shownLines, '\x7d' ∉ l.parent) ∧ (∀ e ∈ sections, '"' ∉ description e) ∧
        r = (agent.shownLines, sections.map MetricEntry.line) := by
  constructor
  · intro h
    rw [readMib, skipHeader_textOf hdate hone] at h
    simp only [Option.bind_eq_bind, Option.bind_some] at h
    obtain ⟨⟨lines, t⟩, hlines, h⟩ := Option.bind_eq_some_iff.mp h
    have hparents := parents_of_items hone hlines
    rw [items_shownLines hone hparents] at hlines
    cases hlines
    obtain ⟨⟨read, t⟩, hread, h⟩ := Option.bind_eq_some_iff.mp h
    have hquotes := quotes_of_items hd hread
    rw [items_shownSections hd hquotes] at hread
    cases hread
    exact ⟨hparents, hquotes, (Option.some.inj h).symm⟩
  · rintro ⟨hparents, hquotes, rfl⟩
    simp only [readMib, skipHeader_textOf hdate hone, Option.bind_eq_bind, Option.bind_some,
      items_shownLines hone hparents, items_shownSections hd hquotes]
    rfl

end Text

/-- Where no name breaks its line. -/
theorem mibLinks_textOf_iff {date : Text} (h6 : MIB_OID_COMMON_ROOT_COUNT ≤ agent.enterprise.arcs.length)
    (hn : sections.map MetricEntry.numbers = agent.mibEngine.numbered agent.metricService.moduleList 1)
    (hd : ∀ e ∈ sections, ∃ m, agent.mibEngine.Describes e m) (hdate : '<' ∉ date ∧ '\n' ∉ date) (hone : agent.OneLine) :
    agent.MibLinks (agent.textOf date sections) ↔ agent.Delimited ∧ agent.LabelsLinkUp := by
  constructor
  · rintro ⟨lines, read, hread, hlink⟩
    obtain ⟨hparents, hquotes, he⟩ := (readMib_textOf_iff hdate hone hd).mp hread
    cases he
    exact ⟨⟨hparents, (descriptions_iff hn hd).mp hquotes⟩, (entriesLink_iff hn h6).mp ((links_iff hn).mp hlink)⟩
  · rintro ⟨hdel, hup⟩
    refine ⟨_, _, (readMib_textOf_iff hdate hone hd).mpr ⟨hdel.parents, ?_, rfl⟩, ?_⟩
    · exact (descriptions_iff hn hd).mpr hdel.descriptions
    · exact (links_iff hn).mpr ((entriesLink_iff hn h6).mpr hup)

variable (agent)

/-- **The MIB is a tree exactly if `LabelsLinkUp` and its text reads as it was
written.** Its labels then lead from each metric's section to the OID the metric
is served at. A name that breaks its line can hold lines of its own. -/
theorem generateMib_links_iff {date text : Text} (h7 : 7 ≤ agent.enterprise.arcs.length)
    (hdate : '<' ∉ date ∧ '\n' ∉ date)
    (h : agent.mibEngine.generateMib date agent.enterprise.arcs agent.oidNames = .ok text) :
    (agent.OneLine ∧ agent.Delimited ∧ agent.LabelsLinkUp → agent.MibLinks text) ∧
    (agent.OneLine → agent.MibLinks text → agent.Delimited ∧ agent.LabelsLinkUp) := by
  obtain ⟨sections, hn, hd, rfl⟩ := generateMib_eq h
  have h6 : MIB_OID_COMMON_ROOT_COUNT ≤ agent.enterprise.arcs.length := le_trans (by decide) h7
  exact ⟨fun ⟨hone, hup⟩ => (mibLinks_textOf_iff h6 hn hd hdate hone).mpr hup,
    fun hone hlinks => (mibLinks_textOf_iff h6 hn hd hdate hone).mp hlinks⟩

/-- The agent of one metric, with its names. -/
def acme : SnmpAgent :=
  { oneMetric "cpu".toList with
    oidNames := ["iso", "org", "dod", "internet", "private", "enterprises", "acme"].map String.toList }

def someDate : Text := "Mon Jan 05 10:00:00 UTC 2015".toList

theorem acme_registered : acme.metricService.AllRegistered := by
  intro module hm metric hk
  obtain rfl : module = "app".toList := List.mem_singleton.mp hm
  obtain rfl : metric = "cpu".toList := List.mem_singleton.mp hk
  exact ⟨_, rfl⟩

theorem moduleAt_acme {m : ℕ} {module : Text} (h : acme.metricService.moduleAt m = some module) :
    m = 1 ∧ module = "app".toList := by
  obtain ⟨j, rfl, hj⟩ := nth_eq_some.mp h
  have hj' : ["app".toList][j]? = some module := hj
  rw [List.getElem?_singleton] at hj'
  split at hj'
  · rename_i h0
    cases hj'
    exact ⟨by omega, rfl⟩
  · cases hj'

theorem metricAt_acme {m k : ℕ} {module metric : Text}
    (h : acme.metricService.metricAt m k = some (module, metric)) :
    m = 1 ∧ k = 1 ∧ module = "app".toList ∧ metric = "cpu".toList := by
  obtain ⟨h1, hm, hk1, hk⟩ := acme.metricService.metricAt_isSome.mp (Option.isSome_iff_exists.mpr ⟨_, h⟩)
  obtain rfl : m = 1 := le_antisymm hm h1
  obtain rfl : k = 1 := le_antisymm hk hk1
  cases h
  exact ⟨rfl, rfl, rfl, rfl⟩

theorem acme_linksUp : acme.LabelsLinkUp where
  subtree _ := by
    refine ⟨by decide +kernel, fun m module hm hne => ?_⟩
    obtain ⟨rfl, -⟩ := moduleAt_acme hm
    exact absurd rfl hne
  path _ := by
    have hlines : acme.pathLines = [⟨"acme".toList, MIB_OID_ENTERPRISE_NAME, 42⟩] := by decide +kernel
    have htop : acme.topLine.parent = "acme".toList := by decide +kernel
    refine ⟨by decide, ?_, by decide +kernel⟩
    rw [hlines, htop]
    exact ⟨by decide, rfl, rfl⟩
  path_only h := absurd (h "app".toList (by decide)) (by decide)
  module m module hm _ := by
    obtain ⟨rfl, rfl⟩ := moduleAt_acme hm
    refine ⟨by decide +kernel, by decide +kernel, by decide +kernel, by decide +kernel, fun m' module' hm' hne => ?_⟩
    exact absurd (moduleAt_acme hm').1 hne
  metric := List.pairwise_singleton _ _

theorem generateMib_links_iff_acme :
    ∃ text, acme.mibEngine.generateMib someDate acme.enterprise.arcs acme.oidNames = .ok text ∧ acme.MibLinks text := by
  obtain ⟨text, h⟩ := acme.generateMib_ok someDate acme_registered (by decide)
  have hone : acme.OneLine := ⟨nofun, by decide +kernel⟩
  have hdel : acme.Delimited := by
    refine ⟨by decide +kernel, fun m k module metric x hat hx => ?_⟩
    obtain ⟨rfl, rfl, rfl, rfl⟩ := metricAt_acme hat
    cases hx
    decide
  exact ⟨text, h, (acme.generateMib_links_iff (by decide) (by decide) h).1 ⟨hone, hdel, acme_linksUp⟩⟩

/-- The module's line is labelled `web-app`, and its metric's section hangs
from `webapp`. -/
theorem generateMib_webApp : (webApp.oidNames.length = webApp.enterprise.arcs.length ∧
      (webApp.oidNames.drop MIB_OID_COMMON_ROOT_COUNT).Nodup) ∧
    ∃ text, webApp.mibEngine.generateMib someDate webApp.enterprise.arcs webApp.oidNames = .ok text ∧
      ¬ webApp.MibLinks text := by
  obtain ⟨text, h⟩ := webApp.generateMib_ok someDate webApp_registered (by decide)
  obtain ⟨sections, hn, hd, rfl⟩ := generateMib_eq h
  refine ⟨by decide, _, h, fun hlinks => ?_⟩
  have hone : webApp.OneLine := ⟨nofun, by decide +kernel⟩
  have hup := ((mibLinks_textOf_iff (by decide) hn hd (by decide) hone).mp hlinks).2
  have hshown := (hup.module 1 "web-app".toList rfl (by decide)).shown
  exact absurd hshown (by decide +kernel)

end SnmpAgent

end Plethora
