/-
# The MIB template

`Template`, `Transformer` and `ObjectSectionTransformer`: the lines and
sections of the MIB are templates whose labels in angle brackets are replaced,
one after the other, by the texts they stand for. Lines end in a newline, as
`line.separator` has it.

A replaced text that itself holds a later label has that one replaced too, so
what a line shows is not always what it was given: `transformOidLine_eq` and
`transformSection_eq` say what it does show. The label of an OID line is the
raw name; the labels of a section are descriptors, letters and digits only.

Key definitions: `Template.validDescriptor`, `Transformer.transformOidLine`,
`ObjectSectionTransformer.transform`, `oidLabel`, `oidParent`.
Key theorems: `transformOidLine_eq`, `transformSection_eq`.
-/
import Plethora.Lib.Replace
import Plethora.Common.Metric

namespace Plethora

open Replace

namespace Template

def EOL : Text := "\n".toList

def TAB_SIZE : ℕ := 2

def NAME : Text := "<NAME>".toList

def DATE : Text := "<DATE>".toList

def URL : Text := "<URL>".toList

def PARENT : Text := "<PARENT>".toList

def ID : Text := "<ID>".toList

def SYNTAX : Text := "<SYNTAX>".toList

def DESCRIPTION : Text := "<DESCRIPTION>".toList

def HEADER_SECTION : Text :=
  "--- Management Information Base for SNMP Network Management\n".toList ++
    ("--- Dynamically generated by Plethora agent at ".toList ++ (DATE ++
      ("\n--- Please make sure to use the latest version ".toList ++ (URL ++ ("\n".toList ++
        (NAME ++ ("-MIB DEFINITIONS ::= BEGIN\n\nIMPORTS\n  enterprises FROM RFC1155-SMI\n".toList ++
          "  OBJECT-TYPE FROM RFC-1212\n  DisplayString FROM RFC1213-MIB;\n\n".toList)))))))

/-- The OID line between its name and its parent. -/
def IDENTIFIER : Text := "\tOBJECT IDENTIFIER ::= \x7b".toList

def OID_LINE : Text := NAME ++ (IDENTIFIER ++ (PARENT ++ (" ".toList ++ (ID ++ "\x7d\n".toList))))

/-- The object section between its name and its syntax. -/
def OBJECT_TYPE : Text := " OBJECT-TYPE\n  SYNTAX  ".toList

/-- The clauses between its syntax and its description. -/
def CLAUSES : Text := "\n  ACCESS  read-only\n  STATUS  mandatory\n  DESCRIPTION\n    \"".toList

/-- What is between its description and its parent. -/
def ASSIGNMENT : Text := "\"\n  ::= \x7b".toList

def SECTION_END : Text := ASSIGNMENT ++ (PARENT ++ (" ".toList ++ (ID ++ "\x7d\n\n".toList)))

def OBJECT_SECTION : Text :=
  NAME ++ (OBJECT_TYPE ++ (SYNTAX ++ (CLAUSES ++ (DESCRIPTION ++ SECTION_END))))

def END_LINE : Text := "END\n".toList

/-- As defined by RFC 2578 Section 3.7. -/
def RESERVED_KEYWORD_ARRAY : List String :=
  ["ABSENT", "ACCESS", "AGENT-CAPABILITIES", "ANY", "APPLICATION", "AUGMENTS", "BEGIN", "BIT", "BITS", "BOOLEAN",
    "BY", "CHOICE", "COMPONENT", "COMPONENTS", "CONTACT-INFO", "CREATION-REQUIRES", "Counter32", "Counter64",
    "DEFAULT", "DEFINED", "DEFINITIONS", "DEFVAL", "DESCRIPTION", "DISPLAY-HINT", "END", "ENUMERATED",
    "ENTERPRISE", "EXPLICIT", "EXPORTS", "EXTERNAL", "FALSE", "FROM", "GROUP", "Gauge32", "IDENTIFIER",
    "IMPLICIT", "IMPLIED", "IMPORTS", "INCLUDES", "INDEX", "INTEGER", "Integer32", "IpAddress", "LAST-UPDATED",
    "MANDATORY-GROUPS", "MAX", "MAX-ACCESS", "MIN", "MIN-ACCESS", "MINUS-INFINITY", "MODULE",
    "MODULE-COMPLIANCE", "MODULE-IDENTITY", "NOTIFICATION-GROUP", "NOTIFICATION-TYPE", "NOTIFICATIONS", "NULL",
    "OBJECT", "OBJECT-GROUP", "OBJECT-IDENTITY", "OBJECT-TYPE", "OBJECTS", "OCTET", "OF", "OPTIONAL",
    "ORGANIZATION", "Opaque", "PLUS-INFINITY", "PRESENT", "PRIVATE", "PRODUCT-RELEASE", "REAL", "REFERENCE",
    "REVISION", "SEQUENCE", "SET", "SIZE", "STATUS", "STRING", "SUPPORTS", "SYNTAX", "TAGS",
    "TEXTUAL-CONVENTION", "TRAP-TYPE", "TRUE", "TimeTicks", "UNITS", "UNIVERSAL", "Unsigned32", "VARIABLES",
    "VARIATION", "WITH", "WRITE-SYNTAX"]

def COMMON_APPEND : Text := "metric".toList

def DESCRIPTOR_MAXLENGTH : ℕ := 64

/-- Of two texts of ASCII characters. -/
def equalsIgnoreCase (s t : Text) : Bool := s.map Char.toLower = t.map Char.toLower

def validDescriptor (value : Text) : Text :=
  let alphaNumericOnly := value.filter Char.isAlphanum
  let descriptor :=
    if RESERVED_KEYWORD_ARRAY.any fun key => equalsIgnoreCase alphaNumericOnly key.toList then
      COMMON_APPEND ++ alphaNumericOnly
    else alphaNumericOnly
  descriptor.take DESCRIPTOR_MAXLENGTH

/-- A descriptor is made of letters and digits. -/
theorem isAlphanum_of_mem_validDescriptor {value : Text} {c : Char} (h : c ∈ validDescriptor value) :
    c.isAlphanum = true := by
  unfold validDescriptor at h
  have h := List.mem_of_mem_take h
  have ha : ∀ c ∈ COMMON_APPEND, c.isAlphanum = true := List.all_eq_true.mp (by decide)
  have hf : ∀ c ∈ value.filter Char.isAlphanum, c.isAlphanum = true := fun c hc => (List.mem_filter.mp hc).2
  split at h
  · rcases List.mem_append.mp h with h | h
    · exact ha c h
    · exact hf c h
  · exact hf c h

end Template

/-- `String.valueOf(id)`. -/
def valueOf (id : ℕ) : Text := Nat.toDigits 10 id

namespace Transformer

/-- The header, with the date it is made at. -/
def transformHeaderSection (name date : Text) (url : Option Text) : Text :=
  let urlMessage :=
    match url with
    | none => []
    | some url => "at ".toList ++ url
  replace Template.URL urlMessage
    (replace Template.DATE date
      (replace Template.NAME ((Template.validDescriptor name).map Char.toUpper) Template.HEADER_SECTION))

def transformOidLine (name parent : Text) (id : ℕ) : Text :=
  replace Template.ID (valueOf id)
    (replace Template.PARENT parent (replace Template.NAME name Template.OID_LINE))

end Transformer

namespace ObjectSectionTransformer

/-- Whether `$` matches at the front of what is left: at the end, or before
the last line terminator. -/
def atEnd (rest : Text) : Bool :=
  rest = [] || ["\n", "\r\n", "\r", "\u0085", "\u2028", "\u2029"].any fun t => rest = t.toList

/-- `description.replaceAll("\n(?!\n$)", offset)`. -/
def prettyFormat : Text → Text
  | [] => []
  | '\n' :: '\n' :: rest =>
    if atEnd rest then '\n' :: prettyFormat ('\n' :: rest)
    else List.replicate Template.TAB_SIZE ' ' ++ prettyFormat ('\n' :: rest)
  | '\n' :: rest => List.replicate Template.TAB_SIZE ' ' ++ prettyFormat rest
  | c :: rest => c :: prettyFormat rest

/-- The calls `name`, `synatx`, `description`, `parent` and `id`, then
`transform`. -/
def transform (name syntx description parent : Text) (id : ℕ) : Text :=
  replace Template.ID (valueOf id)
    (replace Template.PARENT (Template.validDescriptor parent)
      (replace Template.DESCRIPTION (prettyFormat description)
        (replace Template.SYNTAX syntx
          (replace Template.NAME (Template.validDescriptor name) Template.OBJECT_SECTION))))

end ObjectSectionTransformer

/-! ### What a line shows -/

open Template

def labels : List Text := [NAME, PARENT, ID, SYNTAX, DESCRIPTION]

theorem label_head : ∀ l ∈ labels, l.head? = some '<' ∧ '<' ∉ l.tail ∧ l ≠ [] := by decide

theorem labels_apart : ∀ l ∈ labels, ∀ l' ∈ labels, l ≠ l' → ¬ l <+: l' := by decide

section Labels

variable {l : Text} (hl : l ∈ labels)
include hl

/-- What holds no label is left as it is. -/
theorem inert_text {s : Text} (h : '<' ∉ s) : Inert l s := inert_of_not_mem (label_head l hl).1 h

theorem inert_other {l' : Text} (hl' : l' ∈ labels) (h : l ≠ l') : Inert l l' :=
  inert_label (label_head l hl).1 (label_head l' hl').1 (label_head l' hl').2.1 (labels_apart l hl l' hl' h)
    (labels_apart l' hl' l hl (Ne.symm h))

end Labels

theorem not_mem_validDescriptor (value : Text) : '<' ∉ validDescriptor value :=
  fun h => absurd (isAlphanum_of_mem_validDescriptor h) (by decide)

/-- The label an OID line defines: in the name, the later labels are replaced
too. -/
def oidLabel (name parent : Text) (id : ℕ) : Text := replace ID (valueOf id) (replace PARENT parent name)

/-- The label it hangs from. -/
def oidParent (parent : Text) (id : ℕ) : Text := replace ID (valueOf id) parent

theorem transformOidLine_eq (name parent : Text) (id : ℕ) : Transformer.transformOidLine name parent id =
    oidLabel name parent id ++ (IDENTIFIER ++ (oidParent parent id ++ (" ".toList ++
      (valueOf id ++ "\x7d\n".toList)))) := by
  have hN : NAME ∈ labels := by decide
  have hP : PARENT ∈ labels := by decide
  have hI : ID ∈ labels := by decide
  have hR : '<' ∉ IDENTIFIER := by decide
  have hS : '<' ∉ " ".toList := by decide
  have hE : '<' ∉ "\x7d\n".toList := by decide
  have h1 : replace NAME name OID_LINE =
      name ++ (IDENTIFIER ++ (PARENT ++ (" ".toList ++ (ID ++ "\x7d\n".toList)))) :=
    replace_fill (label_head _ hN).2.2 inert_nil ((inert_text hN hR).append ((inert_other hN hP (by decide)).append
      ((inert_text hN hS).append ((inert_other hN hI (by decide)).append (inert_text hN hE)))))
  rw [Transformer.transformOidLine, h1, replace_append_text (c := '\t') rfl (by decide) (label_head _ hP).2.2,
    replace_fill (label_head _ hP).2.2 (inert_text hP hR)
      ((inert_text hP hS).append ((inert_other hP hI (by decide)).append (inert_text hP hE))),
    replace_append_text (c := '\t') rfl (by decide) (label_head _ hI).2.2, inert_text hI hR,
    replace_append_text (c := ' ') rfl (by decide) (label_head _ hI).2.2,
    replace_fill (label_head _ hI).2.2 (inert_text hI hS) (inert_text hI hE)]
  rfl

/-- A section up to its description. -/
def sectionStart (name syntx : Text) : Text := validDescriptor name ++ (OBJECT_TYPE ++ (syntx ++ CLAUSES))

/-- The description a section shows. -/
def shownDescription (description parent : Text) (id : ℕ) : Text :=
  replace ID (valueOf id)
    (replace PARENT (validDescriptor parent) (ObjectSectionTransformer.prettyFormat description))

/-- The end of a section holds the parent and the id, and no other label. -/
theorem inert_sectionEnd {l : Text} (hl : l ∈ labels) (hp : l ≠ PARENT) (hi : l ≠ ID) : Inert l SECTION_END :=
  (inert_text hl (by decide)).append ((inert_other hl (by decide) hp).append ((inert_text hl (by decide)).append
    ((inert_other hl (by decide) hi).append (inert_text hl (by decide)))))

/-- What the labels of a section, replaced in this order, make of it. -/
theorem replaceSection_eq {syntx : Text} (hs : '<' ∉ syntx) (name description parent id : Text) :
    replace ID id (replace PARENT (validDescriptor parent) (replace DESCRIPTION description
      (replace SYNTAX syntx (replace NAME (validDescriptor name) OBJECT_SECTION)))) =
      sectionStart name syntx ++ (replace ID id (replace PARENT (validDescriptor parent) description) ++ (ASSIGNMENT ++
        (validDescriptor parent ++ (" ".toList ++ (id ++ "\x7d\n\n".toList))))) := by
  have hN : NAME ∈ labels := by decide
  have hY : SYNTAX ∈ labels := by decide
  have hD : DESCRIPTION ∈ labels := by decide
  have hP : PARENT ∈ labels := by decide
  have hI : ID ∈ labels := by decide
  have hO : '<' ∉ OBJECT_TYPE := by decide
  have hC : '<' ∉ CLAUSES := by decide
  have hA : '<' ∉ ASSIGNMENT := by decide
  have hS : '<' ∉ " ".toList := by decide
  have hE : '<' ∉ "\x7d\n\n".toList := by decide
  have hd := not_mem_validDescriptor name
  have hstart : '<' ∉ sectionStart name syntx := by
    simp [sectionStart, hd, hO, hs, hC]
  have h1 : replace NAME (validDescriptor name) OBJECT_SECTION =
      validDescriptor name ++ (OBJECT_TYPE ++ (SYNTAX ++ (CLAUSES ++ (DESCRIPTION ++ SECTION_END)))) :=
    replace_fill (label_head _ hN).2.2 inert_nil ((inert_text hN hO).append ((inert_other hN hY (by decide)).append
      ((inert_text hN hC).append ((inert_other hN hD (by decide)).append
        (inert_sectionEnd hN (by decide) (by decide))))))
  have h2 : replace SYNTAX syntx
      (validDescriptor name ++ (OBJECT_TYPE ++ (SYNTAX ++ (CLAUSES ++ (DESCRIPTION ++ SECTION_END))))) =
      sectionStart name syntx ++ (DESCRIPTION ++ SECTION_END) := by
    rw [← List.append_assoc, replace_fill (label_head _ hY).2.2 ((inert_text hY hd).append (inert_text hY hO))
      ((inert_text hY hC).append ((inert_other hY hD (by decide)).append
        (inert_sectionEnd hY (by decide) (by decide)))), sectionStart]
    simp only [List.append_assoc]
  have h3 : replace PARENT (validDescriptor parent) SECTION_END =
      ASSIGNMENT ++ (validDescriptor parent ++ (" ".toList ++ (ID ++ "\x7d\n\n".toList))) :=
    replace_fill (label_head _ hP).2.2 (inert_text hP hA)
      ((inert_text hP hS).append ((inert_other hP hI (by decide)).append (inert_text hP hE)))
  have h4 (d : Text) : replace PARENT (validDescriptor parent) (d ++ SECTION_END) =
      replace PARENT (validDescriptor parent) d ++ replace PARENT (validDescriptor parent) SECTION_END :=
    replace_append_text (u := ASSIGNMENT) (c := '"') rfl (by decide) (label_head _ hP).2.2 _ _
  rw [h1, h2, replace_fill (label_head _ hD).2.2 (inert_text hD hstart)
      (inert_sectionEnd hD (by decide) (by decide)), inert_text hP hstart, h4, h3, inert_text hI hstart,
    replace_append_text (c := '"') rfl (by decide) (label_head _ hI).2.2, inert_text hI hA,
    inert_text hI (not_mem_validDescriptor parent), replace_fill (label_head _ hI).2.2 (inert_text hI hS)
      (inert_text hI hE)]

theorem transformSection_eq {syntx : Text} (hs : '<' ∉ syntx) (name description parent : Text) (id : ℕ) :
    ObjectSectionTransformer.transform name syntx description parent id =
      sectionStart name syntx ++ (shownDescription description parent id ++ (ASSIGNMENT ++
        (validDescriptor parent ++ (" ".toList ++ (valueOf id ++ "\x7d\n\n".toList))))) :=
  replaceSection_eq hs name (ObjectSectionTransformer.prettyFormat description) parent (valueOf id)

end Plethora
