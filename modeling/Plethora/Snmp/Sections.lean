/-
# Descriptors and object sections

The texts that the template's labels are replaced by. A descriptor is made of
letters and digits, is short enough and no keyword, and is its own descriptor
(`validDescriptor_closed`): a prefixed keyword is none, and is not cut, and
what is cut is too long to be one.

The description of a section is put in as it is, before the labels of its
parent and its id are replaced. So a section is the template with its labels
replaced at once, and is read back as what it was made of, exactly if the
description has no quotation mark and neither of the two labels
(`sectionOf_faithful_iff`).

Key definitions: `Template.IsDescriptor`, `ObjectSectionTransformer.sectionOf`, `readSection`,
`SectionFaithful`.
Key theorems: `Template.validDescriptor_closed`, `infix_prettyFormat`, `sectionOf_faithful_iff`.
-/
import Plethora.Common.Numerals
import Plethora.Lib.Reading
import Plethora.Snmp.Mib

namespace Plethora

open ItemReader Replace

/-! ### Descriptors -/

namespace Template

/-- What a label of the MIB may be. -/
structure IsDescriptor (t : Text) : Prop where
  alphanumeric : ∀ c ∈ t, c.isAlphanum = true
  short : t.length ≤ DESCRIPTOR_MAXLENGTH
  unreserved : ∀ key ∈ RESERVED_KEYWORD_ARRAY, equalsIgnoreCase t key.toList = false

/-- No keyword begins with the prefix, or is so long that a prefixed one is cut. -/
theorem keywords_apart : ∀ key ∈ RESERVED_KEYWORD_ARRAY, (COMMON_APPEND ++ key.toList).length < DESCRIPTOR_MAXLENGTH ∧
    (key.toList.map Char.toLower).take COMMON_APPEND.length ≠ COMMON_APPEND := by
  decide +kernel

theorem length_of_equalsIgnoreCase {s t : Text} (h : equalsIgnoreCase s t = true) : s.length = t.length := by
  have hmap := congrArg List.length (of_decide_eq_true h)
  rwa [List.length_map, List.length_map] at hmap

/-- A prefixed text is no keyword. -/
theorem prefixed_unreserved (t : Text) {key : String} (hkey : key ∈ RESERVED_KEYWORD_ARRAY) :
    equalsIgnoreCase (COMMON_APPEND ++ t) key.toList = false := by
  have happend : COMMON_APPEND.map Char.toLower = COMMON_APPEND := by decide
  refine decide_eq_false fun h => (keywords_apart key hkey).2 ?_
  rw [← h, List.map_append, happend, List.take_left]

theorem isDescriptor_prefixed {t : Text} (ht : ∀ c ∈ t, c.isAlphanum = true) {key : String}
    (hkey : key ∈ RESERVED_KEYWORD_ARRAY) (h : equalsIgnoreCase t key.toList = true) :
    (COMMON_APPEND ++ t).length ≤ DESCRIPTOR_MAXLENGTH ∧ IsDescriptor (COMMON_APPEND ++ t) := by
  have happend : ∀ c ∈ COMMON_APPEND, c.isAlphanum = true := by decide
  have hshort : (COMMON_APPEND ++ t).length ≤ DESCRIPTOR_MAXLENGTH := by
    rw [List.length_append, length_of_equalsIgnoreCase h, ← List.length_append]
    exact (keywords_apart key hkey).1.le
  exact ⟨hshort, List.forall_mem_append.mpr ⟨happend, ht⟩, hshort, fun key' hkey' => prefixed_unreserved t hkey'⟩

theorem isDescriptor_take {t : Text} (ht : ∀ c ∈ t, c.isAlphanum = true)
    (h : ∀ key ∈ RESERVED_KEYWORD_ARRAY, equalsIgnoreCase t key.toList = false) :
    IsDescriptor (t.take DESCRIPTOR_MAXLENGTH) where
  alphanumeric c hc := ht c (List.mem_of_mem_take hc)
  short := List.length_take_le ..
  unreserved key hkey := by
    by_cases hlen : t.length ≤ DESCRIPTOR_MAXLENGTH
    · rw [List.take_of_length_le hlen]
      exact h key hkey
    · -- what is cut is longer than every keyword
      by_contra htrue
      have heq := length_of_equalsIgnoreCase (Bool.not_eq_false _ ▸ htrue)
      have hkeyword := (keywords_apart key hkey).1
      rw [List.length_append] at hkeyword
      rw [List.length_take, Nat.min_eq_left (Nat.le_of_not_le hlen)] at heq
      omega

theorem isDescriptor_validDescriptor (s : Text) : IsDescriptor (validDescriptor s) := by
  have ht : ∀ c ∈ s.filter Char.isAlphanum, c.isAlphanum = true := fun c hc => (List.mem_filter.mp hc).2
  unfold validDescriptor
  by_cases h : (RESERVED_KEYWORD_ARRAY.any fun key => equalsIgnoreCase (s.filter Char.isAlphanum) key.toList) = true
  · obtain ⟨key, hkey, he⟩ := List.any_eq_true.mp h
    obtain ⟨hshort, hd⟩ := isDescriptor_prefixed ht hkey he
    simp only [h, if_true]
    rwa [List.take_of_length_le hshort]
  · simp only [h, Bool.false_eq_true, if_false]
    refine isDescriptor_take ht fun key hkey => ?_
    by_contra htrue
    exact h (List.any_eq_true.mpr ⟨key, hkey, Bool.not_eq_false _ ▸ htrue⟩)

theorem validDescriptor_of_isDescriptor {s : Text} (h : IsDescriptor s) : validDescriptor s = s := by
  have hfilter : s.filter Char.isAlphanum = s := List.filter_eq_self.mpr h.alphanumeric
  have hany : (RESERVED_KEYWORD_ARRAY.any fun key => equalsIgnoreCase s key.toList) = false :=
    List.any_eq_false.mpr fun key hkey => by
      rw [h.unreserved key hkey]
      exact Bool.false_ne_true
  unfold validDescriptor
  rw [hfilter]
  simp only [hany, Bool.false_eq_true, if_false]
  exact List.take_of_length_le h.short

/-- **A descriptor is valid, and its own descriptor.** -/
theorem validDescriptor_closed (s : Text) :
    IsDescriptor (validDescriptor s) ∧ validDescriptor (validDescriptor s) = validDescriptor s ∧
      (IsDescriptor s → validDescriptor s = s) :=
  ⟨isDescriptor_validDescriptor s, validDescriptor_of_isDescriptor (isDescriptor_validDescriptor s),
    validDescriptor_of_isDescriptor⟩

end Template

open Template

/-! ### Sections -/

namespace ObjectSectionTransformer

/-- The template after these calls, from `OBJECT_SECTION` on. -/
def sectionOf (name syntx description parent : Text) (id : Int32) : Text :=
  replace ID (toString id.toInt).toList
    (replace PARENT (validDescriptor parent)
      (replace DESCRIPTION (prettyFormat description)
        (replace SYNTAX syntx (replace NAME (validDescriptor name) OBJECT_SECTION))))

/-- It is what the MIB engine's sections are, whose ids count up from 1. -/
theorem transform_eq_sectionOf (name syntx description parent : Text) {id : ℕ} (h : id < 2 ^ 31) :
    transform name syntx description parent id = sectionOf name syntx description parent (Int32.ofNat id) := by
  have hid : (toString (Int32.ofNat id).toInt).toList = valueOf id := by
    rw [Int32.toInt_ofNat_of_lt h]
    exact Nat.toList_repr
  rw [sectionOf, hid]
  rfl

/-- What each label stands for. -/
def labelTexts (name syntx description parent : Text) (id : Int32) : List (Text × Text) :=
  [(NAME, validDescriptor name), (SYNTAX, syntx), (DESCRIPTION, prettyFormat description),
    (PARENT, validDescriptor parent), (ID, (toString id.toInt).toList)]

end ObjectSectionTransformer

open ObjectSectionTransformer

/-- What is read from an object section. -/
structure ObjectType where
  name : Text
  syntx : Text
  description : Text
  parent : Text
  id : ℤ
  deriving DecidableEq

def readInt : Text → ℤ
  | '-' :: t => -(Nat.ofDigitChars 10 t 0 : ℤ)
  | t => Nat.ofDigitChars 10 t 0

/-- The rest of a section, from inside the quotation marks on. -/
def readDescription (name syntx t : Text) : Option ObjectType := do
  let parentOn ← expect ASSIGNMENT (t.dropWhile (· ≠ '"'))
  let idOn ← expect " ".toList (parentOn.dropWhile Char.isAlphanum)
  let rest ← expect "\x7d\n\n".toList (idOn.dropWhile (· ≠ '\x7d'))
  if rest = [] then
    return {
      name, syntx
      description := t.takeWhile (· ≠ '"')
      parent := parentOn.takeWhile Char.isAlphanum
      id := readInt (idOn.takeWhile (· ≠ '\x7d')) }
  else none

/-- A section: letters and digits, a line of syntax, a text between quotation
marks, letters and digits, and a number, with the template's own text between. -/
def readSection (t : Text) : Option ObjectType := do
  let syntxOn ← expect OBJECT_TYPE (t.dropWhile Char.isAlphanum)
  let descriptionOn ← expect CLAUSES (syntxOn.dropWhile (· ≠ '\n'))
  readDescription (t.takeWhile Char.isAlphanum) (syntxOn.takeWhile (· ≠ '\n')) descriptionOn

/-- A section is the template with its labels replaced at once, and is read
back as what they stand for. -/
structure SectionFaithful (name syntx description parent : Text) (id : Int32) : Prop where
  simultaneous : sectionOf name syntx description parent id =
    fill (labelTexts name syntx description parent id) OBJECT_SECTION
  readBack : readSection (sectionOf name syntx description parent id) = some {
    name := validDescriptor name
    syntx
    description := prettyFormat description
    parent := validDescriptor parent
    id := id.toInt }

/-! ### The description -/

/-- Aligning a description touches line breaks only, and puts blanks for them:
a text of other characters begins it exactly if it did before. -/
theorem prefix_prettyFormat {p : Text} (hn : '\n' ∉ p) (hs : ' ' ∉ p) (d : Text) : p <+: prettyFormat d ↔ p <+: d := by
  cases p with
  | nil => exact iff_of_true List.nil_prefix List.nil_prefix
  | cons q p =>
    obtain ⟨hqn, hpn⟩ := not_or.mp (List.mem_cons.not.mp hn)
    obtain ⟨hqs, hps⟩ := not_or.mp (List.mem_cons.not.mp hs)
    unfold prettyFormat
    split
    · exact Iff.rfl
    · refine iff_of_false (fun h => ?_) fun h => hqn (List.cons_prefix_cons.mp h).1.symm
      split at h
      · exact hqn (List.cons_prefix_cons.mp h).1.symm
      · exact hqs (List.cons_prefix_cons.mp h).1.symm
    · exact iff_of_false (fun h => hqs (List.cons_prefix_cons.mp h).1.symm) fun h => hqn (List.cons_prefix_cons.mp h).1.symm
    · rw [List.cons_prefix_cons, List.cons_prefix_cons, prefix_prettyFormat hpn hps]

theorem infix_prettyFormat {p : Text} (hne : p ≠ []) (hn : '\n' ∉ p) (hs : ' ' ∉ p) :
    ∀ d : Text, p <:+: prettyFormat d ↔ p <:+: d := by
  have hblank : ∀ c ∈ ['\n', ' '], ∀ t : Text, ¬ p <+: c :: t := by
    intro c hc t h
    obtain ⟨q, p', rfl⟩ := List.exists_cons_of_ne_nil hne
    obtain rfl := (List.cons_prefix_cons.mp h).1
    rcases List.mem_cons.mp hc with rfl | hc
    · exact hn List.mem_cons_self
    · exact hs (List.mem_singleton.mp hc ▸ List.mem_cons_self)
  have hbreak : ∀ t : Text, ¬ p <+: '\n' :: t := hblank '\n' List.mem_cons_self
  have hspace : ∀ t : Text, ¬ p <+: ' ' :: t := hblank ' ' (List.mem_cons_of_mem _ List.mem_cons_self)
  intro d
  fun_induction prettyFormat d with
  | case1 => exact Iff.rfl
  | case2 rest h ih =>
    rw [List.infix_cons_iff, List.infix_cons_iff, ih, or_iff_right (hbreak _), or_iff_right (hbreak _)]
  | case3 rest h ih =>
    show p <:+: ' ' :: ' ' :: prettyFormat ('\n' :: rest) ↔ _
    rw [List.infix_cons_iff, List.infix_cons_iff, ih, @List.infix_cons_iff _ p '\n' ('\n' :: rest),
      or_iff_right (hspace _), or_iff_right (hspace _), or_iff_right (hbreak _)]
  | case4 rest h ih =>
    show p <:+: ' ' :: ' ' :: prettyFormat rest ↔ _
    rw [List.infix_cons_iff, List.infix_cons_iff, ih, @List.infix_cons_iff _ p '\n' rest,
      or_iff_right (hspace _), or_iff_right (hspace _), or_iff_right (hbreak _)]
  | case5 c rest h1 h2 ih =>
    have hcons : prettyFormat (c :: rest) = c :: prettyFormat rest := by
      rw [prettyFormat]
      · exact h1
      · exact h2
    rw [List.infix_cons_iff, List.infix_cons_iff, ih, ← hcons, prefix_prettyFormat hn hs]

/-! ### Reading a section back -/

/-- A descriptor, up to a character that is neither a letter nor a digit. -/
theorem span_validDescriptor (value : Text) {c : Char} (hc : c.isAlphanum = false) (t : Text) :
    (validDescriptor value ++ c :: t).takeWhile Char.isAlphanum = validDescriptor value ∧
      (validDescriptor value ++ c :: t).dropWhile Char.isAlphanum = c :: t := by
  have hall : ∀ d ∈ validDescriptor value, d.isAlphanum = true := fun d hd => isAlphanum_of_mem_validDescriptor hd
  have hc' : ¬ c.isAlphanum = true := by
    rw [hc]
    exact Bool.false_ne_true
  rw [List.takeWhile_append_of_pos hall, List.dropWhile_append_of_pos hall, List.takeWhile_cons_of_neg hc',
    List.dropWhile_cons_of_neg hc', List.append_nil]
  exact ⟨rfl, rfl⟩

theorem readInt_toString (n : ℤ) : readInt (toString n).toList = n := by
  rw [toList_toString]
  by_cases hn : n < 0
  · rw [if_pos hn]
    show -(Nat.ofDigitChars 10 (Nat.toDigits 10 n.natAbs) 0 : ℤ) = n
    rw [Nat.ofDigitChars_ten_toDigits]
    omega
  · rw [if_neg hn, List.nil_append]
    have hread : readInt (Nat.toDigits 10 n.natAbs) = Nat.ofDigitChars 10 (Nat.toDigits 10 n.natAbs) 0 := by
      unfold readInt
      split
      · rename_i t ht
        have hmem : '-' ∈ Nat.toDigits 10 n.natAbs := by
          rw [ht]
          exact List.mem_cons_self
        exact absurd (Nat.isDigit_of_mem_toDigits (by decide) (by decide) hmem) (by decide)
      · rfl
    rw [hread, Nat.ofDigitChars_ten_toDigits]
    omega

theorem readSection_sectionStart {syntx : Text} (hs : '\n' ∉ syntx) (name t : Text) :
    readSection (sectionStart name syntx ++ t) = readDescription (validDescriptor name) syntx t := by
  obtain ⟨htake, hdrop⟩ := span_validDescriptor name (c := ' ') rfl
    ("OBJECT-TYPE\n  SYNTAX  ".toList ++ (syntx ++ (CLAUSES ++ t)))
  have hstart : sectionStart name syntx ++ t =
      validDescriptor name ++ ' ' :: ("OBJECT-TYPE\n  SYNTAX  ".toList ++ (syntx ++ (CLAUSES ++ t))) := by
    rw [sectionStart, List.append_assoc, List.append_assoc, List.append_assoc]
    rfl
  have hclauses : CLAUSES ++ t = '\n' :: (CLAUSES.tail ++ t) := rfl
  rw [readSection, hstart, htake, hdrop]
  show (expect OBJECT_TYPE (OBJECT_TYPE ++ (syntx ++ (CLAUSES ++ t)))).bind _ = _
  rw [expect_append, Option.bind_some, hclauses, Pieces.dropWhile_append_cons hs, Pieces.takeWhile_append_cons hs,
    ← hclauses, expect_append]
  rfl

theorem readDescription_eq {d : Text} (hd : '"' ∉ d) (name syntx parent : Text) (id : ℤ) :
    readDescription name syntx (d ++ (ASSIGNMENT ++ (validDescriptor parent ++ (" ".toList ++
      ((toString id).toList ++ "\x7d\n\n".toList))))) =
      some { name, syntx, description := d, parent := validDescriptor parent, id } := by
  have hbrace : '\x7d' ∉ (toString id).toList := by
    intro h
    rcases mem_toString h with hc | hc
    · cases hc
    · cases hc
  have hend : "\x7d\n\n".toList = '\x7d' :: "\n\n".toList := rfl
  obtain ⟨htake, hdrop⟩ := span_validDescriptor parent (c := ' ') rfl ((toString id).toList ++ "\x7d\n\n".toList)
  have hassignment : ∀ t, ASSIGNMENT ++ t = '"' :: (ASSIGNMENT.tail ++ t) := fun t => rfl
  rw [readDescription, hassignment, Pieces.dropWhile_append_cons hd, Pieces.takeWhile_append_cons hd, ← hassignment,
    expect_append]
  show (expect " ".toList (List.dropWhile Char.isAlphanum (validDescriptor parent ++ ' ' ::
    ((toString id).toList ++ "\x7d\n\n".toList)))).bind _ = _
  rw [hdrop]
  show (expect "\x7d\n\n".toList (((toString id).toList ++ "\x7d\n\n".toList).dropWhile (· ≠ '\x7d'))).bind _ = _
  rw [hend, Pieces.dropWhile_append_cons hbrace]
  show some (ObjectType.mk name syntx d
    ((validDescriptor parent ++ ' ' :: ((toString id).toList ++ "\x7d\n\n".toList)).takeWhile Char.isAlphanum)
    (readInt (((toString id).toList ++ '\x7d' :: "\n\n".toList).takeWhile (· ≠ '\x7d')))) = _
  rw [htake, Pieces.takeWhile_append_cons hbrace, readInt_toString]

/-- What is between the quotation marks has none. -/
theorem description_of_readDescription {name syntx t : Text} {o : ObjectType} (h : readDescription name syntx t = some o) :
    '"' ∉ o.description := by
  obtain ⟨parentOn, -, h⟩ := Option.bind_eq_some_iff.mp h
  obtain ⟨idOn, -, h⟩ := Option.bind_eq_some_iff.mp h
  obtain ⟨rest, -, h⟩ := Option.bind_eq_some_iff.mp h
  obtain ⟨-, h⟩ := Option.ite_none_right_eq_some.mp h
  rw [← Option.some.inj h]
  intro hm
  exact absurd (List.mem_takeWhile_imp hm) (by decide)

/-! ### When a section is faithful -/

section Faithful

variable {syntx : Text} (name description parent : Text) (id : Int32)

/-- The template with its labels replaced at once. -/
theorem fill_section : fill (labelTexts name syntx description parent id) OBJECT_SECTION =
    sectionStart name syntx ++ (prettyFormat description ++ (ASSIGNMENT ++
      (validDescriptor parent ++ (" ".toList ++ ((toString id.toInt).toList ++ "\x7d\n\n".toList))))) := by
  have hkeys : (labelTexts name syntx description parent id).map (·.1) = [NAME, SYNTAX, DESCRIPTION, PARENT, ID] := rfl
  have hhead : ∀ l ∈ (labelTexts name syntx description parent id).map (·.1), l.head? = some '<' := by
    rw [hkeys]
    decide
  have hapart : ∀ l ∈ (labelTexts name syntx description parent id).map (·.1),
      ∀ l' ∈ (labelTexts name syntx description parent id).map (·.1), l <+: l' → l = l' := by
    rw [hkeys]
    decide
  have hnodup : ((labelTexts name syntx description parent id).map (·.1)).Nodup := by
    rw [hkeys]
    decide
  have hlabel {l r : Text} (h : (l, r) ∈ labelTexts name syntx description parent id) (t : Text) :=
    fill_label hhead hapart hnodup h t
  have htext {s : Text} (h : '<' ∉ s) (t : Text) := fill_append_of_not_mem hhead h t
  have hend : fill (labelTexts name syntx description parent id) "\x7d\n\n".toList = "\x7d\n\n".toList := rfl
  rw [OBJECT_SECTION, SECTION_END, hlabel (.head _), htext (by decide), hlabel (.tail _ (.head _)), htext (by decide),
    hlabel (.tail _ (.tail _ (.head _))), htext (by decide), hlabel (.tail _ (.tail _ (.tail _ (.head _)))),
    htext (by decide), hlabel (.tail _ (.tail _ (.tail _ (.tail _ (.head _))))), hend, sectionStart, List.append_assoc,
    List.append_assoc, List.append_assoc]

variable {description}

/-- Nothing is replaced in a description exactly if it has neither label. -/
theorem replaced_iff {d i : Text} (hi : '<' ∉ i) :
    replace ID i (replace PARENT (validDescriptor parent) d) = d ↔ ¬ PARENT <:+: d ∧ ¬ ID <:+: d := by
  have hparent := not_mem_validDescriptor parent
  constructor
  · intro h
    have hno : ¬ PARENT <:+: d := by
      -- a label less has a bracket less, and no bracket comes in
      intro hin
      have hlt := count_replace_lt (p := '<') hparent rfl hin
      have hle : (replace ID i (replace PARENT (validDescriptor parent) d)).count '<' ≤
          (replace PARENT (validDescriptor parent) d).count '<' := count_replace_le hi _
      rw [h] at hle
      exact absurd hle (Nat.not_le_of_lt hlt)
    rw [replace_of_no_occurrence hno] at h
    exact ⟨hno, (replace_eq_self_iff (p := '<') hi rfl).mp h⟩
  · rintro ⟨hp, hd⟩
    rw [replace_of_no_occurrence hp, replace_of_no_occurrence hd]

/-- **A section is the template filled in at once and is read back, exactly if
its description has no quotation mark and no label that is replaced later.** -/
theorem sectionOf_faithful_iff {type : MetricType} (h : MIBEngine.getSyntaxByType type = some syntx) :
    SectionFaithful name syntx description parent id ↔
      '"' ∉ description ∧ ¬ PARENT <:+: description ∧ ¬ ID <:+: description := by
  obtain ⟨hbracket, hline⟩ := MIBEngine.syntax_plain h
  have hid : '<' ∉ (toString id.toInt).toList := by
    intro hm
    rcases mem_toString hm with hc | hc
    · cases hc
    · cases hc
  have hsection := replaceSection_eq hbracket name (prettyFormat description) parent (toString id.toInt).toList
  have hfill := @fill_section syntx name description parent id
  have hquote : '"' ∈ description ↔ '"' ∈ prettyFormat description := by
    have hin := infix_prettyFormat (p := ['"']) (by decide) (by decide) (by decide) description
    rw [List.singleton_infix_iff, List.singleton_infix_iff] at hin
    exact hin.symm
  have hlabels : (¬ PARENT <:+: prettyFormat description ∧ ¬ ID <:+: prettyFormat description) ↔
      ¬ PARENT <:+: description ∧ ¬ ID <:+: description := by
    rw [infix_prettyFormat (by decide) (by decide) (by decide), infix_prettyFormat (by decide) (by decide) (by decide)]
  rw [← hlabels, ← replaced_iff parent hid, hquote]
  constructor
  · rintro ⟨hsimultaneous, hread⟩
    have hshown := hsimultaneous
    rw [sectionOf, hsection, hfill] at hshown
    have hdescription := List.append_cancel_right (List.append_cancel_left hshown)
    rw [hsimultaneous, hfill, readSection_sectionStart hline] at hread
    exact ⟨description_of_readDescription hread, hdescription⟩
  · rintro ⟨hd, hshown⟩
    have hsimultaneous : sectionOf name syntx description parent id =
        fill (labelTexts name syntx description parent id) OBJECT_SECTION := by
      rw [sectionOf, hsection, hfill, hshown]
    refine ⟨hsimultaneous, ?_⟩
    rw [hsimultaneous, hfill, readSection_sectionStart hline, readDescription_eq hd]

end Faithful

/-- A description of several lines. -/
theorem sectionOf_faithful_lines :
    SectionFaithful "free_memory".toList "INTEGER".toList "Free memory\nof the <NAME>".toList "jvm".toList 2 :=
  (@sectionOf_faithful_iff _ _ _ _ 2 .number rfl).mpr (by decide)

/-- One metric's description puts a parent of its own in its section, and
another's ends at its first quotation mark. -/
theorem not_sectionOf_faithful : ¬ (∀ (type : MetricType) (name syntx description parent : Text) (id : Int32),
      MIBEngine.getSyntaxByType type = some syntx → SectionFaithful name syntx description parent id) ∧
    (readSection (sectionOf "load".toList "INTEGER".toList "below <PARENT>".toList "jvm".toList 1)).map
      (·.description) = some "below jvm".toList ∧
    readSection (sectionOf "load".toList "INTEGER".toList "the \"load\"".toList "jvm".toList 1) = none := by
  have hread : (readSection (sectionOf "load".toList "INTEGER".toList "below <PARENT>".toList "jvm".toList 1)).map
      (·.description) = some "below jvm".toList := by decide +kernel
  refine ⟨fun h => ?_, hread, by decide +kernel⟩
  have hback := (h .number "load".toList "INTEGER".toList "below <PARENT>".toList "jvm".toList 1 rfl).readBack
  rw [hback] at hread
  exact absurd (Option.some.inj hread) (by decide)

end Plethora
