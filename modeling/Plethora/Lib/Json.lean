/-
# Reading JSON, and printing it without escapes

A reader of JSON texts by the grammar of the format. What it leaves open is
which characters a string may not hold as they are, `refused`. An object that
names a member twice is refused.

What a printer puts between quotation marks as it is, is read back exactly if
every text is plain: no quotation mark, no backslash and no refused character
(`document_printed`, `plain_of_document`). A quotation mark ends the string
within the text, an escape makes it shorter, and a backslash before the
quotation mark after the text makes the string go on to the next one, where no
comma and no brace follows (`scan_append`).

Key definitions: `scan`, `value`, `document`, `Plain`, `Layout.object`.
Key theorems: `scan_append`, `Layout.document_printed`, `Layout.plain_of_document`.
-/
import Plethora.Lib.PropertiesFile

namespace Json

open PropertiesFile (unicode ofUnits)

inductive Value
  | null
  | bool (value : Bool)
  | number (digits : List Char)
  | string (value : List Char)
  | array (items : List Value)
  | object (members : List (List Char × Value))

abbrev Member := List Char × Value

/-! ### The reader -/

/-- White space between the tokens. -/
def isBlank (c : Char) : Bool := c = ' ' || c = '\t' || c = '\n' || c = '\r'

def skip (t : List Char) : List Char := t.dropWhile isBlank

/-- The code unit for the character after a backslash. -/
def escape (c : Char) : Option ℕ :=
  if c = '"' ∨ c = '\\' ∨ c = '/' then some c.toNat
  else if c = 'b' then some 8
  else if c = 'f' then some 12
  else if c = 'n' then some 10
  else if c = 'r' then some 13
  else if c = 't' then some 9
  else none

/-- The fraction of a number, if there is one: what is left after it. -/
def fraction : List Char → Option (List Char)
  | '.' :: t => if t.head?.any Char.isDigit then some (t.dropWhile Char.isDigit) else none
  | t => some t

/-- The digits of an exponent after its sign. -/
def exponentDigits (t : List Char) : Option (List Char) :=
  if t.head?.any Char.isDigit then some (t.dropWhile Char.isDigit) else none

def exponent : List Char → Option (List Char)
  | c :: t =>
    if c = 'e' ∨ c = 'E' then
      match t with
      | '+' :: t => exponentDigits t
      | '-' :: t => exponentDigits t
      | t => exponentDigits t
    else some (c :: t)
  | [] => some []

def integer : List Char → Option (List Char)
  | '0' :: t => some t
  | c :: t => if c.isDigit then some (t.dropWhile Char.isDigit) else none
  | [] => none

/-- What is left after a number. -/
def number (t : List Char) : Option (List Char) :=
  let unsigned := match t with
    | '-' :: t => t
    | t => t
  ((integer unsigned).bind fraction).bind exponent

/-- A value that is no string, array or object, and what is left after it. -/
def literal : List Char → Option (Value × List Char)
  | 't' :: 'r' :: 'u' :: 'e' :: t => some (.bool true, t)
  | 'f' :: 'a' :: 'l' :: 's' :: 'e' :: t => some (.bool false, t)
  | 'n' :: 'u' :: 'l' :: 'l' :: t => some (.null, t)
  | t => (number t).map fun rest => (.number (t.take (t.length - rest.length)), rest)

variable (refused : Char → Bool)

/-- The code units of a string after its quotation mark, and what is left
after it. A character that is not escaped is a unit of its own. -/
def scan : List Char → Option (List ℕ × List Char)
  | [] => none
  | '"' :: t => some ([], t)
  | '\\' :: 'u' :: a :: b :: c :: d :: t => do
    let n ← unicode a b c d
    let (s, rest) ← scan t
    pure (n :: s, rest)
  | '\\' :: c :: t => do
    let n ← escape c
    let (s, rest) ← scan t
    pure (n :: s, rest)
  | c :: t =>
    if c = '\\' ∨ refused c = true then none
    else do
      let (s, rest) ← scan t
      pure (c.toNat :: s, rest)

/-- After a member: a comma and the further members, or the end. -/
def andMembers (m : Member) (members : List Char → Option (List Member × List Char)) (t : List Char) :
    Option (List Member × List Char) :=
  match skip t with
  | ',' :: t => do
    let (ms, rest) ← members t
    if (ms.lookup m.1).isSome then none else pure (m :: ms, rest)
  | '}' :: t => some ([m], t)
  | _ => none

/-- After an item: a comma and the further items, or the end. -/
def andItems (v : Value) (items : List Char → Option (List Value × List Char)) (t : List Char) :
    Option (List Value × List Char) :=
  match skip t with
  | ',' :: t => do
    let (vs, rest) ← items t
    pure (v :: vs, rest)
  | ']' :: t => some ([v], t)
  | _ => none

mutual

/-- A value, and what is left after it; `fuel` bounds how far it is read. -/
def value : ℕ → List Char → Option (Value × List Char)
  | 0, _ => none
  | fuel + 1, t =>
    match skip t with
    | '"' :: t => (scan refused t).map fun p => (.string (ofUnits p.1), p.2)
    | '{' :: t =>
      match skip t with
      | '}' :: t => some (.object [], t)
      | t => (members fuel t).map fun p => (.object p.1, p.2)
    | '[' :: t =>
      match skip t with
      | ']' :: t => some (.array [], t)
      | t => (items fuel t).map fun p => (.array p.1, p.2)
    | t => literal t

/-- The members of an object that has any. -/
def members : ℕ → List Char → Option (List Member × List Char)
  | 0, _ => none
  | fuel + 1, t =>
    match skip t with
    | '"' :: t => do
      let (name, t) ← scan refused t
      match skip t with
      | ':' :: t => do
        let (v, t) ← value fuel t
        andMembers (ofUnits name, v) (members fuel) t
      | _ => none
    | _ => none

/-- The items of an array that has any. -/
def items : ℕ → List Char → Option (List Value × List Char)
  | 0, _ => none
  | fuel + 1, t => do
    let (v, t) ← value fuel t
    andItems v (items fuel) t

end

/-- The members of the object that a text is. -/
def document (t : List Char) : Option (List Member) :=
  match value refused (t.length + 1) t with
  | some (.object ms, rest) => if skip rest = [] then some ms else none
  | _ => none

/-- The member of this name of the object that a text is. -/
def member (t name : List Char) : Option Value := (document refused t).bind (·.lookup name)

variable {refused}

theorem literal_ne_object {t : List Char} {ms : List Member} {rest : List Char} :
    literal t ≠ some (.object ms, rest) := by
  unfold literal
  split
  · rintro ⟨⟩
  · rintro ⟨⟩
  · rintro ⟨⟩
  · intro h
    obtain ⟨_, -, he⟩ := Option.map_eq_some_iff.mp h
    cases he

/-- Only what starts with a brace is an object. -/
theorem document_eq_none {t u : List Char} {c : Char} (h : skip t = c :: u) (hc : c ≠ '{') :
    document refused t = none := by
  have hvalue : ∀ ms rest, value refused (t.length + 1) t ≠ some (.object ms, rest) := by
    intro ms rest
    simp only [value, h]
    split
    · intro hv
      obtain ⟨_, -, he⟩ := Option.map_eq_some_iff.mp hv
      cases he
    · rename_i he
      exact absurd (List.cons.inj he).1 hc
    · split
      · rintro ⟨⟩
      · intro hv
        obtain ⟨_, -, he⟩ := Option.map_eq_some_iff.mp hv
        cases he
    · exact literal_ne_object
  unfold document
  split
  · rename_i hv
    exact absurd hv (hvalue _ _)
  · rfl

/-! ### Strings -/

/-- No quotation mark, no backslash and no refused character. -/
def Plain (refused : Char → Bool) (t : List Char) : Prop := ∀ c ∈ t, c ≠ '"' ∧ c ≠ '\\' ∧ refused c = false

theorem plain_nil : Plain refused [] := fun _ h => absurd h List.not_mem_nil

theorem plain_cons {c : Char} {t : List Char} :
    Plain refused (c :: t) ↔ (c ≠ '"' ∧ c ≠ '\\' ∧ refused c = false) ∧ Plain refused t := List.forall_mem_cons

theorem scan_quote (t : List Char) : scan refused ('"' :: t) = some ([], t) := by rw [scan]

theorem scan_cons {c : Char} (h : c ≠ '"') (h' : c ≠ '\\') (t : List Char) : scan refused (c :: t) =
    if refused c = true then none else (scan refused t).map fun p => (c.toNat :: p.1, p.2) := by
  rw [scan]
  · simp only [h', false_or]
    congr 1
    cases scan refused t <;> rfl
  · exact h
  · intros
    exact absurd ‹_› h'
  · intros
    exact absurd ‹_› h'

/-- A backslash and a character that begins no code unit. -/
theorem scan_escape {c : Char} (h : c ≠ 'u') (t : List Char) : scan refused ('\\' :: c :: t) =
    (escape c).bind fun n => (scan refused t).map fun p => (n :: p.1, p.2) := by
  rw [scan]
  · cases escape c with
    | none => rfl
    | some n => cases scan refused t <;> rfl
  · intros
    exact absurd ‹_› h

theorem scan_unit (a b c d : Char) (t : List Char) : scan refused ('\\' :: 'u' :: a :: b :: c :: d :: t) =
    (unicode a b c d).bind fun n => (scan refused t).map fun p => (n :: p.1, p.2) := by
  rw [scan]
  cases unicode a b c d with
  | none => rfl
  | some n => cases scan refused t <;> rfl

theorem unicode_eq_none {a b c d : Char} (h : '"' ∈ [a, b, c, d]) : unicode a b c d = none := by
  have hq : PropertiesFile.hexDigit '"' = none := by decide
  simp only [List.mem_cons, List.not_mem_nil, or_false] at h
  unfold unicode
  rcases h with rfl | rfl | rfl | rfl
  · rw [hq]
    rfl
  · rw [hq]
    cases PropertiesFile.hexDigit a <;> rfl
  · rw [hq]
    cases PropertiesFile.hexDigit a <;> cases PropertiesFile.hexDigit b <;> rfl
  · rw [hq]
    cases PropertiesFile.hexDigit a <;> cases PropertiesFile.hexDigit b <;> cases PropertiesFile.hexDigit c <;> rfl

/-- No code unit has a quotation mark among its digits. -/
theorem scan_unit_eq_none {t : List Char} (h : '"' ∈ t.take 4) : scan refused ('\\' :: 'u' :: t) = none := by
  by_cases hfour : ∃ a b c d v, t = a :: b :: c :: d :: v
  · obtain ⟨a, b, c, d, v, rfl⟩ := hfour
    rw [scan_unit, unicode_eq_none h]
    rfl
  · rw [scan]
    · have hu : escape 'u' = none := by decide
      rw [hu]
      rfl
    · intro a b c d v _ ht
      exact hfour ⟨a, b, c, d, v, ht⟩

theorem scan_plain {s : List Char} (h : Plain refused s) (t : List Char) :
    scan refused (s ++ '"' :: t) = some (s.map Char.toNat, t) := by
  induction s with
  | nil => exact scan_quote t
  | cons c s ih =>
    obtain ⟨⟨hq, hb, hr⟩, hs⟩ := plain_cons.mp h
    rw [List.cons_append, scan_cons hq hb, hr, if_neg Bool.false_ne_true, ih hs]
    rfl

/-- How a string may end that starts with the text `x` and a quotation mark:
it is shorter than the text, or is the text and ends with it, or takes the
quotation mark for an escaped one and ends at one further on. -/
def Ends (refused : Char → Bool) (x t : List Char) (s : List ℕ) (rest : List Char) : Prop :=
  s.length < x.length ∨ (Plain refused x ∧ s = x.map Char.toNat ∧ rest = t) ∨ ∃ s', scan refused t = some (s', rest)

/-- An escape stands for one unit and is two characters or more. -/
theorem Ends.escaped {x y t : List Char} {s : List ℕ} {rest : List Char} (h : Ends refused x t s rest)
    (hl : x.length + 2 ≤ y.length) (n : ℕ) : Ends refused y t (n :: s) rest := by
  rcases h with h | ⟨-, rfl, -⟩ | h
  · refine Or.inl ?_
    rw [List.length_cons]
    omega
  · refine Or.inl ?_
    rw [List.length_cons, List.length_map]
    omega
  · exact Or.inr (Or.inr h)

/-- The rest of a string after an escape. -/
theorem scan_of_escape {code : Option ℕ} {t : List Char} {s : List ℕ} {rest : List Char}
    (h : (code.bind fun n => (scan refused t).map fun p => (n :: p.1, p.2)) = some (s, rest)) :
    ∃ n s', s = n :: s' ∧ scan refused t = some (s', rest) := by
  obtain ⟨n, -, h⟩ := Option.bind_eq_some_iff.mp h
  obtain ⟨⟨s', rest'⟩, hs, he⟩ := Option.map_eq_some_iff.mp h
  cases he
  exact ⟨n, s', rfl, hs⟩

/-- The text goes on with a backslash: the character or the code unit after it
is read, and the string from there. -/
theorem ends_of_backslash {t x : List Char} {s : List ℕ} {rest : List Char}
    (ih : ∀ y : List Char, y.length < x.length → ∀ s rest, scan refused (y ++ '"' :: t) = some (s, rest) →
      Ends refused y t s rest) (h : scan refused ('\\' :: (x ++ '"' :: t)) = some (s, rest)) :
    Ends refused ('\\' :: x) t s rest := by
  cases x with
  | nil =>
    have hq : '"' ≠ 'u' := by decide
    rw [List.nil_append, scan_escape hq] at h
    obtain ⟨n, s', -, hs⟩ := scan_of_escape h
    exact Or.inr (Or.inr ⟨s', hs⟩)
  | cons e x =>
    rw [List.cons_append] at h
    by_cases he : e = 'u'
    · subst he
      by_cases hfour : ∃ a b c d v, x = a :: b :: c :: d :: v
      · obtain ⟨a, b, c, d, v, rfl⟩ := hfour
        rw [List.cons_append, List.cons_append, List.cons_append, List.cons_append, scan_unit] at h
        obtain ⟨n, s', rfl, hs⟩ := scan_of_escape h
        have hlen : v.length + 5 = ('u' :: a :: b :: c :: d :: v).length := rfl
        exact (ih v (by omega) s' rest hs).escaped (by rw [List.length_cons]; omega) n
      · -- the quotation mark would be one of the digits
        have hmem : '"' ∈ (x ++ '"' :: t).take 4 := by
          rcases x with _ | ⟨a, _ | ⟨b, _ | ⟨c, _ | ⟨d, v⟩⟩⟩⟩
          · simp
          · simp
          · simp
          · simp
          · exact absurd ⟨a, b, c, d, v, rfl⟩ hfour
        rw [scan_unit_eq_none hmem] at h
        cases h
    · rw [scan_escape he] at h
      obtain ⟨n, s', rfl, hs⟩ := scan_of_escape h
      exact (ih x (Nat.lt_succ_self _) s' rest hs).escaped (Nat.le_refl _) n

/-- **A text between quotation marks, scanned.** -/
theorem scan_append {t : List Char} : ∀ (x : List Char) (s : List ℕ) (rest : List Char),
    scan refused (x ++ '"' :: t) = some (s, rest) → Ends refused x t s rest
  | [], s, rest, h => by
    rw [List.nil_append, scan_quote] at h
    cases h
    exact Or.inr (Or.inl ⟨plain_nil, rfl, rfl⟩)
  | c :: x, s, rest, h => by
    rw [List.cons_append] at h
    by_cases hq : c = '"'
    · rw [hq, scan_quote] at h
      cases h
      exact Or.inl (Nat.succ_pos _)
    · by_cases hb : c = '\\'
      · subst hb
        exact ends_of_backslash (fun y _ => scan_append y) h
      · rw [scan_cons hq hb] at h
        cases hr : refused c with
        | true => simp [hr] at h
        | false =>
          rw [hr, if_neg Bool.false_ne_true] at h
          obtain ⟨⟨s', rest'⟩, hs, he⟩ := Option.map_eq_some_iff.mp h
          cases he
          rcases scan_append x s' _ hs with hl | ⟨hp, rfl, rfl⟩ | h
          · exact Or.inl (Nat.succ_lt_succ hl)
          · exact Or.inr (Or.inl ⟨plain_cons.mpr ⟨⟨hq, hb, hr⟩, hp⟩, rfl, rfl⟩)
          · exact Or.inr (Or.inr h)
termination_by x => x.length

/-! ### An object printed without escapes -/

/-- The white space an object is printed with. -/
structure Layout where
  start : List Char
  beforeColon : List Char
  afterColon : List Char
  afterComma : List Char
  stop : List Char
  blank : ∀ c ∈ start ++ beforeColon ++ afterColon ++ afterComma ++ stop, isBlank c = true

namespace Layout

variable (L : Layout)

/-- A member of the object, before what follows it. -/
def pair (p : List Char × List Char) (t : List Char) : List Char :=
  '"' :: (p.1 ++ '"' :: (L.beforeColon ++ ':' :: (L.afterColon ++ '"' :: (p.2 ++ '"' :: t))))

def members : List (List Char × List Char) → List Char
  | [] => L.stop ++ ['}']
  | [p] => L.pair p (L.stop ++ ['}'])
  | p :: q :: l => L.pair p (',' :: (L.afterComma ++ members (q :: l)))

def object (l : List (List Char × List Char)) : List Char := '{' :: (L.start ++ L.members l)

end Layout

theorem skip_append {u : List Char} (h : ∀ c ∈ u, isBlank c = true) (t : List Char) : skip (u ++ t) = skip t :=
  List.dropWhile_append_of_pos h

theorem skip_cons {c : Char} (h : isBlank c = false) (t : List Char) : skip (c :: t) = c :: t :=
  List.dropWhile_cons_of_neg (by rw [h]; exact Bool.false_ne_true)

theorem length_ofUnits_le : ∀ s : List ℕ, (ofUnits s).length ≤ s.length
  | [] => Nat.le_refl _
  | [_] => Nat.le_refl _
  | hi :: lo :: s => by
    have ih := length_ofUnits_le s
    have ih' := length_ofUnits_le (lo :: s)
    rw [ofUnits]
    split
    · simp only [List.length_cons]
      omega
    · simp only [List.length_cons] at ih' ⊢
      omega

theorem value_string {t u : List Char} (h : skip t = '"' :: u) (fuel : ℕ) :
    value refused (fuel + 1) t = (scan refused u).map fun p => (.string (ofUnits p.1), p.2) := by
  simp only [value, h]

/-- A name that a printed object may have: plain, and not to be taken for
what follows a member. -/
structure IsName (refused : Char → Bool) (name : List Char) : Prop where
  plain : Plain refused name
  head : ∃ c t, name = c :: t ∧ isBlank c = false ∧ c ≠ ',' ∧ c ≠ '}'

namespace Layout

variable (L : Layout)

theorem blank_start : ∀ c ∈ L.start, isBlank c = true := fun c h => L.blank c (by simp [h])

theorem blank_beforeColon : ∀ c ∈ L.beforeColon, isBlank c = true := fun c h => L.blank c (by simp [h])

theorem blank_afterColon : ∀ c ∈ L.afterColon, isBlank c = true := fun c h => L.blank c (by simp [h])

theorem blank_afterComma : ∀ c ∈ L.afterComma, isBlank c = true := fun c h => L.blank c (by simp [h])

theorem blank_stop : ∀ c ∈ L.stop, isBlank c = true := fun c h => L.blank c (by simp [h])

/-- Reading a printed member comes to scanning its text. -/
theorem members_pair {p : List Char × List Char} (hp : Plain refused p.1) {u : List Char}
    (hu : ∀ c ∈ u, isBlank c = true) (fuel : ℕ) (t : List Char) :
    Json.members refused (fuel + 2) (u ++ L.pair p t) = (scan refused (p.2 ++ '"' :: t)).bind fun q =>
      andMembers (p.1, .string (ofUnits q.1)) (Json.members refused (fuel + 1)) q.2 := by
  have hq : isBlank '"' = false := by decide
  have hc : isBlank ':' = false := by decide
  rw [Json.members, skip_append hu, pair, skip_cons hq]
  simp only [scan_plain hp, Option.bind_eq_bind, Option.bind_some, skip_append L.blank_beforeColon, skip_cons hc,
    PropertiesFile.ofUnits_toNat]
  rw [value_string (by rw [skip_append L.blank_afterColon, skip_cons hq]), Option.bind_map]
  rfl

/-- After a plain text the object ends or goes on as printed. -/
theorem andMembers_stop (m : Member) (rest : List Char → Option (List Member × List Char)) :
    andMembers m rest (L.stop ++ ['}']) = some ([m], []) := by
  have hb : isBlank '}' = false := by decide
  simp only [andMembers, skip_append L.blank_stop, skip_cons hb]

theorem andMembers_comma (m : Member) (rest : List Char → Option (List Member × List Char)) (t : List Char) :
    andMembers m rest (',' :: t) =
      (rest t).bind fun q => if (q.1.lookup m.1).isSome then none else some (m :: q.1, q.2) := by
  have hc : isBlank ',' = false := by decide
  simp only [andMembers, skip_cons hc]
  rfl

/-- Names are told apart, and none of them is taken for what follows a member. -/
def Named (refused : Char → Bool) (l : List (List Char × List Char)) : Prop :=
  (∀ p ∈ l, IsName refused p.1) ∧ (l.map (·.1)).Nodup

theorem named_cons {p : List Char × List Char} {l : List (List Char × List Char)} :
    Named refused (p :: l) ↔ IsName refused p.1 ∧ (∀ q ∈ l, q.1 ≠ p.1) ∧ Named refused l := by
  simp only [Named, List.forall_mem_cons, List.map_cons, List.nodup_cons, List.mem_map, not_exists, not_and]
  constructor
  · rintro ⟨⟨hp, hl⟩, hnot, hnodup⟩
    exact ⟨hp, hnot, hl, hnodup⟩
  · rintro ⟨hp, hnot, hl, hnodup⟩
    exact ⟨⟨hp, hl⟩, hnot, hnodup⟩

/-- The members read from a printed object. -/
def texts (l : List (List Char × List Char)) : List Member := l.map fun p => (p.1, .string p.2)

theorem lookup_texts {name : List Char} : ∀ l : List (List Char × List Char),
    (texts l).lookup name = (l.lookup name).map Value.string
  | [] => rfl
  | p :: l => by
    have ih := @lookup_texts name l
    rw [texts, List.map_cons, List.lookup_cons, List.lookup_cons]
    cases name == p.1 with
    | true => rfl
    | false => exact ih

theorem lookup_texts_eq_none {name : List Char} : ∀ {l : List (List Char × List Char)}, (∀ q ∈ l, q.1 ≠ name) →
    (texts l).lookup name = none
  | [], _ => rfl
  | q :: l, h => by
    obtain ⟨hq, hl⟩ := List.forall_mem_cons.mp h
    have hb : (name == q.1) = false := by simpa using fun he => hq he.symm
    rw [texts, List.map_cons, List.lookup_cons, hb]
    exact lookup_texts_eq_none hl

/-- Plain texts are read as they are printed. -/
theorem members_printed : ∀ (l : List (List Char × List Char)) {u : List Char} (fuel : ℕ), l ≠ [] →
    (∀ c ∈ u, isBlank c = true) → Named refused l → (∀ p ∈ l, Plain refused p.2) →
    Json.members refused (fuel + l.length + 1) (u ++ L.members l) = some (texts l, [])
  | [], _, _, h, _, _, _ => absurd rfl h
  | [p], u, fuel, _, hu, hn, hp => by
    obtain ⟨hname, -, -⟩ := named_cons.mp hn
    rw [members, List.length_singleton, L.members_pair hname.plain hu, scan_plain (hp p (List.mem_singleton_self p)),
      Option.bind_some, andMembers_stop, PropertiesFile.ofUnits_toNat]
    rfl
  | p :: q :: l, u, fuel, _, hu, hn, hp => by
    obtain ⟨hname, hne, hn'⟩ := named_cons.mp hn
    obtain ⟨hp, hp'⟩ := List.forall_mem_cons.mp hp
    have ih := members_printed (q :: l) fuel (List.cons_ne_nil _ _) L.blank_afterComma hn' hp'
    rw [members, List.length_cons, ← Nat.add_assoc, L.members_pair hname.plain hu, scan_plain hp, Option.bind_some,
      andMembers_comma, ih, Option.bind_some, lookup_texts_eq_none hne, PropertiesFile.ofUnits_toNat]
    rfl

/-- A string that goes on into `t` is not followed by what may follow a member. -/
def NoEnd (refused : Char → Bool) (t : List Char) : Prop := ∀ s rest, scan refused t = some (s, rest) →
  ∀ (m : Member) (f : List Char → Option (List Member × List Char)), andMembers m f rest = none

theorem scan_of_cons {c : Char} (h : c ≠ '"') (h' : c ≠ '\\') {t : List Char} {s : List ℕ} {rest : List Char}
    (hs : scan refused (c :: t) = some (s, rest)) : ∃ s', scan refused t = some (s', rest) := by
  rw [scan_cons h h', Option.ite_none_left_eq_some] at hs
  obtain ⟨⟨s', rest'⟩, hs', he⟩ := Option.map_eq_some_iff.mp hs.2
  cases he
  exact ⟨s', hs'⟩

theorem scan_of_blank : ∀ {u : List Char}, (∀ c ∈ u, isBlank c = true) → ∀ {t s rest},
    scan refused (u ++ t) = some (s, rest) → ∃ s', scan refused t = some (s', rest)
  | [], _, _, s, _, hs => ⟨s, hs⟩
  | c :: u, h, t, s, rest, hs => by
    obtain ⟨hc, hu⟩ := List.forall_mem_cons.mp h
    have hq : c ≠ '"' := fun he => by simp [he, isBlank] at hc
    have hb : c ≠ '\\' := fun he => by simp [he, isBlank] at hc
    obtain ⟨s', hs'⟩ := scan_of_cons hq hb hs
    exact scan_of_blank hu hs'

theorem noEnd_stop : NoEnd refused (L.stop ++ ['}']) := by
  intro s rest hs
  obtain ⟨s', hs⟩ := scan_of_blank L.blank_stop hs
  obtain ⟨s', hs⟩ := scan_of_cons (by decide) (by decide) hs
  rw [scan] at hs
  cases hs

theorem noEnd_comma {p : List Char × List Char} (h : IsName refused p.1) (t : List Char) :
    NoEnd refused (',' :: (L.afterComma ++ L.pair p t)) := by
  intro s rest hs m f
  obtain ⟨s', hs⟩ := scan_of_cons (by decide) (by decide) hs
  obtain ⟨s', hs⟩ := scan_of_blank L.blank_afterComma hs
  rw [pair, scan_quote] at hs
  cases hs
  obtain ⟨c, n, hn, hc, hcomma, hbrace⟩ := h.head
  rw [hn, List.cons_append, andMembers, skip_cons hc]
  split
  · rename_i he
    exact absurd (List.cons.inj he).1 hcomma
  · rename_i he
    exact absurd (List.cons.inj he).1 hbrace
  · rfl

/-- The text of a member, if it is read as it is printed. -/
theorem plain_of_member {m : Member} {f : List Char → Option (List Member × List Char)} {x t : List Char} {s : List ℕ}
    {rest : List Char} {q : List Member × List Char} (ht : NoEnd refused t) (hs : scan refused (x ++ '"' :: t) = some (s, rest))
    (hm : andMembers m f rest = some q) (hx : Plain refused x ∨ ofUnits s = x) : Plain refused x := by
  rcases scan_append x s rest hs with hl | ⟨hp, -, -⟩ | ⟨s', hs'⟩
  · rcases hx with hp | rfl
    · exact hp
    · have hle := length_ofUnits_le s
      omega
  · exact hp
  · rw [ht s' rest hs' m f] at hm
    cases hm

/-- What follows a member does not change what is read for it. -/
theorem exists_of_andMembers {m : Member} {f : List Char → Option (List Member × List Char)} {t : List Char}
    {q : List Member × List Char} (h : andMembers m f t = some q) : ∃ ms, q.1 = m :: ms := by
  unfold andMembers at h
  split at h
  · obtain ⟨⟨ms, rest⟩, -, h⟩ := Option.bind_eq_some_iff.mp h
    obtain ⟨-, h⟩ := Option.ite_none_left_eq_some.mp h
    cases h
    exact ⟨ms, rfl⟩
  · cases h
    exact ⟨[], rfl⟩
  · cases h

/-- What is read under a name is the text printed there, or the text is one
that is read as it is. -/
def AsPrinted (refused : Char → Bool) (l : List (List Char × List Char)) (ms : List Member) : Prop :=
  ∀ p ∈ l, Plain refused p.2 ∨ ∀ s, ms.lookup p.1 = some (.string s) → s = p.2

theorem plain_of_members : ∀ (l : List (List Char × List Char)) {u : List Char} (fuel : ℕ) {ms : List Member}
    {rest : List Char}, (∀ c ∈ u, isBlank c = true) → Named refused l →
    Json.members refused (fuel + l.length + 1) (u ++ L.members l) = some (ms, rest) → AsPrinted refused l ms →
    ∀ p ∈ l, Plain refused p.2
  | [], _, _, _, _, _, _, _, _ => fun p h => absurd h List.not_mem_nil
  | [p], u, fuel, ms, rest, hu, hn, h, hread => by
    obtain ⟨hname, -, -⟩ := named_cons.mp hn
    rw [members, List.length_singleton, L.members_pair hname.plain hu] at h
    obtain ⟨⟨s, t⟩, hs, hm⟩ := Option.bind_eq_some_iff.mp h
    obtain ⟨ms', rfl⟩ := exists_of_andMembers hm
    intro p' hp'
    rw [List.mem_singleton.mp hp']
    refine plain_of_member L.noEnd_stop hs hm ((hread p (List.mem_singleton_self p)).imp_right fun h => h _ ?_)
    exact List.lookup_cons_self
  | p :: q :: l, u, fuel, ms, rest, hu, hn, h, hread => by
    obtain ⟨hname, hne, hn'⟩ := named_cons.mp hn
    obtain ⟨hp, hl⟩ := List.forall_mem_cons.mp hread
    rw [members, List.length_cons, ← Nat.add_assoc, L.members_pair hname.plain hu] at h
    obtain ⟨⟨s, t⟩, hs, hm⟩ := Option.bind_eq_some_iff.mp h
    obtain ⟨ms', rfl⟩ := exists_of_andMembers hm
    have hplain : Plain refused p.2 := by
      obtain ⟨hq, -, -⟩ := named_cons.mp hn'
      have htail : NoEnd refused (',' :: (L.afterComma ++ L.members (q :: l))) := by
        cases l with
        | nil => exact L.noEnd_comma hq _
        | cons q' l => exact L.noEnd_comma hq _
      exact plain_of_member htail hs hm (hp.imp_right fun h => h _ List.lookup_cons_self)
    -- so the text ends where it was printed to
    rw [scan_plain hplain] at hs
    cases hs
    rw [andMembers_comma] at hm
    obtain ⟨⟨ms'', rest''⟩, hms, hm⟩ := Option.bind_eq_some_iff.mp hm
    obtain ⟨-, hm⟩ := Option.ite_none_left_eq_some.mp hm
    cases hm
    refine List.forall_mem_cons.mpr ⟨hplain, plain_of_members (q :: l) fuel L.blank_afterComma hn' hms fun r hr => ?_⟩
    refine (hl r hr).imp_right fun h s hs => h s ?_
    have hb : (r.1 == p.1) = false := by simpa using hne r hr
    rw [List.lookup_cons, hb]
    exact hs

theorem length_le_members : ∀ l : List (List Char × List Char), l.length ≤ (L.members l).length
  | [] => Nat.zero_le _
  | [p] => by
    simp only [members, pair, List.length_cons, List.length_append]
    omega
  | p :: q :: l => by
    have ih := length_le_members (q :: l)
    simp only [members, pair, List.length_cons, List.length_append] at ih ⊢
    omega

/-- Reading a printed object comes to reading its members. -/
theorem document_object {l : List (List Char × List Char)} (hl : l ≠ []) :
    ∃ fuel, document refused (L.object l) =
      (Json.members refused (fuel + l.length + 1) (L.members l)).bind fun q => if skip q.2 = [] then some q.1 else none := by
  have hlen : l.length + 1 ≤ (L.object l).length := by
    have h := L.length_le_members l
    simp only [object, List.length_cons, List.length_append]
    omega
  obtain ⟨fuel, hfuel⟩ := Nat.exists_eq_add_of_le' hlen
  have hopen : isBlank '{' = false := by decide
  have hq : isBlank '"' = false := by decide
  obtain ⟨w, hw⟩ : ∃ w, L.members l = '"' :: w := by
    rcases l with _ | ⟨p, _ | ⟨q, l⟩⟩
    · exact absurd rfl hl
    · exact ⟨_, rfl⟩
    · exact ⟨_, rfl⟩
  refine ⟨fuel, ?_⟩
  have hvalue : value refused (fuel + l.length + 1 + 1) ('{' :: (L.start ++ '"' :: w)) =
      (Json.members refused (fuel + l.length + 1) ('"' :: w)).map fun q => (.object q.1, q.2) := by
    simp only [value, skip_cons hopen, skip_append L.blank_start, skip_cons hq]
    rfl
  rw [document, hfuel, object, hw, ← Nat.add_assoc, hvalue]
  cases Json.members refused (fuel + l.length + 1) ('"' :: w) <;> rfl

/-- The first member is read as it was printed, if its text is plain. -/
theorem lookup_of_document {p : List Char × List Char} {l : List (List Char × List Char)} {ms : List Member}
    (hn : Named refused (p :: l)) (h : document refused (L.object (p :: l)) = some ms) (hp : Plain refused p.2) :
    ms.lookup p.1 = some (.string p.2) := by
  obtain ⟨hname, -, -⟩ := named_cons.mp hn
  obtain ⟨fuel, hdoc⟩ := @document_object refused L _ (List.cons_ne_nil p l)
  rw [hdoc] at h
  obtain ⟨⟨ms', rest⟩, hm, he⟩ := Option.bind_eq_some_iff.mp h
  obtain ⟨-, he⟩ := Option.ite_none_right_eq_some.mp he
  cases he
  obtain ⟨t, ht⟩ : ∃ t, L.members (p :: l) = L.pair p t := by
    cases l with
    | nil => exact ⟨_, rfl⟩
    | cons q l => exact ⟨_, rfl⟩
  have hpair := L.members_pair hname.plain (fun c (hc : c ∈ []) => absurd hc List.not_mem_nil) (fuel + l.length) t
  rw [List.nil_append, scan_plain hp, Option.bind_some, PropertiesFile.ofUnits_toNat] at hpair
  rw [ht, List.length_cons, ← Nat.add_assoc, hpair] at hm
  obtain ⟨ms, rfl⟩ := exists_of_andMembers hm
  exact List.lookup_cons_self

/-- **An object with plain texts is read as it was printed.** -/
theorem document_printed {l : List (List Char × List Char)} (hl : l ≠ []) (hn : Named refused l)
    (hp : ∀ p ∈ l, Plain refused p.2) : document refused (L.object l) = some (texts l) := by
  obtain ⟨fuel, hdoc⟩ := @document_object refused L l hl
  have hm := L.members_printed l fuel hl (fun c h => absurd h List.not_mem_nil) hn hp
  rw [hdoc, ← List.nil_append (L.members l), hm]
  rfl

/-- **Only plain texts are read as they were printed.** -/
theorem plain_of_document {l : List (List Char × List Char)} {ms : List Member} (hn : Named refused l)
    (h : document refused (L.object l) = some ms) (hread : AsPrinted refused l ms) : ∀ p ∈ l, Plain refused p.2 := by
  by_cases hl : l = []
  · rw [hl]
    exact fun p hp => absurd hp List.not_mem_nil
  · obtain ⟨fuel, hdoc⟩ := @document_object refused L l hl
    rw [hdoc] at h
    obtain ⟨⟨ms', rest⟩, hm, he⟩ := Option.bind_eq_some_iff.mp h
    obtain ⟨-, he⟩ := Option.ite_none_right_eq_some.mp he
    cases he
    exact L.plain_of_members l fuel (fun c h => absurd h List.not_mem_nil) hn hm hread

end Layout

end Json
