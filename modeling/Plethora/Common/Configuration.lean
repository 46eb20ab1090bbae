/-
# The configuration

`Configuration`: the property table a properties file is loaded into, the
queries for properties by the start of their names, and the trimming of the
values that are read (`Util.trimConfigStrings`).

Key definitions: `Properties`, `Properties.ofEntries`, `getValuesStartingWith`,
`Util.trimConfigStrings`.
Key theorems: `Properties.getProperty_setProperty`, `Properties.getProperty_ofEntries`,
`mem_getValuesStartingWith`.
-/
import Plethora.Common.Java
import Plethora.Lib.PropertiesFile

namespace Plethora

/-! ### The property table -/

/-- `java.util.Properties`: each name has one value. -/
structure Properties where
  entries : List (Text × Text)
  nodup : (entries.map (·.1)).Nodup
  deriving DecidableEq

namespace Properties

def getProperty (T : Properties) (name : Text) : Option Text := T.entries.lookup name

def setProperty (T : Properties) (name value : Text) : Properties :=
  ⟨put name value T.entries, nodup_keys_put T.nodup⟩

def stringPropertyNames (T : Properties) : List Text := T.entries.map (·.1)

theorem getProperty_setProperty (T : Properties) (name value j : Text) :
    (T.setProperty name value).getProperty j = if j = name then some value else T.getProperty j :=
  lookup_put name j value T.entries

theorem mem_entries_iff {T : Properties} {name value : Text} :
    (name, value) ∈ T.entries ↔ T.getProperty name = some value :=
  ⟨lookup_of_mem T.nodup, mem_of_lookup⟩

theorem mem_names_iff {T : Properties} {name : Text} :
    name ∈ T.stringPropertyNames ↔ (T.getProperty name).isSome = true := mem_keys_iff

/-- The table after some entries are set in order. -/
def setAll (T : Properties) (es : List (Text × Text)) : Properties := es.foldl (fun T e => T.setProperty e.1 e.2) T

def empty : Properties := ⟨[], List.nodup_nil⟩

/-- The table the entries of a file make. -/
def ofEntries (es : List (Text × Text)) : Properties := empty.setAll es

theorem getProperty_setAll (j : Text) : ∀ (es : List (Text × Text)) (T : Properties),
    (T.setAll es).getProperty j = (es.reverse.lookup j).or (T.getProperty j)
  | [], _ => rfl
  | (k, v) :: es, T => by
    have h : T.setAll ((k, v) :: es) = (T.setProperty k v).setAll es := rfl
    rw [h, getProperty_setAll j es, getProperty_setProperty, List.reverse_cons, List.lookup_append,
      List.lookup_cons]
    by_cases hj : j = k
    · rw [if_pos hj, hj, beq_self_eq_true, Option.or_assoc]
      rfl
    · rw [if_neg hj, beq_eq_false_iff_ne.mpr hj, List.lookup_nil, Option.or_none]

/-- The last entry of a name counts. -/
theorem getProperty_ofEntries (es : List (Text × Text)) (j : Text) :
    (ofEntries es).getProperty j = es.reverse.lookup j := by
  rw [ofEntries, getProperty_setAll]
  exact Option.or_none

theorem mem_names_ofEntries {es : List (Text × Text)} {j : Text} :
    j ∈ (ofEntries es).stringPropertyNames ↔ j ∈ es.map (·.1) := by
  rw [mem_names_iff, getProperty_ofEntries, ← mem_keys_iff, List.map_reverse, List.mem_reverse]

end Properties

/-! ### `Configuration` -/

namespace Util

/-- What the regex takes off at either end. -/
def isQuoteOrTab (c : Char) : Bool := c = '"' || c = '\'' || c = '\t'

/-- `$` matches at the end, and before a line terminator that ends the text. -/
def atEnd (t : Text) : Bool :=
  t = [] || t = ['\n'] || t = ['\r'] || t = ['\r', '\n'] || t = ['\x85'] || t = [Char.ofNat 0x2028] ||
    t = [Char.ofNat 0x2029]

/-- `replaceAll("\"$|'$|\t$", "")`. -/
def dropAtEnd : Text → Text
  | [] => []
  | c :: t => if isQuoteOrTab c && atEnd t then dropAtEnd t else c :: dropAtEnd t

/-- `replaceAll("^\"|^'|^\t|\"$|'$|\t$", "")`. -/
def dropAtEnds : Text → Text
  | [] => []
  | c :: t => if isQuoteOrTab c then dropAtEnd t else dropAtEnd (c :: t)

def trimConfigStrings (value : Text) : Text := trim (dropAtEnds (trim value))

theorem dropAtEnd_cons {c : Char} (h : isQuoteOrTab c = false) (t : Text) : dropAtEnd (c :: t) = c :: dropAtEnd t := by
  rw [dropAtEnd, h, Bool.false_and, if_neg Bool.false_ne_true]

theorem dropAtEnds_cons {c : Char} (h : isQuoteOrTab c = false) (t : Text) : dropAtEnds (c :: t) = c :: dropAtEnd t := by
  rw [dropAtEnds, h, if_neg Bool.false_ne_true, dropAtEnd_cons h]

theorem dropAtEnd_of_none : ∀ {t : Text}, (∀ c ∈ t, isQuoteOrTab c = false) → dropAtEnd t = t
  | [], _ => rfl
  | c :: t, h => by
    rw [dropAtEnd_cons (h c List.mem_cons_self), dropAtEnd_of_none fun d hd => h d (List.mem_cons_of_mem _ hd)]

/-- Nothing is trimmed off a text without blanks and quotation marks. -/
theorem trimConfigStrings_of_none {t : Text} (hq : ∀ c ∈ t, isQuoteOrTab c = false) (hb : ∀ c ∈ t, 0x21 ≤ c.toNat) :
    trimConfigStrings t = t := by
  have hdrop : dropAtEnds t = t := by
    cases t with
    | nil => rfl
    | cons c t =>
      rw [dropAtEnds_cons (hq c List.mem_cons_self), dropAtEnd_of_none fun d hd => hq d (List.mem_cons_of_mem _ hd)]
  rw [trimConfigStrings, trim_of_le hb, hdrop, trim_of_le hb]

end Util

/-- The table `Properties.load` makes of a file's bytes. -/
def loadProperties (bytes : List UInt8) : Except JavaError Properties :=
  match PropertiesFile.load (latin1 bytes) with
  | some es => .ok (Properties.ofEntries es)
  | none => .error .illegalArgument

/-- `Configuration.getProperty` of the table. -/
def getProperty (T : Properties) (name : Text) : Option Text := (T.getProperty name).map Util.trimConfigStrings

/-- `Configuration.getProperty(name, def)`: the default is trimmed as well. -/
def getPropertyOr (T : Properties) (name : Text) (dflt : Option Text) : Option Text :=
  ((T.getProperty name).or dflt).map Util.trimConfigStrings

/-- `Configuration.getValuesStartingWith`: the values by what comes after the
prefix, in the order of the new `HashMap`. -/
def getValuesStartingWith (hashOrder : List (Text × Text) → List (Text × Text)) (T : Properties) (pre : Text) :
    List (Text × Text) :=
  hashOrder (T.entries.filterMap fun e => if pre <+: e.1 then some (e.1.drop pre.length, e.2) else none)

theorem mem_getValuesStartingWith {hashOrder : List (Text × Text) → List (Text × Text)}
    (hp : ∀ l, (hashOrder l).Perm l) {T : Properties} {pre rest value : Text} :
    (rest, value) ∈ getValuesStartingWith hashOrder T pre ↔ T.getProperty (pre ++ rest) = some value := by
  rw [getValuesStartingWith, (hp _).mem_iff, List.mem_filterMap, ← Properties.mem_entries_iff]
  constructor
  · rintro ⟨⟨name, v⟩, he, h⟩
    simp only [Option.ite_none_right_eq_some, Option.some.injEq, Prod.mk.injEq] at h
    obtain ⟨⟨t, rfl⟩, rfl, rfl⟩ := h
    rwa [List.drop_left']
    rfl
  · intro he
    refine ⟨_, he, ?_⟩
    rw [if_pos ⟨rest, rfl⟩, List.drop_left']
    rfl

/-- Names that differ differ after a common prefix. -/
theorem nodup_getValuesStartingWith {hashOrder : List (Text × Text) → List (Text × Text)}
    (hp : ∀ l, (hashOrder l).Perm l) (T : Properties) (pre : Text) :
    ((getValuesStartingWith hashOrder T pre).map (·.1)).Nodup := by
  have h : (T.entries.filterMap fun e => if pre <+: e.1 then some (e.1.drop pre.length, e.2) else none).map (·.1) =
      (T.entries.map (·.1)).filterMap fun name => if pre <+: name then some (name.drop pre.length) else none := by
    rw [List.map_filterMap, List.filterMap_map]
    congr 1
    funext e
    by_cases he : pre <+: e.1
    · simp only [Function.comp_apply, if_pos he, Option.map_some]
    · simp only [Function.comp_apply, if_neg he, Option.map_none]
  rw [getValuesStartingWith, ((hp _).map _).nodup_iff, h]
  refine T.nodup.filterMap fun a b n ha hb => ?_
  simp only [Option.mem_def, Option.ite_none_right_eq_some, Option.some.injEq] at ha hb
  obtain ⟨⟨s, rfl⟩, hs⟩ := ha
  obtain ⟨⟨t, rfl⟩, ht⟩ := hb
  rw [List.drop_left' rfl] at hs ht
  rw [hs, ht]

end Plethora
