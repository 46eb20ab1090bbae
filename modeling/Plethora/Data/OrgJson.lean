/-
# The JSON library, as it is specified

What the modules rely on of `org.json` (`Conforms`): a text that is no JSON
object, or one with a member twice, is refused; a member that is not there is
refused; a string, and an array of strings, is what the text says. Nothing is
said of `getString` where a member is no string. Which control characters a
string may hold unescaped is left to the library.

Key definitions: `OrgJson.Conforms`, `OrgJson.reading`.
Key theorems: `conforms_reading`.
-/
import Plethora.Data.RemoteModule
import Plethora.Lib.Json

namespace Plethora

namespace OrgJson

/-- The library reads JSON as specified, and refuses these characters in a
string, which are control characters. -/
structure Conforms (json : OrgJson) (refused : Char → Bool) : Prop where
  control : ∀ c, refused c = true → c < ' '
  absent : ∀ {t name}, Json.member refused t name = none →
    json.getString t name = none ∧ json.get t name = none ∧ json.getStrings t name = none
  string : ∀ {t name s}, Json.member refused t name = some (.string s) →
    json.getString t name = some s ∧ json.get t name = some (.string s)
  strings : ∀ {t name ss}, Json.member refused t name = some (.array (ss.map .string)) →
    json.getStrings t name = some ss

def asString : Json.Value → Option Text
  | .string s => some s
  | _ => none

/-- A library that reads strings and arrays of strings. -/
def reading (refused : Char → Bool) : OrgJson where
  getString t name := (Json.member refused t name).bind asString
  get t name := ((Json.member refused t name).bind asString).map .string
  getStrings t name :=
    match Json.member refused t name with
    | some (.array items) => items.mapM asString
    | _ => none

theorem mapM_asString : ∀ ss : List Text, (ss.map Json.Value.string).mapM asString = some ss
  | [] => rfl
  | s :: ss => by
    rw [List.map_cons, List.mapM_cons, mapM_asString ss]
    rfl

theorem conforms_reading {refused : Char → Bool} (hc : ∀ c, refused c = true → c < ' ') :
    (reading refused).Conforms refused where
  control := hc
  absent h := by simp [reading, h]
  string h := by simp [reading, h, asString]
  strings h := by simp only [reading, h, mapM_asString]

/-! ### An object printed without escapes -/

section Printed

variable {json : OrgJson} {refused : Char → Bool} (hj : json.Conforms refused) (L : Json.Layout)
  {l : List (Text × Text)} (hn : Json.Layout.Named refused l)
include hj

/-- A member that is there is one of an object. -/
theorem Conforms.exists_document {t name s : Text} (h : json.getString t name = some s) :
    ∃ ms, Json.document refused t = some ms := by
  cases hdoc : Json.document refused t with
  | some ms => exact ⟨ms, rfl⟩
  | none =>
    have habsent : Json.member refused t name = none := by
      rw [Json.member, hdoc]
      rfl
    rw [(hj.absent habsent).1] at h
    cases h

/-- A string of an object. -/
theorem Conforms.getString {t name s : Text} {ms : List Json.Member} (hdoc : Json.document refused t = some ms)
    (h : ms.lookup name = some (.string s)) : json.getString t name = some s :=
  (hj.string (by rw [Json.member, hdoc]; exact h)).1

include hn

theorem Conforms.getString_printed (hp : ∀ p ∈ l, Json.Plain refused p.2) {p : Text × Text} (hm : p ∈ l) :
    json.getString (L.object l) p.1 = some p.2 := by
  have hdoc := L.document_printed (List.ne_nil_of_mem hm) hn hp
  refine hj.getString hdoc ?_
  rw [Json.Layout.lookup_texts, lookup_of_mem hn.2 hm]
  rfl

/-- Texts that are read as they were printed are plain. -/
theorem Conforms.plain_of_getString {name s : Text} (hs : json.getString (L.object l) name = some s)
    (h : ∀ p ∈ l, Json.Plain refused p.2 ∨ ∀ s, json.getString (L.object l) p.1 = some s → s = p.2) :
    ∀ p ∈ l, Json.Plain refused p.2 := by
  obtain ⟨ms, hdoc⟩ := hj.exists_document hs
  refine L.plain_of_document hn hdoc fun p hp => (h p hp).imp_right fun h s hs => ?_
  exact h s (hj.getString hdoc hs)

end Printed

/-- If the first member's text is plain it is read, or nothing is. -/
theorem Conforms.getString_head {json : OrgJson} {refused : Char → Bool} (hj : json.Conforms refused) (L : Json.Layout)
    {p : Text × Text} {l : List (Text × Text)} (hn : Json.Layout.Named refused (p :: l)) (hp : Json.Plain refused p.2) :
    json.getString (L.object (p :: l)) p.1 = some p.2 ∨ ∀ name, json.getString (L.object (p :: l)) name = none := by
  cases hdoc : Json.document refused (L.object (p :: l)) with
  | none => exact Or.inr fun name => (hj.absent (by rw [Json.member, hdoc]; rfl)).1
  | some ms => exact Or.inl (hj.getString hdoc (L.lookup_of_document hn hdoc hp))

end OrgJson

end Plethora
