/-
# The MBean a client publishes its metrics by

`PlethoraMBean.buildMBeanInfo`: an attribute for every metric of the registry,
described by the metric's texts and an option string, in JSON that
`MetricDescriptionBuilder` prints without a library. The server's
`MetricDescriptionParser` reads it with one.

The builder puts the texts between quotation marks as they are. The option
string has the flags for writing and for the level in its second and third
place, and the readers of `OptionString` look for them one place further on.
So the parser gets back what was published exactly if the texts are plain, the
metric is public and not writable: `decodes_iff`.

Key definitions: `OptionString.build`, `MetricDescriptionBuilder.encodeToJSON`,
`PlethoraMBean.buildMBeanInfo`, `Faithful`.
Key theorems: `exists_decode`, `decodes_iff`.
-/
import Plethora.Data.OrgJson
import Plethora.Common.Registry

namespace Plethora

/-- `OptionString.build`. -/
def OptionString.build (type : MetricType) (level : Level) (writable : Bool) : Text :=
  let typebit := if type = .number then '1' else if type = .boolean then '2' else '0'
  let accessbit := if writable then '1' else '0'
  let levelbit := if level = .limited then '1' else if level = .internal then '2' else '0'
  let futurebits := "00000".toList
  typebit :: accessbit :: levelbit :: futurebits

namespace MetricDescriptionBuilder

def buildPair (name value : Text) : Text := '"' :: name ++ '"' :: ':' :: '"' :: value ++ ['"']

def encodeToJSON (displayName description options : Text) : Text :=
  '{' :: buildPair "options".toList options ++ ',' :: buildPair "name".toList displayName ++
    ',' :: buildPair "description".toList description ++ ['}']

end MetricDescriptionBuilder

/-- `Metric.getType`. -/
def Metric.getType (m : Metric) : Option Text := m.lastValidValue.map JavaObject.getClassName

namespace PlethoraMBean

variable (metrics : Metrics)

def buildMetricPropertyDescription (m : Metric) : Text :=
  MetricDescriptionBuilder.encodeToJSON m.properties.displayname m.properties.description
    (OptionString.build m.metricType m.properties.level m.properties.writable)

/-- The attribute of a metric; one without a type is skipped. -/
def attributeOf (name : Text) : Option MBeanAttributeInfo :=
  (metrics.get name).bind fun m => m.getType.map fun type =>
    { name, type, description := some (buildMetricPropertyDescription m) }

/-- The names of the registry in order. -/
def names : TreeSet := TreeSet.empty.addAll (metrics.metricsMap.map (·.1))

/-- The attributes of the MBean. The place of a metric that is skipped stays null. -/
def buildMBeanInfo : List (Option MBeanAttributeInfo) := (names metrics).toList.map (attributeOf metrics)

end PlethoraMBean

/-! ### A description, printed and read -/

/-- The description as the members of an object, without white space. -/
def compact : Json.Layout := ⟨[], [], [], [], [], fun _ h => absurd h List.not_mem_nil⟩

/-- The members of a description. -/
def printed (displayName description options : Text) : List (Text × Text) :=
  [("options".toList, options), ("name".toList, displayName), ("description".toList, description)]

theorem encodeToJSON_eq (displayName description options : Text) :
    MetricDescriptionBuilder.encodeToJSON displayName description options =
      compact.object (printed displayName description options) := by
  simp [MetricDescriptionBuilder.encodeToJSON, MetricDescriptionBuilder.buildPair, Json.Layout.object,
    Json.Layout.members, Json.Layout.pair, compact, printed]

section Decoding

variable {refused : Char → Bool} (hc : ∀ c, refused c = true → c < ' ')
include hc

theorem plain_of_printable {t : Text} (h : ∀ c ∈ t, c ≠ '"' ∧ c ≠ '\\' ∧ ¬ c < ' ') : Json.Plain refused t := by
  intro c hm
  obtain ⟨hq, hb, hs⟩ := h c hm
  exact ⟨hq, hb, Bool.eq_false_iff.mpr fun hr => hs (hc c hr)⟩

theorem plain_build (type : MetricType) (level : Level) (writable : Bool) :
    Json.Plain refused (OptionString.build type level writable) := by
  refine plain_of_printable hc ?_
  cases type <;> cases level <;> cases writable <;> decide

/-- Members with different names that need no escapes. -/
theorem named_of_printable {l : List (Text × Text)} (names : List Text) (hl : l.map (·.1) = names)
    (hname : ∀ name ∈ names, (∀ c ∈ name, c ≠ '"' ∧ c ≠ '\\' ∧ ¬ c < ' ') ∧
      name.head?.any (fun c => !Json.isBlank c && c != ',' && c != '}') = true) (hnodup : names.Nodup) :
    Json.Layout.Named refused l := by
  refine ⟨fun p hp => ?_, hl ▸ hnodup⟩
  obtain ⟨hplain, hhead⟩ := hname p.1 (hl ▸ List.mem_map_of_mem hp)
  cases hp1 : p.1 with
  | nil =>
    rw [hp1] at hhead
    cases hhead
  | cons c t =>
    rw [hp1, List.head?_cons, Option.any_some] at hhead
    simp only [Bool.and_eq_true, Bool.not_eq_true', bne_iff_ne] at hhead
    exact ⟨hp1 ▸ plain_of_printable hc hplain, c, t, rfl, hhead.1.1, hhead.1.2, hhead.2⟩

theorem named_printed (displayName description options : Text) :
    Json.Layout.Named refused (printed displayName description options) :=
  named_of_printable hc ["options".toList, "name".toList, "description".toList] rfl (by decide) (by decide)

end Decoding

/-- What the parser gets back of a metric as it was published: its texts are
plain, it is public and not writable. -/
structure Faithful (refused : Char → Bool) (displayName description : Text) (level : Level) (writable : Bool) : Prop where
  displayName : Json.Plain refused displayName
  description : Json.Plain refused description
  level : level = .publicLevel
  writable : writable = false

/-- Properties with the options that are read for one that was built. -/
def OptionString.readBack (p : MetricProperties) (type : MetricType) (level : Level) : MetricProperties :=
  { p with
    type := if type = .number then .number else if type = .boolean then .boolean else .text
    level := .publicLevel
    writable := level = .limited }

namespace JMXModule

variable (j : JMXModule)

theorem decode_of_none {t : Text} (ho : j.json.getString t "options".toList = none) :
    j.decodeToProperties (some t) =
      .ok ((({} : MetricProperties).setDisplayname (j.json.getString t "name".toList)).setDescription
        (j.json.getString t "description".toList)) := by
  simp only [decodeToProperties, Option.bind_some, ho]
  rfl

theorem decode_of_some {t : Text} {type : MetricType} {level : Level} {writable : Bool}
    (ho : j.json.getString t "options".toList = some (OptionString.build type level writable)) :
    j.decodeToProperties (some t) =
      .ok (OptionString.readBack ((({} : MetricProperties).setDisplayname (j.json.getString t "name".toList)).setDescription
        (j.json.getString t "description".toList)) type level) := by
  simp only [decodeToProperties, Option.bind_some, ho]
  cases type <;> cases level <;> rfl

/-- What was published faithfully is all read. -/
theorem getString_of_faithful (type : MetricType) {refused : Char → Bool} (hj : j.json.Conforms refused)
    {displayName description : Text} {level : Level} {writable : Bool}
    (h : Faithful refused displayName description level writable) :
    ∀ p ∈ printed displayName description (OptionString.build type level writable),
      j.json.getString (compact.object (printed displayName description (OptionString.build type level writable))) p.1 =
        some p.2 := by
  intro p hp
  refine hj.getString_printed compact (named_printed hj.control displayName description _) (fun q hq => ?_) hp
  simp only [printed, List.mem_cons, List.not_mem_nil, or_false] at hq
  rcases hq with rfl | rfl | rfl
  · exact plain_build hj.control type level writable
  · exact h.displayName
  · exact h.description

/-- What was read as published was faithful. -/
theorem faithful_of_getString {refused : Char → Bool} (hj : j.json.Conforms refused) {displayName description : Text}
    {type : MetricType} {level : Level} {writable : Bool}
    (ho : j.json.getString (compact.object (printed displayName description (OptionString.build type level writable)))
      "options".toList = some (OptionString.build type level writable))
    (hname : ∀ s, j.json.getString (compact.object (printed displayName description (OptionString.build type level writable)))
      "name".toList = some s → s = displayName)
    (hdesc : ∀ s, j.json.getString (compact.object (printed displayName description (OptionString.build type level writable)))
      "description".toList = some s → s = description) :
    Json.Plain refused displayName ∧ Json.Plain refused description := by
  have hplain : ∀ p ∈ printed displayName description (OptionString.build type level writable),
      Json.Plain refused p.2 := by
    refine hj.plain_of_getString compact (named_printed hj.control displayName description _) ho fun p hp => ?_
    simp only [printed, List.mem_cons, List.not_mem_nil, or_false] at hp
    rcases hp with rfl | rfl | rfl
    · exact Or.inl (plain_build hj.control type level writable)
    · exact Or.inr hname
    · exact Or.inr hdesc
  exact ⟨hplain _ (.tail _ (.head _)), hplain _ (.tail _ (.tail _ (.head _)))⟩

/-- What the parser makes of a description, and when that is what was published. -/
theorem exists_decode {refused : Char → Bool} (hj : j.json.Conforms refused) (displayName description : Text)
    (type : MetricType) (level : Level) (writable : Bool) :
    ∃ p, j.decodeToProperties (some (MetricDescriptionBuilder.encodeToJSON displayName description
        (OptionString.build type level writable))) = .ok p ∧
      (p.displayname = displayName ∧ p.description = description ∧ p.level = level ∧ p.writable = writable ↔
        Faithful refused displayName description level writable) ∧
      (Faithful refused displayName description level writable →
        p.type = (OptionString.readBack {} type level).type ∧ p.readable = true) := by
  rw [encodeToJSON_eq]
  have hhead : j.json.getString
        (compact.object (printed displayName description (OptionString.build type level writable))) "options".toList =
          some (OptionString.build type level writable) ∨
      ∀ name, j.json.getString
        (compact.object (printed displayName description (OptionString.build type level writable))) name = none :=
    hj.getString_head compact (named_printed hj.control displayName description _)
      (plain_build hj.control type level writable)
  rcases hhead with ho | hnone
  · refine ⟨_, j.decode_of_some ho, ⟨?_, ?_⟩, fun _ => ⟨rfl, rfl⟩⟩
    · rintro ⟨hname, hdesc, hlevel, hwritable⟩
      have hpublic : level = .publicLevel := hlevel.symm
      subst hpublic
      have hplain := j.faithful_of_getString hj ho
        (fun s hs => by
          rw [hs] at hname
          exact hname)
        (fun s hs => by
          rw [hs] at hdesc
          exact hdesc)
      exact ⟨hplain.1, hplain.2, rfl, hwritable.symm⟩
    · intro h
      have hname := j.getString_of_faithful type hj h _ (.tail _ (.head _))
      have hdesc := j.getString_of_faithful type hj h _ (.tail _ (.tail _ (.head _)))
      obtain ⟨-, -, rfl, rfl⟩ := h
      rw [hname, hdesc]
      exact ⟨rfl, rfl, rfl, rfl⟩
  · -- no object: the properties are the defaults, and a faithful description would be read
    have hnot : ¬ Faithful refused displayName description level writable := fun h => by
      have ho := j.getString_of_faithful type hj h _ (.head _)
      rw [hnone] at ho
      cases ho
    refine ⟨_, j.decode_of_none (hnone _), ⟨?_, fun h => absurd h hnot⟩, fun h => absurd h hnot⟩
    rw [hnone, hnone]
    rintro ⟨rfl, rfl, hlevel, hwritable⟩
    exact ⟨Json.plain_nil, Json.plain_nil, hlevel.symm, hwritable.symm⟩

/-- The parser inverts the printer exactly for faithful descriptions of the
three types. -/
theorem decodes_iff {refused : Char → Bool} (hj : j.json.Conforms refused) (displayname description : Text)
    {type : MetricType} (ht : (MetricFactory.initialValue type).isSome = true) (level : Level) (writable : Bool) :
    j.decodeToProperties (some (MetricDescriptionBuilder.encodeToJSON displayname description
        (OptionString.build type level writable))) = .ok { displayname, description, level, type, writable } ↔
      Faithful refused displayname description level writable := by
  obtain ⟨p, hp, hiff, htype⟩ := j.exists_decode hj displayname description type level writable
  rw [hp]
  constructor
  · intro h
    cases h
    exact hiff.mp ⟨rfl, rfl, rfl, rfl⟩
  · intro h
    obtain ⟨hname, hdesc, hlevel, hwritable⟩ := hiff.mpr h
    obtain ⟨htype, hreadable⟩ := htype h
    have hthree : (OptionString.readBack {} type level).type = type := by
      cases type with
      | number | text | boolean => rfl
      | unspecified | invalid => cases ht
    exact congrArg Except.ok ((MetricProperties.mk.injEq ..).mpr
      ⟨hname, hdesc, hlevel, htype.trans hthree, hreadable, hwritable⟩)

end JMXModule

end Plethora
