/-
# What the server reads of a C++ agent's replies

The `JsonFormatter` prints names as a list, a value as a pair and properties
as an object. The server reads a JSON object in every case. So it gets no value
at all, and of the names only that there are none. Of the properties it gets
what `MetricProperties` has exactly if the request reaches a metric with these
properties whose texts are plain, which is public and not writable:
`replies_iff`.

Key definitions: `Cpp.spaced`, `Cpp.Describes`, `Cpp.Mirrored`.
Key theorems: `Cpp.listedNames_iff`, `Cpp.get_eq_none`, `Cpp.describes_iff`,
`Cpp.replies_iff`.
-/
import Plethora.Agents.CppHandler
import Plethora.Jmx.MBean

namespace Plethora

namespace Cpp

open RequestHandler JsonFormatter

/-- The properties as the members of an object, with the formatter's white space. -/
def spaced : Json.Layout := ⟨['\n'], [' '], [' '], [' ', '\n'], ['\n'], by decide⟩

/-- The members of a reply with properties. -/
def members (p : MetricProperties) : List (Text × Text) :=
  [("description".toList, p.description), ("displayname".toList, p.displayname),
    ("options".toList, p.buildOptionString)]

theorem asMap_eq (p : MetricProperties) : p.asMap = members p := rfl

theorem formatMap_asMap (p : MetricProperties) : formatMap p.asMap = spaced.object (members p) := by
  rw [asMap_eq]
  simp [formatMap, formatPair, jsonQuote, members, List.intercalate, Json.Layout.object, Json.Layout.members,
    Json.Layout.pair, spaced]

/-- The properties the server reads are those of the metric. -/
structure Describes (m : BaseMetric) (p : Plethora.MetricProperties) : Prop where
  displayname : p.displayname = m.properties.displayname
  description : p.description = m.properties.description
  type : p.type = m.properties.type
  level : p.level = m.properties.level
  writable : p.writable = m.properties.writable

section Decoding

variable {refused : Char → Bool} (hc : ∀ c, refused c = true → c < ' ') (p : MetricProperties)
include hc

/-- The option string is a Java one without the last place. -/
theorem plain_buildOptionString : Json.Plain refused p.buildOptionString := fun c hm =>
  plain_build hc p.type p.level p.writable c (List.mem_append_left ['0'] hm)

theorem named_members : Json.Layout.Named refused (members p) :=
  named_of_printable hc ["description".toList, "displayname".toList, "options".toList] rfl (by decide) (by decide)

end Decoding

variable {w : WebModule}

theorem decodeProperties_of_none {body : Text} (ho : w.json.getString body "options".toList = none) :
    w.decodeProperties body = .error .nullPointer := by
  rw [WebModule.decodeProperties, ho]
  rfl

theorem texts_of_decodeProperties {body : Text} {p : Plethora.MetricProperties} (h : w.decodeProperties body = .ok p) :
    p.displayname = (w.json.getString body "displayname".toList).getD [] ∧
      p.description = (w.json.getString body "description".toList).getD [] := by
  obtain ⟨level, -, h⟩ := bind_eq_ok.mp h
  obtain ⟨type, -, h⟩ := bind_eq_ok.mp h
  obtain ⟨writable, -, h⟩ := bind_eq_ok.mp h
  cases h
  exact ⟨rfl, rfl⟩

/-- The level is read as public and the flag for writing off the level. -/
theorem decodeProperties_of_some {body : Text} {p : MetricProperties}
    (ho : w.json.getString body "options".toList = some p.buildOptionString) :
    w.decodeProperties body = .ok ((({
        level := .publicLevel
        type := if p.type = .number then .number else if p.type = .boolean then .boolean else .text
        writable := p.level = .limited } : Plethora.MetricProperties).setDisplayname
          (w.json.getString body "displayname".toList)).setDescription
            (w.json.getString body "description".toList)) := by
  rw [WebModule.decodeProperties, ho]
  obtain ⟨type, level, displayname, description, writable⟩ := p
  cases type <;> cases level <;> rfl

/-- What is read of a metric's properties, as they are printed. -/
theorem describes_formatMap_iff {refused : Char → Bool} (hj : w.json.Conforms refused) (m : BaseMetric) :
    (∃ p, w.decodeProperties (formatMap m.properties.asMap) = .ok p ∧ Describes m p) ↔
      Faithful refused m.properties.displayname m.properties.description m.properties.level m.properties.writable := by
  rw [formatMap_asMap]
  have hn := named_members hj.control m.properties
  have hoptions := plain_buildOptionString hj.control m.properties
  have hread : (∀ e ∈ members m.properties, Json.Plain refused e.2) → ∀ e ∈ members m.properties,
      w.json.getString (spaced.object (members m.properties)) e.1 = some e.2 := fun h e he =>
    hj.getString_printed spaced hn h he
  constructor
  · rintro ⟨p, hp, hd⟩
    -- an option string was read, so there was an object
    obtain ⟨o, ho⟩ : ∃ o, w.json.getString (spaced.object (members m.properties)) "options".toList = some o := by
      cases ho : w.json.getString (spaced.object (members m.properties)) "options".toList with
      | none =>
        rw [decodeProperties_of_none ho] at hp
        cases hp
      | some o => exact ⟨o, rfl⟩
    obtain ⟨hdisplayname, hdescription⟩ := texts_of_decodeProperties hp
    have hplain : ∀ e ∈ members m.properties, Json.Plain refused e.2 := by
      refine hj.plain_of_getString spaced hn ho fun e he => ?_
      simp only [members, List.mem_cons, List.not_mem_nil, or_false] at he
      rcases he with rfl | rfl | rfl
      · refine Or.inr fun s (hs : w.json.getString _ "description".toList = some s) => ?_
        rw [hs] at hdescription
        exact hdescription.symm.trans hd.description
      · refine Or.inr fun s (hs : w.json.getString _ "displayname".toList = some s) => ?_
        rw [hs] at hdisplayname
        exact hdisplayname.symm.trans hd.displayname
      · exact Or.inl hoptions
    rw [decodeProperties_of_some (hread hplain _ (.tail _ (.tail _ (.head _))))] at hp
    cases hp
    have hlevel : m.properties.level = .publicLevel := hd.level.symm
    have hwritable : m.properties.writable = decide (m.properties.level = .limited) := hd.writable.symm
    rw [hlevel] at hwritable
    exact ⟨hplain _ (.tail _ (.head _)), hplain _ (.head _), hlevel, hwritable⟩
  · intro h
    have hplain : ∀ e ∈ members m.properties, Json.Plain refused e.2 := by
      intro e he
      simp only [members, List.mem_cons, List.not_mem_nil, or_false] at he
      rcases he with rfl | rfl | rfl
      · exact h.description
      · exact h.displayName
      · exact hoptions
    have hdescription := hread hplain _ (.head _)
    have hdisplayname := hread hplain _ (.tail _ (.head _))
    refine ⟨_, decodeProperties_of_some (hread hplain _ (.tail _ (.tail _ (.head _)))), ?_⟩
    rw [hdescription, hdisplayname]
    have htype : (if m.properties.type = .number then .number else if m.properties.type = .boolean then .boolean
        else MetricType.text) = m.properties.type := by
      rw [m.resolved]
      cases m.value <;> rfl
    have hwritable : decide (m.properties.level = .limited) = m.properties.writable := by
      rw [h.level, h.writable]
      rfl
    exact ⟨rfl, rfl, htype, h.level.symm, hwritable⟩

/-! ### The store -/

theorem getMetric_of_mem {s : Store} {m : BaseMetric} (hm : m ∈ s.metrics) : s.getMetric m.name = some m := by
  have hnodup : (s.metrics.map (·.name)).Nodup := by
    refine s.sorted.imp ?_
    rintro a b h rfl
    rw [before_irrefl] at h
    cases h
  cases hf : s.getMetric m.name with
  | none => exact absurd (decide_eq_true rfl) (List.find?_eq_none.mp hf m hm)
  | some m' =>
    have hname : m'.name = m.name := by simpa using List.find?_some hf
    rw [List.inj_on_of_nodup_map hnodup (List.mem_of_find?_eq_some hf) hm hname]

/-! ### The replies -/

/-- A reply that begins with no brace has no members. -/
theorem absent_of_head {refused : Char → Bool} (hj : w.json.Conforms refused) {c : Char} {t : Text}
    (hb : Json.isBlank c = false) (hc : c ≠ '{') (name : Text) : w.json.getString (c :: t) name = none ∧
      w.json.get (c :: t) name = none ∧ w.json.getStrings (c :: t) name = none := by
  refine hj.absent ?_
  rw [Json.member, Json.document_eq_none (Json.skip_cons hb t) hc]
  rfl

section Replies

variable (s : Store)

/-- Every reply to a request for a value begins with a quotation mark. -/
theorem exists_handle_get (n : Text) : ∃ t, handle s ("get".toList ++ '=' :: n) = '"' :: t := by
  rw [handle_get]
  split
  · exact ⟨_, rfl⟩
  · exact ⟨_, rfl⟩

variable {refused : Char → Bool} (hj : w.json.Conforms refused)
include hj

/-- No value is read. -/
theorem get_eq_none (n name : Text) : w.json.get (handle s ("get".toList ++ '=' :: n)) name = none := by
  obtain ⟨t, ht⟩ := exists_handle_get s n
  rw [ht]
  exact (absent_of_head hj (by decide) (by decide) name).2.1

/-- No name is read. -/
theorem listedNames_eq : w.listedNames (some (handle s ("list".toList ++ '=' :: "names".toList))) = none := by
  rw [handle_names, formatSet]
  exact (absent_of_head hj (by decide) (by decide) _).2.2

theorem describes_iff {m : BaseMetric} (hm : m ∈ s.metrics) (hr : reached m.name = m.name) :
    (∃ p, w.decodeProperties (handle s ("props".toList ++ '=' :: m.name)) = .ok p ∧ Describes m p) ↔
      m.name ≠ [] ∧ Faithful refused m.properties.displayname m.properties.description
        m.properties.level m.properties.writable := by
  by_cases hn : m.name = []
  · -- the default reply, of which no options are read
    have hdefault : handle s ("props".toList ++ '=' :: m.name) = handleDefault :=
      handle_props_default (Or.inl (hr.trans hn))
    have hnone : w.json.getString handleDefault "options".toList = none :=
      (absent_of_head hj (by decide) (by decide) _).1
    rw [hdefault, decodeProperties_of_none hnone]
    refine iff_of_false ?_ fun h => h.1 hn
    rintro ⟨p, hp, -⟩
    cases hp
  · have hfound : s.getMetric (reached m.name) = some m := by
      rw [hr]
      exact getMetric_of_mem hm
    rw [handle_props_of_metric (by rwa [hr]) hfound, describes_formatMap_iff hj]
    exact (and_iff_right hn).symm

end Replies

/-- The Java object of a value. -/
def Value.asObject : Value → JavaObject
  | .number v => .long v
  | .text v => .string v
  | .boolean v => .boolean v

/-- What the server reads of the replies is what the store has. -/
structure Mirrored (s : Store) (w : WebModule) : Prop where
  names : (w.listedNames (some (handle s ("list".toList ++ '=' :: "names".toList)))).getD [] = s.getMetricNames
  values : ∀ m ∈ s.metrics, w.json.get (handle s ("get".toList ++ '=' :: m.name)) m.name = some m.value.asObject
  properties : ∀ m ∈ s.metrics, ∃ p,
    w.decodeProperties (handle s ("props".toList ++ '=' :: m.name)) = .ok p ∧ Describes m p

/-- **The server reads a store exactly if there is nothing in it.** It reads no
names and no values; of a metric whose name is not cut it reads the properties
exactly if these are faithful and there is a name. -/
theorem replies_iff (s : Store) {w : WebModule} {refused : Char → Bool} (hj : w.json.Conforms refused) :
    (Mirrored s w ↔ s.metrics = []) ∧
    ((w.listedNames (some (handle s ("list".toList ++ '=' :: "names".toList)))).getD [] = s.getMetricNames ↔
      s.metrics = []) ∧
    ∀ m ∈ s.metrics, w.json.get (handle s ("get".toList ++ '=' :: m.name)) m.name = none ∧
      (reached m.name = m.name →
        ((∃ p, w.decodeProperties (handle s ("props".toList ++ '=' :: m.name)) = .ok p ∧ Describes m p) ↔
          m.name ≠ [] ∧ Faithful refused m.properties.displayname m.properties.description
            m.properties.level m.properties.writable)) := by
  have hnames : (w.listedNames (some (handle s ("list".toList ++ '=' :: "names".toList)))).getD [] = s.getMetricNames ↔
      s.metrics = [] := by
    rw [listedNames_eq s hj, Option.getD_none, Store.getMetricNames, eq_comm, List.map_eq_nil_iff]
  refine ⟨⟨fun h => hnames.mp h.names, fun h => ?_⟩, hnames, fun m hm => ⟨get_eq_none s hj m.name m.name,
    fun hr => describes_iff s hj hm hr⟩⟩
  refine ⟨hnames.mpr h, fun m hm => ?_, fun m hm => ?_⟩
  · rw [h] at hm
    cases hm
  · rw [h] at hm
    cases hm

/-- A public metric that cannot be written. -/
def rate : BaseMetric := ⟨"rate".toList, .number 5, { type := .number, displayname := "Rate".toList }, rfl⟩

def rateStore : Store := ⟨[rate], List.pairwise_singleton _ _⟩

/-- A module that reads JSON as specified. -/
def rateModule : WebModule where
  url := "https://demo:443".toList
  validUrl := true
  remote _ _ := .ioException
  json := OrgJson.reading fun c => decide (c < ' ')

theorem replies_iff_rate : ∃ p, rateModule.decodeProperties (handle rateStore ("props".toList ++ '=' :: rate.name)) = .ok p ∧
    Describes rate p := by
  have hc : ∀ c, decide (c < ' ') = true → c < ' ' := fun c => of_decide_eq_true
  have hj : rateModule.json.Conforms fun c => decide (c < ' ') := OrgJson.conforms_reading hc
  obtain ⟨-, hprops⟩ := (replies_iff rateStore hj).2.2 rate (.head _)
  refine (hprops (by decide)).mpr ⟨by decide, plain_of_printable hc (by decide), Json.plain_nil, rfl, rfl⟩

/-- Neither the name nor the value of the metric is read. -/
theorem rate_not_read :
    (rateModule.listedNames (some (handle rateStore ("list".toList ++ '=' :: "names".toList)))).getD [] ≠ ["rate".toList] ∧
    rateModule.json.get (handle rateStore ("get".toList ++ '=' :: "rate".toList)) "rate".toList ≠ some (.long 5) := by
  have hj : rateModule.json.Conforms fun c => decide (c < ' ') := OrgJson.conforms_reading fun c => of_decide_eq_true
  refine ⟨?_, ?_⟩
  · rw [listedNames_eq rateStore hj]
    exact (List.cons_ne_nil _ _).symm
  · rw [get_eq_none rateStore hj]
    exact (Option.some_ne_none _).symm

end Cpp

end Plethora
