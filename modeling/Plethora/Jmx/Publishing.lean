/-
# A client's metrics, published and discovered

A client publishes its registry as the attributes of its MBean, and
`JMXModule.discoverMetrics` adds a metric for every attribute. The discovery
always comes to its end: the option string is read, or nothing of the
description is. The server then has the client's metrics as the client has
them (`Reproduced`) exactly if every one of them can be described faithfully
and holds a value of its own type, whose class the attribute is published
with, and the module has a name: `publishing_iff`.

Key definitions: `Publishes`, `Fresh`, `Reproduced`, `Reproducible`.
Key theorems: `discoverAll_returned`, `reproduced_iff`, `publishing_iff`.
-/
import Plethora.Jmx.MBean
import Plethora.Data.Discovery

namespace Plethora

open Eff

/-- The MBean answers with the attributes of this registry. -/
def Publishes (info : Option (List MBeanAttributeInfo)) (client : Metrics) : Prop :=
  info.map (fun attribs => attribs.map some) = some (PlethoraMBean.buildMBeanInfo client)

/-- Nothing was discovered for the module yet. -/
structure Fresh (s : Running) : Prop where
  names : s.module.metricNames = TreeSet.empty
  metrics : ∀ n name, NameResolver.resolveMetricName n s.module.moduleName = some name → s.metrics.get name = none

/-- The metric registered for one of the client's. -/
structure SameMetric (m m' : Metric) : Prop where
  type : m'.metricType = m.metricType
  displayname : m'.properties.displayname = m.properties.displayname
  description : m'.properties.description = m.properties.description
  level : m'.properties.level = m.properties.level
  writable : m'.properties.writable = m.properties.writable

/-- The module has the client's metrics, and the registry of the server too,
and nothing else is new in it. -/
structure Reproduced (client : Metrics) (s s' : Running) : Prop where
  names : ∀ n, n ∈ s'.module.metricNames ↔ (client.get n).isSome = true
  metrics : ∀ n m, client.get n = some m → ∃ name m',
    NameResolver.resolveMetricName n s.module.moduleName = some name ∧ s'.metrics.get name = some m' ∧ SameMetric m m'
  others : ∀ name, (∀ n, (client.get n).isSome = true → NameResolver.resolveMetricName n s.module.moduleName ≠ some name) →
    s'.metrics.get name = s.metrics.get name

/-- A metric that comes out of the discovery as it was published. -/
structure Reproducible (refused : Char → Bool) (m : Metric) : Prop where
  faithful : Faithful refused m.properties.displayname m.properties.description m.properties.level m.properties.writable
  value : Metric.resolveMetricType m.lastValidValue = m.metricType

theorem NameResolver.resolveMetricName_injective {n n' module name : Text}
    (h : NameResolver.resolveMetricName n module = some name) (h' : NameResolver.resolveMetricName n' module = some name) :
    n = n' := by
  obtain ⟨-, -, he⟩ := NameResolver.resolveMetricName_eq_some h
  obtain ⟨-, -, he'⟩ := NameResolver.resolveMetricName_eq_some h'
  have hparts := List.append_cancel_left (he.symm.trans he')
  exact List.tail_eq_of_cons_eq (List.append_cancel_left (List.tail_eq_of_cons_eq hparts))

/-- A metric that the factory makes, with its properties and of their type. -/
theorem MetricFactory.getMetric_eq_some {name : Option Text} {p : MetricProperties} {m : Metric}
    (h : MetricFactory.getMetric name p = some m) : m.properties = p ∧ m.metricType = p.type := by
  unfold MetricFactory.getMetric at h
  split at h
  · cases h
  · cases h
  · split at h
    · cases h
    · rename_i v hv
      cases h
      refine ⟨rfl, MetricFactory.resolveMetricType_validValue ((MetricFactory.validValue_empty _).trans hv)⟩

theorem MetricFactory.exists_getMetric {name : Text} (hn : name ≠ []) {p : MetricProperties}
    (h : (MetricFactory.initialValue p.type).isSome = true) : ∃ m, MetricFactory.getMetric (some name) p = some m := by
  obtain ⟨v, hv⟩ := Option.isSome_iff_exists.mp h
  exact ⟨_, MetricFactory.getMetric_of_valid hn hv h⟩

/-! ### The attributes -/

theorem JMXModule.nameToType_of_not_mem {type : Text} (h : type ∉ javaLang) : JMXModule.nameToType type = .invalid := by
  have hmem : "java.lang.Long".toList ∈ javaLang ∧ "java.lang.String".toList ∈ javaLang ∧
      "java.lang.Boolean".toList ∈ javaLang := by
    simp only [javaLang, stringTypes, numberTypes, booleanTypes, List.mem_append, List.mem_cons, true_or, or_true,
      and_self]
  have hl : type ≠ "java.lang.Long".toList := fun he => h (he.symm ▸ hmem.1)
  have hs : type ≠ "java.lang.String".toList := fun he => h (he.symm ▸ hmem.2.1)
  have hb : type ≠ "java.lang.Boolean".toList := fun he => h (he.symm ▸ hmem.2.2)
  unfold JMXModule.nameToType
  rw [if_neg hl, if_neg hs, if_neg hb]

/-- The type a metric is discovered with, from the class of its value. -/
theorem JMXModule.nameToType_getClassName : ∀ v : JavaObject,
    JMXModule.nameToType v.getClassName = Metric.resolveMetricType (some v)
  | .string _ | .character _ | .boolean _ | .short _ | .integer _ | .long _ | .double _ | .float _ => rfl
  | .other _ h => JMXModule.nameToType_of_not_mem h

namespace PlethoraMBean

theorem mem_names {metrics : Metrics} {n : Text} : n ∈ names metrics ↔ (metrics.get n).isSome = true := by
  rw [names, TreeSet.mem_addAll, mem_keys_iff]
  exact or_iff_right List.not_mem_nil

end PlethoraMBean

/-- A metric is described by its attribute. -/
theorem attributeOf_eq_some {client : Metrics} {n : Text} {a : MBeanAttributeInfo} :
    PlethoraMBean.attributeOf client n = some a ↔ ∃ m v, client.get n = some m ∧ m.lastValidValue = some v ∧
      a = ⟨n, v.getClassName, some (PlethoraMBean.buildMetricPropertyDescription m)⟩ := by
  unfold PlethoraMBean.attributeOf Metric.getType
  cases client.get n with
  | none => simp
  | some m => cases hv : m.lastValidValue <;> simp [hv, eq_comm]

/-- The attributes of a registry, one for each metric. -/
theorem mem_attributes {client : Metrics} {attribs : List MBeanAttributeInfo}
    (h : Publishes (some attribs) client) {a : MBeanAttributeInfo} :
    a ∈ attribs ↔ ∃ m v, client.get a.name = some m ∧ m.lastValidValue = some v ∧ a.type = v.getClassName ∧
      a.description = some (PlethoraMBean.buildMetricPropertyDescription m) := by
  have hmap : attribs.map some = PlethoraMBean.buildMBeanInfo client := Option.some.inj h
  have hmem : a ∈ attribs ↔ some a ∈ attribs.map some := by simp
  rw [hmem, hmap, PlethoraMBean.buildMBeanInfo, List.mem_map]
  constructor
  · rintro ⟨n, -, ha⟩
    obtain ⟨m, v, hm, hv, rfl⟩ := attributeOf_eq_some.mp ha
    exact ⟨m, v, hm, hv, rfl, rfl⟩
  · rintro ⟨m, v, hm, hv, htype, hdesc⟩
    refine ⟨a.name, PlethoraMBean.mem_names.mpr (by rw [hm]; rfl), attributeOf_eq_some.mpr ⟨m, v, hm, hv, ?_⟩⟩
    rw [← htype, ← hdesc]

/-! ### The discovery -/

namespace JMXModule

variable (j : JMXModule)

/-- If every attribute is decoded, the loop over them comes to its end. -/
theorem discoverAll_returned : ∀ (attribs : List MBeanAttributeInfo) (s : Running),
    (∀ a ∈ attribs, ∃ p, j.decodeToProperties a.description = .ok p) →
    ∃ s', j.discoverAll attribs s = .returned () s'
  | [], s, _ => ⟨s, rfl⟩
  | a :: attribs, s, h => by
    obtain ⟨⟨p, hp⟩, hrest⟩ := List.forall_mem_cons.mp h
    obtain ⟨s', hs'⟩ := discoverAll_returned attribs
      (s.added a.name { p with type := nameToType a.type }) hrest
    refine ⟨s', ?_⟩
    rw [discoverAll, hp]
    exact hs'

/-- What the attributes describe, if every one is decoded. -/
theorem mem_describedBy : ∀ {attribs : List MBeanAttributeInfo}
    (_ : ∀ a ∈ attribs, ∃ p, j.decodeToProperties a.description = .ok p) {d : Description},
    d ∈ j.describedBy attribs ↔ ∃ a ∈ attribs, ∃ p, j.decodeToProperties a.description = .ok p ∧
      d = (a.name, { p with type := nameToType a.type })
  | [], _, d => by simp [describedBy]
  | a :: attribs, h, d => by
    obtain ⟨⟨p, hp⟩, hrest⟩ := List.forall_mem_cons.mp h
    have ih := mem_describedBy hrest (d := d)
    rw [describedBy, hp, List.exists_mem_cons_iff]
    simp only [List.mem_cons, ih, hp, Except.ok.injEq, exists_eq_left']

end JMXModule

/-! ### What is discovered of what was published -/

section Published

variable {j : JMXModule} {refused : Char → Bool} (hj : j.json.Conforms refused) {client : Metrics}
  {attribs : List MBeanAttributeInfo} (h : Publishes (some attribs) client)
include hj h

/-- Every description is decoded, one way or another. -/
theorem exists_decoded : ∀ a ∈ attribs, ∃ p, j.decodeToProperties a.description = .ok p := by
  intro a ha
  obtain ⟨m, v, -, -, -, hdesc⟩ := (mem_attributes h).mp ha
  obtain ⟨p, hp, -⟩ := j.exists_decode hj m.properties.displayname m.properties.description m.metricType
    m.properties.level m.properties.writable
  exact ⟨p, by rw [hdesc]; exact hp⟩

/-- The descriptions, one for each metric of the client. -/
theorem mem_described {d : Description} : d ∈ j.describedBy attribs ↔ ∃ m v p, client.get d.1 = some m ∧
    m.lastValidValue = some v ∧
    j.decodeToProperties (some (PlethoraMBean.buildMetricPropertyDescription m)) = .ok p ∧
    d.2 = { p with type := Metric.resolveMetricType (some v) } := by
  rw [j.mem_describedBy (exists_decoded hj h)]
  constructor
  · rintro ⟨a, ha, p, hp, rfl⟩
    obtain ⟨m, v, hm, hv, htype, hdesc⟩ := (mem_attributes h).mp ha
    rw [hdesc] at hp
    exact ⟨m, v, p, hm, hv, hp, by rw [htype, JMXModule.nameToType_getClassName]⟩
  · rintro ⟨m, v, p, hm, hv, hp, hd⟩
    have ha : ⟨d.1, v.getClassName, some (PlethoraMBean.buildMetricPropertyDescription m)⟩ ∈ attribs :=
      (mem_attributes h).mpr ⟨m, v, hm, hv, rfl, rfl⟩
    refine ⟨_, ha, p, hp, ?_⟩
    rw [JMXModule.nameToType_getClassName, ← hd]

/-- A metric of the client's and its description. -/
theorem exists_described (hv : client.Valued) {n : Text} {m : Metric} (hm : client.get n = some m) :
    ∃ p, (n, p) ∈ j.describedBy attribs ∧ (∀ d ∈ j.describedBy attribs, d.1 = n → d.2 = p) ∧
      p.type = Metric.resolveMetricType m.lastValidValue ∧
      (p.displayname = m.properties.displayname ∧ p.description = m.properties.description ∧
        p.level = m.properties.level ∧ p.writable = m.properties.writable ↔
        Faithful refused m.properties.displayname m.properties.description m.properties.level m.properties.writable) := by
  obtain ⟨v, hval⟩ := Option.isSome_iff_exists.mp (hv n m hm).2
  obtain ⟨p, hp, hiff, -⟩ := j.exists_decode hj m.properties.displayname m.properties.description m.metricType
    m.properties.level m.properties.writable
  refine ⟨{ p with type := Metric.resolveMetricType (some v) }, ?_, ?_, by rw [hval], hiff⟩
  · exact (mem_described hj h).mpr ⟨m, v, p, hm, hval, hp, rfl⟩
  · intro d hd hn
    obtain ⟨m', v', p', hm', hval', hp', hd'⟩ := (mem_described hj h).mp hd
    rw [hn, hm] at hm'
    cases hm'
    cases hval.symm.trans hval'
    cases hp.symm.trans hp'
    exact hd'

/-- What is registered for a metric of the client's. -/
theorem get_addedAll_described (hv : client.Valued) {s : Running} (hfresh : Fresh s) {n name : Text} {m : Metric}
    (hm : client.get n = some m) (hname : NameResolver.resolveMetricName n s.module.moduleName = some name)
    {p : MetricProperties} (hp : (n, p) ∈ j.describedBy attribs) :
    (s.catalog.addedAll (j.describedBy attribs)).metrics.get name = MetricFactory.getMetric (some name) p := by
  obtain ⟨p', -, honly, -⟩ := exists_described hj h hv hm
  have hpp : p = p' := honly (n, p) hp rfl
  have honly : ∀ d ∈ j.describedBy attribs, Takes s.module.moduleName name d → d.2 = p := fun d hd ht =>
    (honly d hd (NameResolver.resolveMetricName_injective ht.1 hname)).trans hpp.symm
  have hmodule : s.catalog.moduleName = s.module.moduleName := rfl
  rw [Catalog.get_addedAll, hmodule]
  cases ht : taken s.module.moduleName name (j.describedBy attribs) with
  | some q =>
    obtain ⟨d, hd, htakes, hq⟩ := exists_of_taken ht
    rw [← hq, honly d hd htakes]
  | none =>
    have hnot : ¬ Takes s.module.moduleName name (n, p) := taken_eq_none.mp ht (n, p) hp
    have hinvalid : MetricFactory.initialValue p.type = none := by
      simpa [Takes, hname] using hnot
    exact (hfresh.metrics n name hname).trans (MetricFactory.getMetric_of_invalid hinvalid).symm

end Published

/-- The metric made of a description is the one published exactly if that is
reproducible. -/
theorem same_iff {refused : Char → Bool} {client : Metrics} (ht : client.Typed) {n name : Text} {m : Metric}
    (hm : client.get n = some m) (hname : name ≠ []) {p : MetricProperties}
    (hp : p.type = Metric.resolveMetricType m.lastValidValue)
    (hiff : p.displayname = m.properties.displayname ∧ p.description = m.properties.description ∧
        p.level = m.properties.level ∧ p.writable = m.properties.writable ↔
      Faithful refused m.properties.displayname m.properties.description m.properties.level m.properties.writable) :
    (∃ m', MetricFactory.getMetric (some name) p = some m' ∧ SameMetric m m') ↔ Reproducible refused m := by
  constructor
  · rintro ⟨m', hmade, hsame⟩
    obtain ⟨rfl, htype⟩ := MetricFactory.getMetric_eq_some hmade
    refine ⟨hiff.mp ⟨hsame.displayname, hsame.description, hsame.level, hsame.writable⟩, ?_⟩
    rw [← hp, ← htype, hsame.type]
  · rintro ⟨hfaithful, hvalue⟩
    have htype : p.type = m.properties.type := by
      rw [hp, hvalue]
      exact ht.type (n, m) (mem_of_lookup hm)
    obtain ⟨m', hmade⟩ := MetricFactory.exists_getMetric (p := p) hname (by rw [htype]; exact m.made)
    obtain ⟨rfl, htype'⟩ := MetricFactory.getMetric_eq_some hmade
    obtain ⟨h1, h2, h3, h4⟩ := hiff.mpr hfaithful
    exact ⟨m', hmade, by rw [htype', hp, hvalue], h1, h2, h3, h4⟩

section Reproducing

variable {j : JMXModule} {refused : Char → Bool} (hj : j.json.Conforms refused) {changes : List Metrics.Change}
  {attribs : List MBeanAttributeInfo} (h : Publishes (some attribs) (Metrics.registry changes))
  {s s' : Running} (hs' : s'.catalog = s.catalog.addedAll (j.describedBy attribs))
include hj h hs'

/-- The server's registry under any other name. -/
theorem get_of_others {name : Text} (hn : ∀ n, ((Metrics.registry changes).get n).isSome = true →
    NameResolver.resolveMetricName n s.module.moduleName ≠ some name) : s'.metrics.get name = s.metrics.get name := by
  have hmetrics : s'.metrics = (s.catalog.addedAll (j.describedBy attribs)).metrics := by rw [← hs']; rfl
  have hmodule : s.catalog.moduleName = s.module.moduleName := rfl
  have hnone : taken s.module.moduleName name (j.describedBy attribs) = none := by
    refine taken_eq_none.mpr fun d hd ht => ?_
    obtain ⟨m, v, p, hm, -⟩ := (mem_described hj h).mp hd
    exact hn d.1 (by rw [hm]; rfl) ht.1
  rw [hmetrics, Catalog.get_addedAll, hmodule, hnone]
  rfl

variable (hfresh : Fresh s)
include hfresh

/-- The names listed are the client's. -/
theorem mem_metricNames (n : Text) :
    n ∈ s'.module.metricNames ↔ ((Metrics.registry changes).get n).isSome = true := by
  have hlisted : s'.module.metricNames = (s.catalog.addedAll (j.describedBy attribs)).metricNames := by rw [← hs']; rfl
  have hempty : s.catalog.metricNames = TreeSet.empty := hfresh.names
  rw [hlisted, Catalog.mem_addedAll, hempty]
  refine (or_iff_right List.not_mem_nil).trans ⟨?_, fun hm => ?_⟩
  · rintro ⟨d, hd, rfl⟩
    obtain ⟨m, v, p, hm, -⟩ := (mem_described hj h).mp hd
    rw [hm]
    rfl
  · obtain ⟨m, hm⟩ := Option.isSome_iff_exists.mp hm
    obtain ⟨p, hp, -⟩ := exists_described hj h (Metrics.valued_registry changes) hm
    exact ⟨(n, p), hp, rfl⟩

/-- What comes of the discovery is what was published, if each metric is
reproducible and the module has a name. -/
theorem reproduced_iff : Reproduced (Metrics.registry changes) s s' ↔ ∀ n m, (Metrics.registry changes).get n = some m →
    s.module.moduleName ≠ [] ∧ Reproducible refused m := by
  have hmetrics : s'.metrics = (s.catalog.addedAll (j.describedBy attribs)).metrics := by rw [← hs']; rfl
  have hv := Metrics.valued_registry changes
  have ht := Metrics.typed_registry changes
  constructor
  · intro hr n m hm
    obtain ⟨name, m', hname, hget, hsame⟩ := hr.metrics n m hm
    obtain ⟨p, hp, -, htype, hiff⟩ := exists_described hj h hv hm
    rw [hmetrics, get_addedAll_described hj h hv hfresh hm hname hp] at hget
    refine ⟨(NameResolver.resolveMetricName_eq_some hname).2.1, ?_⟩
    exact (same_iff ht hm (NameResolver.fullName_ne_nil hname) htype hiff).mp ⟨m', hget, hsame⟩
  · intro hall
    refine ⟨mem_metricNames hj h hs' hfresh, fun n m hm => ?_, fun name hn => get_of_others hj h hs' hn⟩
    obtain ⟨hmodule, hrep⟩ := hall n m hm
    obtain ⟨p, hp, -, htype, hiff⟩ := exists_described hj h hv hm
    have hname : NameResolver.resolveMetricName n s.module.moduleName =
        some (NameResolver.rootElement ++ '.' :: s.module.moduleName ++ '.' :: n) := if_pos ⟨(hv n m hm).1, hmodule⟩
    obtain ⟨m', hget, hsame⟩ := (same_iff ht hm (NameResolver.fullName_ne_nil hname) htype hiff).mpr hrep
    refine ⟨_, m', hname, ?_, hsame⟩
    rw [hmetrics, get_addedAll_described hj h hv hfresh hm hname hp, hget]

end Reproducing

/-- The discovery comes to its end, with what the attributes describe. -/
theorem exists_discovered {j : JMXModule} {refused : Char → Bool} (hj : j.json.Conforms refused) {client : Metrics}
    {s : Running} {attribs : List MBeanAttributeInfo} (hi : (j.answer s).info = some attribs)
    (h : Publishes (some attribs) client) :
    ∃ s', j.discoverMetrics s = .returned () s' ∧ s'.catalog = s.catalog.addedAll (j.describedBy attribs) := by
  obtain ⟨s', hs'⟩ := j.discoverAll_returned attribs (s.recorded (.discovery (some (attribs.map (·.name)))))
    (exists_decoded hj h)
  refine ⟨s', ?_, ?_⟩
  · rw [← hs']
    simp only [JMXModule.discoverMetrics, bind_apply, Eff.get, Module.record, Eff.modify, hi, Option.map_some]
  · have hens := j.ensures_discoverAll_discovered attribs (s.recorded (.discovery (some (attribs.map (·.name)))))
    rw [Ensures, hs'] at hens
    exact hens.2

/-- **What a client publishes is discovered as it is exactly if it is
reproducible.** The parser inverts the printer for the faithful descriptions
of the three types and no others; a discovery of a client's MBean, whatever
the client did to its registry, comes to its end and makes the client's
metrics the module's exactly if each of them is reproducible. -/
theorem publishing_iff {j : JMXModule} {refused : Char → Bool} (hj : j.json.Conforms refused) :
    (∀ displayname description type level writable, (MetricFactory.initialValue type).isSome = true →
      (j.decodeToProperties (some (MetricDescriptionBuilder.encodeToJSON displayname description
          (OptionString.build type level writable))) = .ok { displayname, description, level, type, writable } ↔
        Faithful refused displayname description level writable)) ∧
    ∀ changes s, Fresh s → Publishes (j.answer s).info (Metrics.registry changes) →
      ((∃ s', j.discoverMetrics s = .returned () s' ∧ Reproduced (Metrics.registry changes) s s') ↔
        ∀ n m, (Metrics.registry changes).get n = some m → s.module.moduleName ≠ [] ∧ Reproducible refused m) := by
  refine ⟨fun displayname description type level writable ht => j.decodes_iff hj displayname description ht level writable,
    fun changes s hfresh hp => ?_⟩
  obtain ⟨attribs, hi⟩ : ∃ attribs, (j.answer s).info = some attribs := by
    cases hi : (j.answer s).info with
    | none =>
      rw [hi] at hp
      cases hp
    | some attribs => exact ⟨attribs, rfl⟩
  rw [hi] at hp
  obtain ⟨s', hs', hcat⟩ := exists_discovered hj hi hp
  rw [← reproduced_iff hj hp hcat hfresh]
  constructor
  · rintro ⟨s'', hs'', hr⟩
    rw [hs'] at hs''
    cases hs''
    exact hr
  · exact fun hr => ⟨s', hs', hr⟩

/-- A client with one metric, public and not writable. -/
def rateChanges : List Metrics.Change := [.addMetric (some "rate".toList) none { displayname := "Rate".toList }]

/-- A module whose MBean answers with these attributes, read as specified. -/
def JMXModule.answering (attribs : List MBeanAttributeInfo) : JMXModule where
  remote _ := { connects := true, info := some attribs, getAttribute := .jmxException }
  json := OrgJson.reading fun c => decide (c < ' ')

theorem publishing_iff_rate :
    ∃ s', (JMXModule.answering [⟨"rate".toList, "java.lang.Long".toList,
        some (MetricDescriptionBuilder.encodeToJSON "Rate".toList [] "10000000".toList)⟩]).discoverMetrics
          ⟨{ moduleName := "demo".toList }, {}⟩ = .returned () s' ∧
      Reproduced (Metrics.registry rateChanges) ⟨{ moduleName := "demo".toList }, {}⟩ s' := by
  have hj : (JMXModule.answering [⟨"rate".toList, "java.lang.Long".toList,
      some (MetricDescriptionBuilder.encodeToJSON "Rate".toList [] "10000000".toList)⟩]).json.Conforms
        fun c => decide (c < ' ') := OrgJson.conforms_reading fun c => of_decide_eq_true
  refine ((publishing_iff hj).2 rateChanges ⟨{ moduleName := "demo".toList }, {}⟩ ⟨rfl, fun _ _ _ => rfl⟩ rfl).mpr ?_
  intro n m hm
  have hmem : (n, m) ∈ [("rate".toList,
      Metric.init "rate".toList (.long 0) { displayname := "Rate".toList } rfl)] := mem_of_lookup hm
  cases List.mem_singleton.mp hmem
  exact ⟨by decide, ⟨plain_of_printable hj.control (by decide), Json.plain_nil, rfl, rfl⟩, rfl⟩

/-- The level of a limited metric is lost, and it becomes writable. -/
theorem limited_not_decoded :
    (JMXModule.answering []).decodeToProperties (some (MetricDescriptionBuilder.encodeToJSON "Rate".toList []
      (OptionString.build .number .limited false))) ≠ .ok { displayname := "Rate".toList, level := .limited } := by
  have hj : (JMXModule.answering []).json.Conforms fun c => decide (c < ' ') :=
    OrgJson.conforms_reading fun c => of_decide_eq_true
  intro h
  have hfaithful := ((JMXModule.answering []).decodes_iff hj "Rate".toList [] rfl .limited false).mp h
  cases hfaithful.level

end Plethora
