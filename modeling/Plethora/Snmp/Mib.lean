/-
# The MIB

`MIBEngine`: the text it writes is a header, the object identifiers of the
enterprise OID and of the modules, and a section for every metric. Modules and
metrics are numbered by running counters, in the order of the same sorted sets
the agent's positions are taken from; a section is given the id of its metric,
and its module by name. `MetricEntry` keeps the id of the module's line too.

Where every listed name has a metric, the writer's numbers are the agent's:
`buildMib_agrees`.

Key definitions: `MIBEngine.makeOidMap`, `MIBEngine.buildModules`,
`MIBEngine.buildSections`, `MIBEngine.buildMib`, `MIBEngine.numbered`,
`MetricService.AllRegistered`, `SnmpAgent.Reaches`, `SnmpAgent.MibAgrees`.
Key theorems: `buildSections_numbered`, `buildSections_ok`, `mem_numbered`,
`buildMib_agrees`.
-/
import Plethora.Snmp.GetNext
import Plethora.Snmp.Template

namespace Plethora

/-- What an OID line is made of. -/
structure OidEntry where
  name : Text
  parent : Text
  id : ℕ
  deriving DecidableEq

/-- What a metric's section is made of. -/
structure MetricEntry where
  /-- The id of its module's line, which the section refers to by name. -/
  moduleId : ℕ
  id : ℕ
  name : Text
  parent : Text
  properties : MetricProperties
  syntx : Text
  deriving DecidableEq

structure MIBEngine where
  metricService : MetricService
  mibUrl : Option Text
  productName : Text

namespace MIBEngine

variable (engine : MIBEngine)

def MIB_OID_ENTERPRISE_NAME : Text := "enterprises".toList

def MIB_OID_NAME_DEFAULT : Text := "NOT_PROVIDED".toList

def MIB_OID_PLETHORA_SUBTREE_ROOT : Text := "metrics".toList

def MIB_OID_COMMON_ROOT_COUNT : ℕ := 6

/-- `METRIC_SYNTAX_MAP.get(type)`. -/
def getSyntaxByType : MetricType → Option Text
  | .text => some "DisplayString".toList
  | .number => some "INTEGER".toList
  | .boolean => some "INTEGER  \x7btrue(1), false(2)\x7d".toList
  | .unspecified => none
  | .invalid => none

/-- `Integer.valueOf` of the digits of a number. -/
def integerValueOf (number : ℕ) : Except JavaError ℕ :=
  if number < 2 ^ 31 then .ok number else .error .illegalArgument

/-- The numbers after those of `enterprises`, with their names. -/
def named (numbers : List ℕ) (names : List Text) : List (ℕ × Text) :=
  (numbers.zipIdx.drop MIB_OID_COMMON_ROOT_COUNT).map fun (number, i) =>
    (number, names.getD i MIB_OID_NAME_DEFAULT)

/-- The entries put in `oidMap`, in order; `oidList` is their keys. -/
def makeOidMap (numbers : List ℕ) (names : List Text) : Except JavaError (List (ℕ × Text)) := do
  let numbers ← numbers.mapM integerValueOf
  return named numbers names

/-- `oidMap.get(key)` of a key in `oidList`: the entry put last. -/
def oidName (oidMap : List (ℕ × Text)) (key : ℕ) : Text := (oidMap.reverse.lookup key).getD []

/-- The loop over `oidList`. -/
def oidEntries (oidMap : List (ℕ × Text)) (parent : Text) : List ℕ → List OidEntry
  | [] => []
  | key :: keys => ⟨oidName oidMap key, parent, key⟩ :: oidEntries oidMap (oidName oidMap key) keys

/-- The parent the loop ends with. -/
def lastParent (oidMap : List (ℕ × Text)) (parent : Text) (keys : List ℕ) : Text :=
  match keys.getLast? with
  | none => parent
  | some key => oidName oidMap key

/-- The loop of `buildModules`, from a value of its counter on. -/
def buildModules (parent : Text) : List Text → ℕ → List OidEntry
  | [], _ => []
  | module :: modules, id => ⟨module, parent, id⟩ :: buildModules parent modules (id + 1)

/-- `buildMetric`: it dereferences the properties, and replaces a label by the
syntax. -/
def buildMetric (name : Text) (properties : Option MetricProperties) (parent : Text) (moduleId id : ℕ) :
    Except JavaError MetricEntry :=
  match properties with
  | none => .error .nullPointer
  | some p =>
    match getSyntaxByType p.type with
    | none => .error .nullPointer
    | some syntx => .ok { moduleId, id, name, parent, properties := p, syntx }

/-- The inner loop over a module's metrics, from a value of its counter on. -/
def buildMetrics (module : Text) (moduleId : ℕ) : List Text → ℕ → Except JavaError (List MetricEntry)
  | [], _ => .ok []
  | metric :: metrics, id => do
    let properties ← engine.metricService.getMetricProperties module metric
    let entry ← buildMetric metric properties module moduleId id
    let entries ← buildMetrics module moduleId metrics (id + 1)
    return entry :: entries

/-- The outer loop over the modules, of which the first has this id. -/
def buildSections : List Text → ℕ → Except JavaError (List MetricEntry)
  | [], _ => .ok []
  | module :: modules, moduleId => do
    let entries ← engine.buildMetrics module moduleId (engine.metricService.metricList module) 1
    let more ← buildSections modules (moduleId + 1)
    return entries ++ more

/-- The entries of the object identifier lines, from the enterprise down to
the modules. -/
def oidLines (oidMap : List (ℕ × Text)) : List OidEntry :=
  let keys := oidMap.map (·.1)
  oidEntries oidMap MIB_OID_ENTERPRISE_NAME keys ++
    ⟨MIB_OID_PLETHORA_SUBTREE_ROOT, lastParent oidMap MIB_OID_ENTERPRISE_NAME keys, 1⟩ ::
      buildModules MIB_OID_PLETHORA_SUBTREE_ROOT engine.metricService.moduleList 1

def transformLine (e : OidEntry) : Text := Transformer.transformOidLine e.name e.parent e.id

def transformMetric (e : MetricEntry) : Text :=
  let description :=
    if e.properties.description = [] then "Metric for ".toList ++ e.name else e.properties.description
  ObjectSectionTransformer.transform e.name e.syntx description e.parent e.id

/-- The text with these lines and sections. -/
def contents (date : Text) (lines : List OidEntry) (sections : List MetricEntry) : Text :=
  Transformer.transformHeaderSection engine.productName date engine.mibUrl ++ lines.flatMap transformLine ++
    Template.EOL ++ sections.flatMap transformMetric ++ Template.END_LINE

def buildMib (date : Text) (oidMap : List (ℕ × Text)) : Except JavaError Text := do
  let sections ← engine.buildSections engine.metricService.moduleList 1
  return engine.contents date (engine.oidLines oidMap) sections

/-- `generateMib`, up to the writing of the file. -/
def generateMib (date : Text) (numbers : List ℕ) (names : List Text) : Except JavaError Text := do
  let oidMap ← makeOidMap numbers names
  engine.buildMib date oidMap

end MIBEngine

/-! ### What the loops number -/

namespace MetricService

variable (service : MetricService)

/-- Every name a module lists has a registered metric. -/
def AllRegistered : Prop :=
  ∀ module ∈ service.moduleList, ∀ metric ∈ service.metricList module,
    ∃ m, service.metrics.getMetric (NameResolver.resolveMetricName metric module) = .ok (some m)

end MetricService

/-- The ids a section is given, with the names of its module and its metric. -/
def MetricEntry.numbers (e : MetricEntry) : (ℕ × ℕ) × Text × Text := ((e.moduleId, e.id), e.parent, e.name)

namespace MIBEngine

variable (engine : MIBEngine)

/-- The places of a module's metrics, from a metric id on. -/
def numberedMetrics (module : Text) (moduleId : ℕ) : List Text → ℕ → List ((ℕ × ℕ) × Text × Text)
  | [], _ => []
  | metric :: metrics, id =>
    ((moduleId, id), module, metric) :: numberedMetrics module moduleId metrics (id + 1)

/-- The places of all metrics, in the order of their sections. -/
def numbered : List Text → ℕ → List ((ℕ × ℕ) × Text × Text)
  | [], _ => []
  | module :: modules, moduleId =>
    numberedMetrics module moduleId (engine.metricService.metricList module) 1 ++ numbered modules (moduleId + 1)

/-- What the writer says of a metric. -/
structure Describes (e : MetricEntry) (m : Metric) : Prop where
  registered : engine.metricService.metrics.getMetric (NameResolver.resolveMetricName e.name e.parent) =
    .ok (some m)
  properties : e.properties = m.properties
  syntx : getSyntaxByType m.properties.type = some e.syntx

/-- No syntax has a label of the template's, or a line break. -/
theorem syntax_plain {type : MetricType} {s : Text} (h : getSyntaxByType type = some s) : '<' ∉ s ∧ '\n' ∉ s := by
  cases type <;> cases h <;> decide

/-- A metric the factory made has a syntax. -/
theorem getSyntaxByType_made (m : Metric) : ∃ s, getSyntaxByType m.properties.type = some s := by
  have h := m.made
  revert h
  cases m.properties.type <;> simp [MetricFactory.initialValue, getSyntaxByType]

/-- One section, for a metric that is registered. -/
theorem buildMetric_eq {module metric : Text} {moduleId id : ℕ} {m : Metric} {s : Text}
    (hm : engine.metricService.metrics.getMetric (NameResolver.resolveMetricName metric module) = .ok (some m))
    (hs : getSyntaxByType m.properties.type = some s) :
    (engine.metricService.getMetricProperties module metric >>= fun properties =>
      buildMetric metric properties module moduleId id) =
      .ok { moduleId, id, name := metric, parent := module, properties := m.properties, syntx := s } := by
  rw [MetricService.getMetricProperties, hm]
  simp only [bind, Except.bind, pure, Except.pure, Option.map_some, buildMetric, hs]

/-- One section, read back. -/
theorem buildMetric_ok {module metric : Text} {moduleId id : ℕ} {e : MetricEntry}
    (h : (engine.metricService.getMetricProperties module metric >>= fun properties =>
      buildMetric metric properties module moduleId id) = .ok e) :
    MetricEntry.numbers e = ((moduleId, id), module, metric) ∧ ∃ m, engine.Describes e m := by
  unfold MetricService.getMetricProperties at h
  cases hm : engine.metricService.metrics.getMetric (NameResolver.resolveMetricName metric module) with
  | error e =>
    rw [hm] at h
    cases h
  | ok metric' =>
    rw [hm] at h
    cases metric' with
    | none => cases h
    | some m =>
      obtain ⟨s, hs⟩ := getSyntaxByType_made m
      simp only [bind, Except.bind, pure, Except.pure, Option.map_some, buildMetric, hs] at h
      cases h
      exact ⟨rfl, m, hm, rfl, hs⟩

theorem buildMetrics_cons (module metric : Text) (moduleId : ℕ) (metrics : List Text) (id : ℕ) :
    engine.buildMetrics module moduleId (metric :: metrics) id =
      ((engine.metricService.getMetricProperties module metric >>= fun properties =>
        buildMetric metric properties module moduleId id) >>= fun entry =>
        (engine.buildMetrics module moduleId metrics (id + 1)).map fun entries => entry :: entries) := by
  rw [buildMetrics, bind_assoc]
  rfl

theorem buildMetrics_numbered (module : Text) (moduleId : ℕ) : ∀ (metrics : List Text) (id : ℕ)
    (entries : List MetricEntry), engine.buildMetrics module moduleId metrics id = .ok entries →
    entries.map MetricEntry.numbers = numberedMetrics module moduleId metrics id ∧
      ∀ e ∈ entries, ∃ m, engine.Describes e m
  | [], _, _, h => by
    cases h
    exact ⟨rfl, nofun⟩
  | metric :: metrics, id, entries, h => by
    rw [buildMetrics_cons] at h
    obtain ⟨e, he, h⟩ := bind_eq_ok.mp h
    obtain ⟨more, hmore, h⟩ := bind_eq_ok.mp h
    cases h
    obtain ⟨hn, hd⟩ := engine.buildMetric_ok he
    obtain ⟨ihn, ihd⟩ := buildMetrics_numbered module moduleId metrics (id + 1) more hmore
    refine ⟨by rw [List.map_cons, hn, ihn, numberedMetrics], fun e' he' => ?_⟩
    rcases List.mem_cons.mp he' with rfl | he'
    · exact hd
    · exact ihd e' he'

theorem buildSections_numbered : ∀ (modules : List Text) (moduleId : ℕ) (entries : List MetricEntry),
    engine.buildSections modules moduleId = .ok entries →
    entries.map MetricEntry.numbers = engine.numbered modules moduleId ∧
      ∀ e ∈ entries, ∃ m, engine.Describes e m
  | [], _, _, h => by
    cases h
    exact ⟨rfl, nofun⟩
  | module :: modules, moduleId, entries, h => by
    obtain ⟨own, he, h⟩ := bind_eq_ok.mp h
    obtain ⟨more, hmore, h⟩ := bind_eq_ok.mp h
    cases h
    obtain ⟨hn, hd⟩ := engine.buildMetrics_numbered module moduleId _ 1 own he
    obtain ⟨ihn, ihd⟩ := buildSections_numbered modules (moduleId + 1) more hmore
    refine ⟨by rw [List.map_append, hn, ihn, numbered], fun e' he' => ?_⟩
    rcases List.mem_append.mp he' with he' | he'
    · exact hd e' he'
    · exact ihd e' he'

/-! ### Nothing stops the writer if every metric is there -/

theorem buildMetrics_ok (module : Text) (moduleId : ℕ) : ∀ (metrics : List Text) (id : ℕ),
    (∀ metric ∈ metrics, ∃ m, engine.metricService.metrics.getMetric
      (NameResolver.resolveMetricName metric module) = .ok (some m)) →
    ∃ entries, engine.buildMetrics module moduleId metrics id = .ok entries
  | [], _, _ => ⟨[], rfl⟩
  | metric :: metrics, id, h => by
    obtain ⟨m, hm⟩ := h metric (List.mem_cons_self ..)
    obtain ⟨s, hs⟩ := getSyntaxByType_made m
    obtain ⟨entries, he⟩ := buildMetrics_ok module moduleId metrics (id + 1)
      fun n hn => h n (List.mem_cons_of_mem _ hn)
    refine ⟨{ moduleId, id, name := metric, parent := module, properties := m.properties, syntx := s } :: entries,
      ?_⟩
    rw [buildMetrics_cons, engine.buildMetric_eq hm hs]
    simp only [bind, Except.bind, he, Except.map]

theorem buildSections_ok : ∀ (modules : List Text) (moduleId : ℕ),
    (∀ module ∈ modules, ∀ metric ∈ engine.metricService.metricList module,
      ∃ m, engine.metricService.metrics.getMetric (NameResolver.resolveMetricName metric module) = .ok (some m)) →
    ∃ entries, engine.buildSections modules moduleId = .ok entries
  | [], _, _ => ⟨[], rfl⟩
  | module :: modules, moduleId, h => by
    obtain ⟨entries, he⟩ := engine.buildMetrics_ok module moduleId _ 1 (h module (List.mem_cons_self ..))
    obtain ⟨more, hmore⟩ := buildSections_ok modules (moduleId + 1)
      fun n hn => h n (List.mem_cons_of_mem _ hn)
    refine ⟨entries ++ more, ?_⟩
    rw [buildSections, he, hmore]
    rfl

/-! ### The numbers are positions -/

theorem mem_numberedMetrics {module : Text} {moduleId : ℕ} {m k : ℕ} {n x : Text} :
    ∀ {metrics : List Text} {id : ℕ}, ((m, k), n, x) ∈ numberedMetrics module moduleId metrics id ↔
      m = moduleId ∧ n = module ∧ ∃ j, k = id + j ∧ metrics[j]? = some x
  | [], id => by simp [numberedMetrics]
  | metric :: metrics, id => by
    rw [numberedMetrics, List.mem_cons, mem_numberedMetrics]
    constructor
    · rintro (h | ⟨rfl, rfl, j, rfl, hj⟩)
      · cases h
        exact ⟨rfl, rfl, 0, rfl, rfl⟩
      · exact ⟨rfl, rfl, j + 1, by omega, hj⟩
    · rintro ⟨rfl, rfl, j, rfl, hj⟩
      cases j with
      | zero =>
        cases hj
        exact Or.inl rfl
      | succ j => exact Or.inr ⟨rfl, rfl, j, by omega, hj⟩

theorem mem_numbered {m k : ℕ} {n x : Text} : ∀ {modules : List Text} {moduleId : ℕ},
    ((m, k), n, x) ∈ engine.numbered modules moduleId ↔ ∃ j, m = moduleId + j ∧ modules[j]? = some n ∧
      ∃ j', k = 1 + j' ∧ (engine.metricService.metricList n)[j']? = some x
  | [], moduleId => by simp [numbered]
  | module :: modules, moduleId => by
    rw [numbered, List.mem_append, mem_numberedMetrics, mem_numbered]
    constructor
    · rintro (⟨rfl, rfl, h⟩ | ⟨j, rfl, h⟩)
      · exact ⟨0, rfl, rfl, h⟩
      · exact ⟨j + 1, by omega, h⟩
    · rintro ⟨j, rfl, hj, h⟩
      cases j with
      | zero =>
        cases hj
        exact Or.inl ⟨rfl, rfl, h⟩
      | succ j => exact Or.inr ⟨j, by omega, hj, h⟩

theorem nth_eq_some {l : List Text} {k : ℕ} {x : Text} : nth l k = some x ↔ ∃ j, k = 1 + j ∧ l[j]? = some x := by
  cases k with
  | zero =>
    refine iff_of_false nofun ?_
    rintro ⟨j, hj, -⟩
    omega
  | succ k =>
    rw [nth_succ]
    constructor
    · exact fun h => ⟨k, Nat.add_comm k 1, h⟩
    · rintro ⟨j, hj, h⟩
      obtain rfl : k = j := by omega
      exact h

/-- The sections stand for the metrics the agent's arcs lead to. -/
theorem mem_numbered_iff {m k : ℕ} {n x : Text} :
    ((m, k), n, x) ∈ engine.numbered engine.metricService.moduleList 1 ↔
      engine.metricService.metricAt m k = some (n, x) := by
  rw [mem_numbered, MetricService.metricAt, Option.bind_eq_some_iff]
  simp only [MetricService.moduleAt, Option.map_eq_some_iff, nth_eq_some]
  constructor
  · rintro ⟨j, rfl, hj, hk⟩
    exact ⟨n, ⟨j, rfl, hj⟩, x, hk, rfl⟩
  · rintro ⟨_, ⟨j, rfl, hj⟩, _, hk, h⟩
    cases h
    exact ⟨j, rfl, hj, hk⟩

theorem numberedMetrics_nodup (module : Text) (moduleId : ℕ) : ∀ (metrics : List Text) (id : ℕ),
    ((numberedMetrics module moduleId metrics id).map (·.1)).Nodup
  | [], _ => List.nodup_nil
  | metric :: metrics, id => by
    rw [numberedMetrics, List.map_cons, List.nodup_cons]
    refine ⟨fun h => ?_, numberedMetrics_nodup module moduleId metrics (id + 1)⟩
    obtain ⟨⟨⟨m, k⟩, n, x⟩, hmem, he⟩ := List.mem_map.mp h
    cases he
    obtain ⟨-, -, j, hj, -⟩ := mem_numberedMetrics.mp hmem
    omega

/-- No pair of ids is given twice. -/
theorem numbered_nodup : ∀ (modules : List Text) (moduleId : ℕ),
    ((engine.numbered modules moduleId).map (·.1)).Nodup
  | [], _ => List.nodup_nil
  | module :: modules, moduleId => by
    rw [numbered, List.map_append, List.nodup_append']
    refine ⟨numberedMetrics_nodup .., numbered_nodup modules (moduleId + 1), fun p hp hp' => ?_⟩
    obtain ⟨⟨⟨m, k⟩, n, x⟩, hmem, rfl⟩ := List.mem_map.mp hp
    obtain ⟨⟨⟨m', k'⟩, n', x'⟩, hmem', he⟩ := List.mem_map.mp hp'
    cases he
    obtain ⟨rfl, -, -⟩ := mem_numberedMetrics.mp hmem
    obtain ⟨j, hj, -, -⟩ := engine.mem_numbered.mp hmem'
    omega

theorem mem_buildModules {parent : Text} {l : OidEntry} : ∀ {modules : List Text} {id : ℕ},
    l ∈ buildModules parent modules id ↔ l.parent = parent ∧ ∃ j, l.id = id + j ∧ modules[j]? = some l.name
  | [], id => by simp [buildModules]
  | module :: modules, id => by
    rw [buildModules, List.mem_cons, mem_buildModules]
    constructor
    · rintro (rfl | ⟨rfl, j, hj, h⟩)
      · exact ⟨rfl, 0, rfl, rfl⟩
      · exact ⟨rfl, j + 1, by omega, h⟩
    · rintro ⟨hp, j, hj, h⟩
      cases j with
      | zero =>
        obtain ⟨name, parent', id'⟩ := l
        cases h
        cases hp
        cases hj
        exact Or.inl rfl
      | succ j => exact Or.inr ⟨hp, j, by omega, h⟩

end MIBEngine

/-! ### The agent's own MIB -/

namespace SnmpAgent

variable (agent : SnmpAgent)

/-- The writer the agent starts with. -/
def mibEngine : MIBEngine := ⟨agent.metricService, agent.mibUrl, agent.productName⟩

/-- GET of `root.a.b` reads the value of a metric. -/
def Reaches (a b : UInt32) (m : Metric) : Prop :=
  agent.metricService.metricReached (a.toInt32 - 1) (b.toInt32 - 1) = .ok (some m)

/-- Sections number the metrics as the agent's arcs do, and the module lines
the modules. -/
structure MibAgrees (lines : List OidEntry) (sections : List MetricEntry) : Prop where
  nodup : (sections.map fun e => (e.moduleId, e.id)).Nodup
  pairs : ∀ a b : UInt32, (a.toNat, b.toNat) ∈ sections.map (fun e => (e.moduleId, e.id)) ↔
    ∃ m, agent.Reaches a b m
  describes : ∀ e ∈ sections, ∃ (a b : UInt32) (m : Metric), e.moduleId = a.toNat ∧ e.id = b.toNat ∧
    agent.Reaches a b m ∧ agent.mibEngine.Describes e m ∧
    agent.getValueforOID (agent.rootOid.append [a, b]) =
      (agent.metricService.metricValue (some m) >>= OidToMetricBridge.objectToVariable)
  /-- The module a section is under is the one its module id stands for. -/
  under : ∀ e ∈ sections, ∃ l ∈ lines, l.id = e.moduleId ∧ l.name = e.parent
  modules : ∀ (a : UInt32) (name : Text), (∃ l ∈ lines, l.id = a.toNat ∧ l.name = name) ↔
    agent.oidToMetricBridge.getMetricOidVariable (agent.rootOid.append [a]) = .ok (.octetString name)

theorem metricReached_eq (a b : UInt32) :
    agent.metricService.metricReached (a.toInt32 - 1) (b.toInt32 - 1) =
      match agent.metricService.metricAt a.toNat b.toNat with
      | none => .ok none
      | some (module, metric) =>
        agent.metricService.metrics.getMetric (NameResolver.resolveMetricName metric module) := by
  rw [MetricService.metricReached, MetricService.withMetricAt_eq, elementAt_pred agent.metricService.moduleList_small]
  unfold MetricService.metricAt MetricService.moduleAt
  cases nth agent.metricService.moduleList a.toNat with
  | none => rfl
  | some module =>
    simp only [Option.bind_some, elementAt_pred (agent.metricService.metricList_small module)]
    cases nth (agent.metricService.metricList module) b.toNat with
    | none => rfl
    | some metric => rfl

/-- The arcs of a metric. -/
theorem exists_arcs {m k : ℕ} {p : Text × Text} (h : agent.metricService.metricAt m k = some p) :
    ∃ a b : UInt32, m = a.toNat ∧ k = b.toNat ∧ b ≠ 0 := by
  obtain ⟨module, hm, metric, hk, -⟩ : ∃ module, agent.metricService.moduleAt m = some module ∧
      ∃ metric, nth (agent.metricService.metricList module) k = some metric ∧ (module, metric) = p := by
    simpa [MetricService.metricAt, Option.bind_eq_some_iff] using h
  obtain ⟨i, rfl, hi⟩ := MIBEngine.nth_eq_some.mp hm
  obtain ⟨j, rfl, hj⟩ := MIBEngine.nth_eq_some.mp hk
  have hi' := (List.getElem?_eq_some_iff.mp hi).1
  have hj' := (List.getElem?_eq_some_iff.mp hj).1
  have hmod := agent.metricService.moduleList_small
  have hmet := agent.metricService.metricList_small module
  have ha : (UInt32.ofNat (1 + i)).toNat = 1 + i := UInt32.toNat_ofNat_of_lt' (show 1 + i < 2 ^ 32 by omega)
  have hb : (UInt32.ofNat (1 + j)).toNat = 1 + j := UInt32.toNat_ofNat_of_lt' (show 1 + j < 2 ^ 32 by omega)
  refine ⟨UInt32.ofNat (1 + i), UInt32.ofNat (1 + j), ha.symm, hb.symm, fun h0 => ?_⟩
  have hz : (0 : UInt32).toNat = 0 := rfl
  rw [h0, hz] at hb
  omega

/-- A registered metric is reached by its arcs. -/
theorem reaches_iff {a b : UInt32} {m : Metric} : agent.Reaches a b m ↔
    ∃ module metric, agent.metricService.metricAt a.toNat b.toNat = some (module, metric) ∧
      agent.metricService.metrics.getMetric (NameResolver.resolveMetricName metric module) = .ok (some m) := by
  rw [Reaches, metricReached_eq]
  cases agent.metricService.metricAt a.toNat b.toNat with
  | none => simp
  | some p =>
    obtain ⟨module, metric⟩ := p
    simp

theorem registered_of_metricAt (hall : agent.metricService.AllRegistered) {m k : ℕ} {module metric : Text}
    (h : agent.metricService.metricAt m k = some (module, metric)) :
    ∃ x, agent.metricService.metrics.getMetric (NameResolver.resolveMetricName metric module) = .ok (some x) := by
  obtain ⟨i, -, hi, j, -, hj⟩ := agent.mibEngine.mem_numbered.mp (agent.mibEngine.mem_numbered_iff.mpr h)
  exact hall module (List.mem_of_getElem? hi) metric (List.mem_of_getElem? hj)

variable {agent}

/-- A section is numbered by where its metric is. -/
theorem metricAt_of_mem {sections : List MetricEntry}
    (hn : sections.map MetricEntry.numbers = agent.mibEngine.numbered agent.metricService.moduleList 1)
    {e : MetricEntry} (he : e ∈ sections) :
    agent.metricService.metricAt e.moduleId e.id = some (e.parent, e.name) := by
  refine agent.mibEngine.mem_numbered_iff.mp ?_
  show MetricEntry.numbers e ∈ agent.mibEngine.numbered agent.metricService.moduleList 1
  rw [← hn]
  exact List.mem_map_of_mem he

/-- GET of a metric's OID answers for that metric. -/
theorem getValueforOID_metricOid {m k : ℕ} {module metric : Text}
    (h : agent.metricService.metricAt m k = some (module, metric)) :
    agent.getValueforOID (agent.metricOid m k) = agent.metricService.metricVariable module metric := by
  obtain ⟨a, b, rfl, rfl, -⟩ := agent.exists_arcs h
  rw [metricOid, UInt32.ofNat_toNat, UInt32.ofNat_toNat, agent.getValueforOID_append (by simp) (by simp)]
  refine (agent.oidToMetricBridge.getMetricOidVariable_metric a b []).trans ?_
  dsimp only [oidToMetricBridge_metricService]
  rw [h]

/-- What the sections the writer comes to stand for. -/
theorem mibAgrees {sections : List MetricEntry} (hall : agent.metricService.AllRegistered)
    (h : agent.mibEngine.buildSections agent.metricService.moduleList 1 = .ok sections) :
    agent.MibAgrees (MIBEngine.buildModules MIBEngine.MIB_OID_PLETHORA_SUBTREE_ROOT
      agent.metricService.moduleList 1) sections := by
  obtain ⟨hn, hd⟩ := agent.mibEngine.buildSections_numbered _ _ _ h
  have hids : sections.map (fun e => (e.moduleId, e.id)) =
      (agent.mibEngine.numbered agent.metricService.moduleList 1).map (·.1) := by
    rw [← hn, List.map_map]
    rfl
  have hmem : ∀ e ∈ sections, agent.metricService.metricAt e.moduleId e.id = some (e.parent, e.name) :=
    fun e he => metricAt_of_mem hn he
  refine ⟨?_, fun a b => ?_, fun e he => ?_, fun e he => ?_, fun a name => ?_⟩
  · rw [hids]
    exact agent.mibEngine.numbered_nodup _ _
  · rw [hids, List.mem_map]
    constructor
    · rintro ⟨⟨⟨m, k⟩, module, metric⟩, hp, hk⟩
      cases hk
      have hat := agent.mibEngine.mem_numbered_iff.mp hp
      obtain ⟨x, hx⟩ := agent.registered_of_metricAt hall hat
      exact ⟨x, agent.reaches_iff.mpr ⟨module, metric, hat, hx⟩⟩
    · rintro ⟨x, hx⟩
      obtain ⟨module, metric, hat, -⟩ := agent.reaches_iff.mp hx
      exact ⟨((a.toNat, b.toNat), module, metric), agent.mibEngine.mem_numbered_iff.mpr hat, rfl⟩
  · obtain ⟨x, hx⟩ := hd e he
    have hat := hmem e he
    have hget := getValueforOID_metricOid hat
    obtain ⟨a, b, ha, hb, -⟩ := agent.exists_arcs hat
    rw [ha, hb] at hat hget
    refine ⟨a, b, x, ha, hb, agent.reaches_iff.mpr ⟨e.parent, e.name, hat, hx.registered⟩, hx, ?_⟩
    have hr := hx.registered
    change agent.metricService.metrics.getMetric _ = _ at hr
    rw [metricOid, UInt32.ofNat_toNat, UInt32.ofNat_toNat] at hget
    rw [hget, MetricService.metricVariable, MetricService.getMetricByName, hr]
    rfl
  · obtain ⟨j, hj, hname, -⟩ :=
      agent.mibEngine.mem_numbered.mp (agent.mibEngine.mem_numbered_iff.mpr (hmem e he))
    exact ⟨⟨e.parent, MIBEngine.MIB_OID_PLETHORA_SUBTREE_ROOT, e.moduleId⟩,
      MIBEngine.mem_buildModules.mpr ⟨rfl, j, hj, hname⟩, rfl, rfl⟩
  · have hget : agent.oidToMetricBridge.getMetricOidVariable (agent.rootOid.append [a]) =
        .ok ((agent.metricService.moduleAt a.toNat).elim .noSuchObject .octetString) :=
      agent.oidToMetricBridge.getMetricOidVariable_module a
    rw [hget]
    constructor
    · rintro ⟨l, hl, hid, rfl⟩
      obtain ⟨-, j, hj, hl⟩ := MIBEngine.mem_buildModules.mp hl
      have hm : agent.metricService.moduleAt a.toNat = some l.name :=
        MIBEngine.nth_eq_some.mpr ⟨j, by rw [← hid, hj], hl⟩
      rw [hm]
      rfl
    · intro hname
      cases hm : agent.metricService.moduleAt a.toNat with
      | none =>
        rw [hm] at hname
        cases hname
      | some module =>
        rw [hm] at hname
        cases hname
        obtain ⟨j, hj, hl⟩ := MIBEngine.nth_eq_some.mp hm
        exact ⟨⟨name, MIBEngine.MIB_OID_PLETHORA_SUBTREE_ROOT, a.toNat⟩,
          MIBEngine.mem_buildModules.mpr ⟨rfl, j, hj, hl⟩, rfl, rfl⟩

variable (agent)

/-- **The MIB and the agent agree.** Where every listed name has a metric the
MIB is written, and numbers exactly the metrics and modules the agent serves. -/
theorem buildMib_agrees (hall : agent.metricService.AllRegistered) (date : Text) (oidMap : List (ℕ × Text)) :
    ∃ sections, agent.mibEngine.buildSections agent.metricService.moduleList 1 = .ok sections ∧
      agent.mibEngine.buildMib date oidMap =
        .ok (agent.mibEngine.contents date (agent.mibEngine.oidLines oidMap) sections) ∧
      agent.MibAgrees (MIBEngine.buildModules MIBEngine.MIB_OID_PLETHORA_SUBTREE_ROOT
        agent.metricService.moduleList 1) sections := by
  obtain ⟨sections, h⟩ := agent.mibEngine.buildSections_ok agent.metricService.moduleList 1 hall
  refine ⟨sections, h, ?_, mibAgrees hall h⟩
  unfold MIBEngine.buildMib
  show (agent.mibEngine.buildSections agent.metricService.moduleList 1 >>= _) = _
  rw [h]
  rfl

theorem buildMib_agrees_oneMetric :
    ∃ sections, (oneMetric "cpu".toList).mibEngine.buildSections
        (oneMetric "cpu".toList).metricService.moduleList 1 = .ok sections ∧
      (oneMetric "cpu".toList).mibEngine.buildMib [] [] =
        .ok ((oneMetric "cpu".toList).mibEngine.contents [] ((oneMetric "cpu".toList).mibEngine.oidLines [])
          sections) ∧
      (oneMetric "cpu".toList).MibAgrees (MIBEngine.buildModules MIBEngine.MIB_OID_PLETHORA_SUBTREE_ROOT
        (oneMetric "cpu".toList).metricService.moduleList 1) sections := by
  refine (oneMetric "cpu".toList).buildMib_agrees ?_ [] []
  intro module hm metric hk
  obtain rfl : module = "app".toList := List.mem_singleton.mp hm
  obtain rfl : metric = "cpu".toList := List.mem_singleton.mp hk
  exact ⟨_, rfl⟩

end SnmpAgent

end Plethora
