/-
# The SNMP agent

`SystemGroup`, `OidToMetricBridge` and the PDU handlers of `SnmpAgent`. The
agent serves two subtrees: the MIB-2 system group, a fixed ordered list of
OIDs, and the metrics subtree under its root OID, where `root.m` is the `m`-th
module and `root.m.k` the `k`-th metric of that module, both counted from 1.

The arcs arrive as signed ints and the bridge shifts them by one on the way to
the registry's positions; the theorems here say what comes of that in terms of
the unsigned arcs.

Key definitions: `SystemGroup`, `OidToMetricBridge`, `SnmpAgent`,
`SnmpAgent.handleSnmpGet`, `SnmpAgent.handleSnmpGetnext`, `metricAt`,
`metricVariable`, `Readable`.
Key theorems: `getMetricOidVariable_metric`, `getNextMetricOidValue_eq`,
`getNextOidValue_append`, `metricVariable_ok_iff`.
-/
import Plethora.Server.MetricService
import Plethora.Snmp.Smi

namespace Plethora

/-- `OidValue`. -/
structure OidValue where
  oid : Oid
  value : Variable
  deriving DecidableEq

/-! ### `SystemGroup` -/

/-- The system group, with the milliseconds since `START_TIME` its live counter
reads off the clock. -/
structure SystemGroup where
  sysDescr : Text
  sysContact : Text
  sysName : Text
  sysLocation : Text
  vendorSubTreeOid : Oid
  elapsed : Int

namespace SystemGroup

variable (g : SystemGroup)

def sysUptimeOid : Oid := ⟨[1, 3, 6, 1, 2, 1, 1, 3, 0]⟩

/-- The entries of `systemGroupMap`, in the order of their keys. -/
def systemGroupMap : List (Oid × Variable) :=
  [(⟨[1, 3, 6, 1, 2, 1, 1, 1, 0]⟩, .octetString g.sysDescr),
    (⟨[1, 3, 6, 1, 2, 1, 1, 2, 0]⟩, .oid g.vendorSubTreeOid),
    (sysUptimeOid, .timeTicks 0),
    (⟨[1, 3, 6, 1, 2, 1, 1, 4, 0]⟩, .octetString g.sysContact),
    (⟨[1, 3, 6, 1, 2, 1, 1, 5, 0]⟩, .octetString g.sysName),
    (⟨[1, 3, 6, 1, 2, 1, 1, 6, 0]⟩, .octetString g.sysLocation),
    (⟨[1, 3, 6, 1, 2, 1, 1, 7, 0]⟩, .integer32 64),
    (⟨[1, 3, 6, 1, 2, 1, 2, 1, 0]⟩, .integer32 1)]

def systemGroupList : List Oid := g.systemGroupMap.map (·.1)

def isSysOID (oid : Oid) : Bool := (g.systemGroupMap.lookup oid).isSome

def hasNext (oid : Oid) : Bool :=
  -- the list contains the oid and it is not the last item
  g.isSysOID oid && g.systemGroupList.idxOf oid < g.systemGroupList.length - 1

/-- `new TimeTicks(ticks)` takes an unsigned 32-bit value. -/
def getSysUptime : Except JavaError Variable :=
  let ticks := g.elapsed.tdiv 100
  if 0 ≤ ticks ∧ ticks < 2 ^ 32 then .ok (.timeTicks (UInt32.ofNat ticks.toNat)) else .error .illegalArgument

/-- For an OID of the group; the null for any other is one no PDU takes. -/
def getSysOidVariable (oid : Oid) : Except JavaError Variable :=
  if oid = sysUptimeOid then g.getSysUptime -- sysUptime is dynamic
  else
    match g.systemGroupMap.lookup oid with
    | some v => .ok v
    | none => .error .illegalArgument

def getNextSysOid (oid : Oid) : Option Oid :=
  if g.hasNext oid then g.systemGroupList[g.systemGroupList.idxOf oid + 1]? else none

end SystemGroup

/-! ### `OidToMetricBridge` -/

structure OidToMetricBridge where
  vendorSubTreeOid : Oid
  metricService : MetricService

namespace OidToMetricBridge

variable (bridge : OidToMetricBridge)

def objectToVariable (value : Option JavaObject) : Except JavaError Variable :=
  match value with
  | none => .ok .noSuchObject
  | some v =>
    let type := v.getClassName
    if Util.typeIsString type then
      match v with
      | .string s => .ok (.octetString s)
      | _ => .error .classCast
    else if Util.typeIsNumber type then
      match v.intValue with
      | some i => .ok (.integer32 i)
      | none => .error .classCast
    else if Util.typeIsBoolean type then
      match v with
      | .boolean b => .ok (.integer32 (if b then 1 else 0))
      | _ => .error .classCast
    else .ok (.octetString ("Unsupported object type ".toList ++ type))

def getMetricCount (moduleIndex : Int32) : Except JavaError Int32 :=
  -- offset for zero indexing
  bridge.metricService.getModuleMetricCount (moduleIndex - 1)

def getMetric (moduleIndex metricIndex : Int32) : Except JavaError (Option JavaObject) :=
  bridge.metricService.getMetric (moduleIndex - 1) (metricIndex - 1)

def getModule (moduleIndex : Int32) : Except JavaError (Option Text) :=
  bridge.metricService.getModule (moduleIndex - 1)

def isValidModuleMetricIndex (moduleIndex metricIndex : Int32) : Except JavaError Bool := do
  let index := metricIndex - 1
  if 0 ≤ index then
    let count ← bridge.getMetricCount moduleIndex
    return index < count
  else return false

/-- `buildOid`, of indexes that are not negative. -/
def buildOid (indexes : List Int32) : Oid := bridge.vendorSubTreeOid.append (indexes.map Int32.toUInt32)

def getMetricOidVariable (oid : Oid) : Except JavaError Variable :=
  let moduleIndex := bridge.vendorSubTreeOid.size
  let metricIndex := moduleIndex + 1
  match oid.toIntArray[moduleIndex]?, oid.toIntArray[metricIndex]? with
  | some m, some k => do
    let value ← bridge.getMetric m k
    objectToVariable value
  | some m, none => do
    let value ← bridge.getModule m
    objectToVariable (value.map .string)
  | none, _ => .ok .noSuchObject

def getNextMetricOidValue (moduleIndex metricIndex : Int32) : Except JavaError (Option OidValue) := do
  -- try next metric on the module
  if ← bridge.isValidModuleMetricIndex moduleIndex (metricIndex + 1) then
    let value ← bridge.getMetric moduleIndex (metricIndex + 1)
    let v ← objectToVariable value
    return some ⟨bridge.buildOid [moduleIndex, metricIndex + 1], v⟩
  else
    -- if not try to get next module
    match ← bridge.getModule (moduleIndex + 1) with
    | some value => do
      let v ← objectToVariable (some (.string value))
      return some ⟨bridge.buildOid [moduleIndex + 1], v⟩
    | none => return none

def getFirstMetricOidValue : Except JavaError (Option OidValue) :=
  -- Use 0, 0 to get the next 1, 1 which is the first one
  bridge.getNextMetricOidValue 0 0

end OidToMetricBridge

/-! ### `SnmpAgent` -/

structure SnmpAgent where
  /-- `new OID(oidNumbers)`. -/
  enterprise : Oid
  /-- The pieces of `oidNames`. -/
  oidNames : List Text
  productName : Text
  sysDescr : Text
  mibUrl : Option Text
  sysContact : Text
  sysName : Text
  sysLocation : Text
  metricService : MetricService
  /-- Milliseconds since the start, as the clock tells. -/
  elapsed : Int

namespace SnmpAgent

variable (agent : SnmpAgent)

/-- The metrics sub tree. -/
def rootOid : Oid := agent.enterprise.append [1]

def rootOidScalar : Oid := agent.rootOid.append [0]

def systemGroup : SystemGroup where
  sysDescr :=
    match agent.mibUrl with
    | none => agent.sysDescr
    | some url => agent.sysDescr ++ " MIB file URL : ".toList ++ url
  sysContact := agent.sysContact
  sysName := agent.sysName
  sysLocation := agent.sysLocation
  vendorSubTreeOid := agent.rootOid
  elapsed := agent.elapsed

def oidToMetricBridge : OidToMetricBridge := ⟨agent.rootOid, agent.metricService⟩

@[simp] theorem oidToMetricBridge_metricService : agent.oidToMetricBridge.metricService = agent.metricService :=
  rfl

def getNextOidValue (oid : Oid) : Except JavaError (Option OidValue) :=
  let sysOidSize := agent.rootOid.size
  if oid.startsWith agent.rootOid then -- 1. metrics MIB tree
    let oidArray := oid.toIntArray
    if oid.size = sysOidSize + 1 then
      -- module only, no metric
      agent.oidToMetricBridge.getNextMetricOidValue (oidArray.getD sysOidSize 0) 0
    else if oid.size = sysOidSize + 2 then
      -- module and metric
      agent.oidToMetricBridge.getNextMetricOidValue (oidArray.getD sysOidSize 0)
        (oidArray.getD (sysOidSize + 1) 0)
    else agent.oidToMetricBridge.getNextMetricOidValue 0 0
  else if agent.systemGroup.hasNext oid then -- 2. MIB-2 system
    match agent.systemGroup.getNextSysOid oid with
    | some next => (agent.systemGroup.getSysOidVariable oid).map fun v => some ⟨next, v⟩
    | none => .error .illegalArgument
  else
    -- 3. with invalid (zero) start MIB walk at top of MIB tree
    agent.oidToMetricBridge.getFirstMetricOidValue

def getValueforOID (oid : Oid) : Except JavaError Variable :=
  if oid.startsWith agent.rootOid then
    if agent.rootOid = oid ∨ agent.rootOidScalar = oid then .ok (.octetString agent.sysDescr)
    else agent.oidToMetricBridge.getMetricOidVariable oid
  else if agent.systemGroup.isSysOID oid then agent.systemGroup.getSysOidVariable oid
  else .ok .noSuchObject

def handleSnmpGet (pdu : Pdu) : Except JavaError Pdu := do
  let bindings ← pdu.bindings.mapM fun binding => do
    let v ← agent.getValueforOID binding.oid
    return { binding with value := v }
  return { pdu with bindings }

/-- Only the first binding is processed. -/
def handleSnmpGetnext (pdu : Pdu) : Except JavaError Pdu :=
  match pdu.bindings with
  | [] => .ok pdu
  | binding :: bindings => do
    match ← agent.getNextOidValue binding.oid with
    | none => return { bindings := ⟨⟨[]⟩, .endOfMibView⟩ :: bindings, errorIndex := 1 }
    | some next => return { pdu with bindings := ⟨next.oid, next.value⟩ :: bindings }

end SnmpAgent

/-! ### Positions in the metrics subtree -/

namespace MetricService

variable (service : MetricService)

/-- The module at the arc `m`. -/
def moduleAt (m : ℕ) : Option Text := nth service.moduleList m

/-- The module and the metric at the arcs `m.k`. -/
def metricAt (m k : ℕ) : Option (Text × Text) :=
  (service.moduleAt m).bind fun module => (nth (service.metricList module) k).map fun metric => (module, metric)

/-- What the agent answers for a metric. -/
def metricVariable (module metric : Text) : Except JavaError Variable := do
  let value ← service.getMetricByName (NameResolver.resolveMetricName metric module)
  OidToMetricBridge.objectToVariable value

end MetricService

namespace OidToMetricBridge

variable (bridge : OidToMetricBridge)

theorem elementAt_moduleList (a : UInt32) :
    elementAt bridge.metricService.moduleList (a.toInt32 - 1) = bridge.metricService.moduleAt a.toNat :=
  elementAt_pred bridge.metricService.moduleList_small a

theorem getModule_eq (a : UInt32) : bridge.getModule a.toInt32 = .ok (bridge.metricService.moduleAt a.toNat) := by
  rw [getModule, bridge.metricService.getModule_eq, elementAt_moduleList]

theorem getModule_succ (a : UInt32) :
    bridge.getModule (a.toInt32 + 1) = .ok (bridge.metricService.moduleAt (a.toNat + 1)) := by
  rw [getModule, bridge.metricService.getModule_eq, Int32.add_sub_cancel,
    elementAt_toInt32 bridge.metricService.moduleList_small]
  rfl

/-- The variable at a place: `j` is the position `k` stands for. -/
theorem getMetric_place {a : UInt32} {j : Int32} {k : ℕ}
    (hj : ∀ module, elementAt (bridge.metricService.metricList module) (j - 1) =
      nth (bridge.metricService.metricList module) k) :
    (bridge.getMetric a.toInt32 j >>= objectToVariable) =
      match bridge.metricService.metricAt a.toNat k with
      | none => .ok .noSuchObject
      | some (module, metric) => bridge.metricService.metricVariable module metric := by
  rw [getMetric, MetricService.getMetric, bridge.metricService.withMetricAt_eq, elementAt_moduleList]
  unfold MetricService.metricAt
  cases bridge.metricService.moduleAt a.toNat with
  | none => rfl
  | some module =>
    simp only [Option.bind_some, hj]
    cases nth (bridge.metricService.metricList module) k with
    | none => rfl
    | some metric => rfl

/-- GET in the metrics subtree. -/
theorem getMetricOidVariable_metric (a b : UInt32) (s : List UInt32) :
    bridge.getMetricOidVariable (bridge.vendorSubTreeOid.append (a :: b :: s)) =
      match bridge.metricService.metricAt a.toNat b.toNat with
      | none => .ok .noSuchObject
      | some (module, metric) => bridge.metricService.metricVariable module metric := by
  rw [← bridge.getMetric_place fun module => elementAt_pred (bridge.metricService.metricList_small module) b]
  simp [getMetricOidVariable, Oid.toIntArray, Oid.append, Oid.size]

theorem getMetricOidVariable_module (a : UInt32) :
    bridge.getMetricOidVariable (bridge.vendorSubTreeOid.append [a]) =
      .ok ((bridge.metricService.moduleAt a.toNat).elim .noSuchObject .octetString) := by
  have h : bridge.getMetricOidVariable (bridge.vendorSubTreeOid.append [a]) =
      (bridge.getModule a.toInt32 >>= fun value => objectToVariable (value.map .string)) := by
    simp [getMetricOidVariable, Oid.toIntArray, Oid.append, Oid.size]
  rw [h, getModule_eq]
  cases bridge.metricService.moduleAt a.toNat with
  | none => rfl
  | some module => rfl

theorem isValidModuleMetricIndex_succ (a b : UInt32) :
    bridge.isValidModuleMetricIndex a.toInt32 (b.toInt32 + 1) =
      .ok (bridge.metricService.metricAt a.toNat (b.toNat + 1)).isSome := by
  unfold isValidModuleMetricIndex getMetricCount MetricService.metricAt
  simp only [Int32.add_sub_cancel, bridge.metricService.getModuleMetricCount_eq, elementAt_moduleList, bind,
    Except.bind]
  cases bridge.metricService.moduleAt a.toNat with
  | none =>
    by_cases h0 : 0 ≤ b.toInt32
    · rw [if_pos h0]
      simp only [Option.map_none, Option.getD_none, Option.bind_none, Option.isSome_none]
      rw [decide_eq_false (Int32.not_lt.mpr h0)]
      rfl
    · rw [if_neg h0]
      rfl
  | some module =>
    have hs := elementAt_isSome (bridge.metricService.metricList_small module) (i := b.toInt32)
    rw [elementAt_toInt32 (bridge.metricService.metricList_small module)] at hs
    simp only [Option.map_some, Option.getD_some, Option.bind_some, Option.isSome_map, nth_succ]
    by_cases h0 : 0 ≤ b.toInt32
    · have hd : (bridge.metricService.metricList module)[b.toNat]?.isSome =
          decide (b.toInt32 < size (bridge.metricService.metricList module)) := by
        rw [Bool.eq_iff_iff, hs, decide_eq_true_iff]
        exact and_iff_right h0
      rw [if_pos h0, hd]
      rfl
    · rw [if_neg h0, Bool.eq_false_iff.mpr fun h => h0 (hs.mp h).1]
      rfl

/-- GETNEXT in the metrics subtree: the next metric of the module, if it has
one, or the next module. -/
theorem getNextMetricOidValue_eq (a b : UInt32) :
    bridge.getNextMetricOidValue a.toInt32 b.toInt32 =
      match bridge.metricService.metricAt a.toNat (b.toNat + 1) with
      | some (module, metric) => (bridge.metricService.metricVariable module metric).map fun v =>
          some ⟨bridge.vendorSubTreeOid.append [a, b + 1], v⟩
      | none => .ok ((bridge.metricService.moduleAt (a.toNat + 1)).map fun module =>
          ⟨bridge.vendorSubTreeOid.append [a + 1], .octetString module⟩) := by
  have hplace := bridge.getMetric_place (a := a) (j := b.toInt32 + 1) (k := b.toNat + 1) fun module => by
    rw [Int32.add_sub_cancel, elementAt_toInt32 (bridge.metricService.metricList_small module), nth_succ]
  have hk : bridge.buildOid [a.toInt32, b.toInt32 + 1] = bridge.vendorSubTreeOid.append [a, b + 1] := rfl
  have hm : bridge.buildOid [a.toInt32 + 1] = bridge.vendorSubTreeOid.append [a + 1] := rfl
  unfold getNextMetricOidValue
  rw [isValidModuleMetricIndex_succ, getModule_succ, hk, hm]
  cases hp : bridge.metricService.metricAt a.toNat (b.toNat + 1) with
  | some p =>
    obtain ⟨module, metric⟩ := p
    simp only [hp] at hplace
    simp only [← hplace, bind, Except.bind, Option.isSome_some, if_true]
    cases bridge.getMetric a.toInt32 (b.toInt32 + 1) with
    | error e => rfl
    | ok value =>
      simp only
      cases objectToVariable value with
      | error e => rfl
      | ok v => rfl
  | none =>
    simp only [bind, Except.bind, Option.isSome_none, Bool.false_eq_true, if_false]
    cases bridge.metricService.moduleAt (a.toNat + 1) with
    | none => rfl
    | some module => rfl

end OidToMetricBridge

namespace SnmpAgent

variable (agent : SnmpAgent)

/-- The module and metric arcs `getNextOidValue` reads off an OID of the
metrics subtree: none for the root, and none for an OID below a metric. -/
def indexes : List UInt32 → UInt32 × UInt32
  | [m] => (m, 0)
  | [m, k] => (m, k)
  | _ => (0, 0)

/-- GETNEXT for module and metric arcs. -/
def getNext (i : UInt32 × UInt32) : Except JavaError (Option OidValue) :=
  match agent.metricService.metricAt i.1.toNat (i.2.toNat + 1) with
  | some (module, metric) => (agent.metricService.metricVariable module metric).map fun v =>
      some ⟨agent.rootOid.append [i.1, i.2 + 1], v⟩
  | none => .ok ((agent.metricService.moduleAt (i.1.toNat + 1)).map fun module =>
      ⟨agent.rootOid.append [i.1 + 1], .octetString module⟩)

theorem getNextMetricOidValue_eq (a b : UInt32) :
    agent.oidToMetricBridge.getNextMetricOidValue a.toInt32 b.toInt32 = agent.getNext (a, b) :=
  agent.oidToMetricBridge.getNextMetricOidValue_eq a b

/-- In the metrics subtree. -/
theorem getNextOidValue_append (s : List UInt32) :
    agent.getNextOidValue (agent.rootOid.append s) = agent.getNext (indexes s) := by
  unfold getNextOidValue
  dsimp only
  rw [if_pos (Oid.startsWith_append ..), Oid.size_append]
  match s with
  | [] =>
    rw [if_neg (by simp), if_neg (by simp)]
    exact agent.getNextMetricOidValue_eq 0 0
  | [a] =>
    rw [if_pos (by simp)]
    have ha : (agent.rootOid.append [a]).toIntArray.getD agent.rootOid.size 0 = a.toInt32 := by
      simp [Oid.toIntArray, Oid.append, Oid.size]
    rw [ha]
    exact agent.getNextMetricOidValue_eq a 0
  | [a, b] =>
    rw [if_neg (by simp), if_pos (by simp)]
    have ha : (agent.rootOid.append [a, b]).toIntArray.getD agent.rootOid.size 0 = a.toInt32 := by
      simp [Oid.toIntArray, Oid.append, Oid.size]
    have hb : (agent.rootOid.append [a, b]).toIntArray.getD (agent.rootOid.size + 1) 0 = b.toInt32 := by
      simp [Oid.toIntArray, Oid.append, Oid.size]
    rw [ha, hb]
    exact agent.getNextMetricOidValue_eq a b
  | a :: b :: c :: t =>
    rw [if_neg (by simp), if_neg (by simp)]
    exact agent.getNextMetricOidValue_eq 0 0

/-- Outside of both subtrees, and at the end of the system group. -/
theorem getNextOidValue_first {oid : Oid} (hr : oid.startsWith agent.rootOid = false)
    (hs : agent.systemGroup.hasNext oid = false) : agent.getNextOidValue oid = agent.getNext (0, 0) := by
  unfold getNextOidValue
  rw [hr, hs]
  exact agent.getNextMetricOidValue_eq 0 0

end SnmpAgent

/-! ### Which metrics can be read -/

namespace MetricService

variable (service : MetricService)

/-- A metric the agent can answer with a variable: neither of its names is
empty, and its value, read live in immediate mode, is no character and no
exception of the module's. -/
def Readable (module metric : Text) : Prop :=
  metric ≠ [] ∧ module ≠ [] ∧ ∀ name m, NameResolver.resolveMetricName metric module = some name →
    service.metrics.get name = some m → ∃ v, (∀ c, v ≠ some (.character c)) ∧
      (if service.immediateAccess then service.modulesGetValue m.moduleName m.metricName else .ok m.value) = .ok v

theorem objectToVariable_ok_iff {value : Option JavaObject} :
    (∃ v, OidToMetricBridge.objectToVariable value = .ok v) ↔ ∀ c, value ≠ some (.character c) := by
  unfold OidToMetricBridge.objectToVariable
  cases value with
  | none => simp
  | some v =>
    simp only [Util.typeIsString_getClassName, Util.typeIsNumber_getClassName, Util.typeIsBoolean_getClassName]
    cases v <;> simp [JavaObject.intValue]

/-- A stored value is read as it is, a live one is stored first. -/
theorem metricValue_some (m : Metric) : service.metricValue (some m) =
    if service.immediateAccess then service.modulesGetValue m.moduleName m.metricName else .ok m.value := by
  unfold metricValue
  simp only [Metric.setValueAsObject_value]
  cases service.modulesGetValue m.moduleName m.metricName <;> rfl

theorem metricVariable_ok_iff {module metric : Text} :
    (∃ v, service.metricVariable module metric = .ok v) ↔ service.Readable module metric := by
  unfold metricVariable Readable getMetricByName
  cases hn : NameResolver.resolveMetricName metric module with
  | none =>
    have he := NameResolver.resolveMetricName_eq_none.mp hn
    refine iff_of_false ?_ fun h => he.elim h.1 h.2.1
    rintro ⟨v, h⟩
    cases h
  | some name =>
    have hne : metric ≠ [] ∧ module ≠ [] := by
      rw [← not_or, ← NameResolver.resolveMetricName_eq_none, hn]
      exact nofun
    rw [← and_assoc, and_iff_right hne]
    simp only [Metrics.getMetric, bind, Except.bind]
    cases hg : service.metrics.get name with
    | none =>
      refine iff_of_true ⟨.noSuchObject, rfl⟩ ?_
      rintro _ m ⟨⟩ h
      rw [hg] at h
      cases h
    | some m =>
      rw [metricValue_some]
      generalize hx : (if service.immediateAccess then service.modulesGetValue m.moduleName m.metricName
        else Except.ok m.value) = x
      constructor
      · rintro ⟨v, h⟩ _ m' ⟨⟩ hm'
        rw [hg] at hm'
        cases hm'
        cases x with
        | error e => cases h
        | ok value => exact ⟨value, objectToVariable_ok_iff.mp ⟨v, h⟩, hx⟩
      · intro h
        obtain ⟨value, hv, hread⟩ := h name m rfl hg
        rw [hx] at hread
        rw [hread]
        exact objectToVariable_ok_iff.mpr hv

end MetricService

end Plethora
