/-
# The registry of modules and metrics, and its readers

`Modules` of `server.data` and `MetricService` of `server`, as the SNMP side
reads them: modules and the metrics of a module by position, in the order of
the sorted sets their names are kept in, and a metric's value by full name.
Positions are `int`s, checked against both bounds before the array access.

In immediate mode a read asks the module for a live value; `getValue` is what
comes of that, an exception of the module's included.

Key definitions: `Modules`, `MetricService`, `MetricService.getModule`,
`MetricService.getModuleMetricCount`, `MetricService.getMetric`,
`MetricService.metricValue`.
Key theorems: `getModule_eq`, `getModuleMetricCount_eq`, `withMetricAt_eq`.
-/
import Plethora.Data.Module

namespace Plethora

/-- The modules and their sorted names. A collection is smaller than the
largest array. -/
structure Modules where
  moduleMap : List (Text × Module)
  moduleNames : TreeSet
  /-- `MODULE_NAMES` holds the keys of `MODULE_MAP`. -/
  mem_moduleNames : ∀ {n}, n ∈ moduleNames ↔ (moduleMap.lookup n).isSome = true
  names_small : moduleNames.toList.length < 2 ^ 31
  metrics_small : ∀ {n m}, moduleMap.lookup n = some m → m.metricNames.toList.length < 2 ^ 31

namespace Modules

variable (s : Modules)

def getModule (moduleName : Text) : Option Module := s.moduleMap.lookup moduleName

/-- `getModuleList().toArray()`. -/
def getModuleList : List Text := s.moduleNames.toList

def getModuleCount : Int32 := size s.getModuleList

/-- The call of a method on `modules.getModule(moduleName)`. -/
def theModule (moduleName : Text) : Except JavaError Module :=
  match s.getModule moduleName with
  | none => .error .nullPointer
  | some m => .ok m

theorem theModule_eq {s : Modules} {n : Text} {m : Module} (h : s.getModule n = some m) :
    s.theModule n = .ok m := by
  simp only [theModule, h]

/-- `init`, once the modules are made: `MODULE_NAMES.addAll(MODULE_MAP.keySet())`. -/
def init (moduleMap : List (Text × Module)) (hn : moduleMap.length < 2 ^ 31)
    (hm : ∀ p ∈ moduleMap, p.2.metricNames.toList.length < 2 ^ 31) : Modules where
  moduleMap
  moduleNames := TreeSet.empty.addAll (moduleMap.map (·.1))
  mem_moduleNames := by
    intro n
    rw [TreeSet.mem_addAll, mem_keys_iff]
    exact or_iff_right List.not_mem_nil
  names_small := by
    have h := TreeSet.length_addAll_le (moduleMap.map (·.1)) TreeSet.empty
    rw [List.length_map] at h
    exact h.trans_lt (by simpa [TreeSet.empty] using hn)
  metrics_small := fun h => hm _ (mem_of_lookup h)

/-- A listed module is there. -/
theorem exists_getModule {s : Modules} {n : Text} (h : n ∈ s.moduleNames) : ∃ m, s.getModule n = some m :=
  Option.isSome_iff_exists.mp (s.mem_moduleNames.mp h)

end Modules

structure MetricService where
  modules : Modules
  metrics : Metrics
  immediateAccess : Bool
  /-- A live read of a module's metric. -/
  getValue : Text → Option Text → Except JavaError (Option JavaObject)

namespace MetricService

variable (service : MetricService)

/-- `modules.getValue(moduleName, metricName)`: null without the module. -/
def modulesGetValue (moduleName metricName : Option Text) : Except JavaError (Option JavaObject) :=
  match moduleName with
  | none => .ok none
  | some n => if (service.modules.getModule n).isSome then service.getValue n metricName else .ok none

/-- `getMetric(Metric)`. -/
def metricValue (metric : Option Metric) : Except JavaError (Option JavaObject) :=
  match metric with
  | none => .ok none
  | some m =>
    if service.immediateAccess then
      (service.modulesGetValue m.moduleName m.metricName).map fun v => (m.setValueAsObject v).value
    else .ok m.value

/-- `getMetric(String)`. -/
def getMetricByName (name : Option Text) : Except JavaError (Option JavaObject) := do
  let metric ← service.metrics.getMetric name
  service.metricValue metric

def getModule (moduleIndex : Int32) : Except JavaError (Option Text) :=
  if 0 ≤ moduleIndex ∧ moduleIndex < service.modules.getModuleCount then
    (element service.modules.getModuleList moduleIndex).map some
  else .ok none

def getModuleMetricCount (moduleIndex : Int32) : Except JavaError Int32 :=
  if 0 ≤ moduleIndex ∧ moduleIndex < service.modules.getModuleCount then do
    let moduleName ← element service.modules.getModuleList moduleIndex
    match service.modules.getModule moduleName with
    | none => return 0
    | some m => return size m.metricNames.toList
  else .ok 0

/-- `getMetric(int, int)` up to the call with the metric's full name. -/
def withMetricAt {α : Type} (moduleIndex metricIndex : Int32)
    (read : Option Text → Except JavaError (Option α)) : Except JavaError (Option α) :=
  if 0 ≤ moduleIndex ∧ 0 ≤ metricIndex ∧ moduleIndex < service.modules.getModuleCount then do
    let moduleName ← element service.modules.getModuleList moduleIndex
    let m ← service.modules.theModule moduleName
    -- metric index lower limit checked already above, for early failure
    if metricIndex < size m.metricNames.toList then do
      let metricName ← element m.metricNames.toList metricIndex
      read (NameResolver.resolveMetricName metricName moduleName)
    else return none
  else .ok none

/-- `getMetric(int, int)`. -/
def getMetric (moduleIndex metricIndex : Int32) : Except JavaError (Option JavaObject) :=
  service.withMetricAt moduleIndex metricIndex service.getMetricByName

/-- The metric `getMetric(int, int)` comes to, before its value is read. -/
def metricReached (moduleIndex metricIndex : Int32) : Except JavaError (Option Metric) :=
  service.withMetricAt moduleIndex metricIndex service.metrics.getMetric

/-- `getModuleMetricNames`: no names without the module. -/
def getModuleMetricNames (module : Text) : TreeSet :=
  match service.modules.getModule module with
  | none => TreeSet.empty
  | some m => m.metricNames

/-- `getMetricProperties`: null without the metric. -/
def getMetricProperties (moduleName metricName : Text) : Except JavaError (Option MetricProperties) := do
  let metric ← service.metrics.getMetric (NameResolver.resolveMetricName metricName moduleName)
  return metric.map (·.properties)

/-! ### Modules and metrics by position -/

/-- The modules' names, in order. -/
abbrev moduleList : List Text := service.modules.getModuleList

/-- The names of a module's metrics, in order. -/
def metricList (module : Text) : List Text := (service.getModuleMetricNames module).toList

theorem moduleList_small : service.moduleList.length < 2 ^ 31 := service.modules.names_small

theorem metricList_small (module : Text) : (service.metricList module).length < 2 ^ 31 := by
  unfold metricList getModuleMetricNames
  cases h : service.modules.getModule module with
  | none => simp [TreeSet.empty]
  | some m => exact service.modules.metrics_small h

theorem metricList_eq {module : Text} {m : Module} (h : service.modules.getModule module = some m) :
    service.metricList module = m.metricNames.toList := by
  simp only [metricList, getModuleMetricNames, h]

theorem exists_module {i : Int32} {module : Text} (h : elementAt service.moduleList i = some module) :
    ∃ m, service.modules.getModule module = some m := by
  refine Modules.exists_getModule ?_
  unfold elementAt at h
  split at h
  · exact List.mem_of_getElem? h
  · cases h

theorem getModule_eq (i : Int32) : service.getModule i = .ok (elementAt service.moduleList i) := by
  unfold getModule Modules.getModuleCount
  have hs := elementAt_isSome service.moduleList_small (i := i)
  cases h : elementAt service.moduleList i with
  | none =>
    rw [h] at hs
    rw [if_neg fun hb => Bool.noConfusion (hs.mpr hb)]
  | some module =>
    rw [h] at hs
    rw [if_pos (hs.mp rfl), element_eq h]
    rfl

theorem getModuleMetricCount_eq (i : Int32) : service.getModuleMetricCount i =
    .ok (((elementAt service.moduleList i).map fun module => size (service.metricList module)).getD 0) := by
  unfold getModuleMetricCount Modules.getModuleCount
  have hs := elementAt_isSome service.moduleList_small (i := i)
  cases h : elementAt service.moduleList i with
  | none =>
    rw [h] at hs
    rw [if_neg fun hb => Bool.noConfusion (hs.mpr hb)]
    rfl
  | some module =>
    rw [h] at hs
    obtain ⟨m, hm⟩ := service.exists_module h
    rw [if_pos (hs.mp rfl), element_eq h]
    simp only [bind, Except.bind, hm, Option.map_some, Option.getD_some, service.metricList_eq hm]
    rfl

/-- Outside the bounds there is no metric; within them it is read by its full
name. -/
theorem withMetricAt_eq {α : Type} (i j : Int32) (read : Option Text → Except JavaError (Option α)) :
    service.withMetricAt i j read =
    match elementAt service.moduleList i with
    | none => .ok none
    | some module =>
      match elementAt (service.metricList module) j with
      | none => .ok none
      | some metric => read (NameResolver.resolveMetricName metric module) := by
  unfold withMetricAt Modules.getModuleCount
  have hs := elementAt_isSome service.moduleList_small (i := i)
  cases h : elementAt service.moduleList i with
  | none =>
    rw [h] at hs
    rw [if_neg fun hb => Bool.noConfusion (hs.mpr ⟨hb.1, hb.2.2⟩)]
  | some module =>
    rw [h] at hs
    obtain ⟨m, hm⟩ := service.exists_module h
    have hi := hs.mp rfl
    have hj := elementAt_isSome (service.metricList_small module) (i := j)
    rw [service.metricList_eq hm] at hj
    simp only [element_eq h, Modules.theModule_eq hm, service.metricList_eq hm, bind, Except.bind]
    cases hk : elementAt m.metricNames.toList j with
    | none =>
      rw [hk] at hj
      split
      · rename_i hb
        rw [if_neg fun hlt => Bool.noConfusion (hj.mpr ⟨hb.2.1, hlt⟩)]
        rfl
      · rfl
    | some metric =>
      rw [hk] at hj
      obtain ⟨h0, hlt⟩ := hj.mp rfl
      rw [if_pos ⟨hi.1, h0, hi.2⟩]
      rw [if_pos hlt, element_eq hk]

end MetricService

end Plethora
