/-
# Metrics and the registry they live in

`Metric`, `MetricProperties`, `MetricFactory`, `NameResolver` and `Metrics` of
`common.data`, with the option string a remote agent describes a metric by
(`OptionString`). The registry maps full names, `hackorama.module.metric`, to
metrics; a metric re-reads its module and metric name out of its full name.

The registry and a module's own list of metric names are two things: a name
for which the factory builds no metric, or whose full name is null because
one of its parts is empty, is listed by its module and absent from the
registry. `Metrics.getMetric` of a null name is the null pointer exception of
the concurrent map behind it.

Key definitions: `MetricProperties`, `OptionString.getType`,
`NameResolver.resolveMetricName`, `Metric`, `MetricFactory.getMetric`, `Metrics`.
-/
import Plethora.Common.Java

namespace Plethora

/-! ### `METRIC` -/

/-- `METRIC.LEVEL`. -/
inductive Level
  | publicLevel
  | limited
  | internal
  deriving DecidableEq, Repr

/-- `METRIC.TYPE`. -/
inductive MetricType
  | text
  | number
  | boolean
  | unspecified
  | invalid
  deriving DecidableEq, Repr

/-- `MetricProperties`, with the defaults its constructor sets. -/
structure MetricProperties where
  displayname : Text := []
  description : Text := []
  level : Level := .publicLevel
  /-- The type the metric was declared with. -/
  type : MetricType := .number
  readable : Bool := true
  writable : Bool := false
  deriving DecidableEq

namespace MetricProperties

/-- The builder calls that take a string leave the field alone on null. -/
def setDisplayname (p : MetricProperties) (displayname : Option Text) : MetricProperties :=
  { p with displayname := displayname.getD p.displayname }

def setDescription (p : MetricProperties) (description : Option Text) : MetricProperties :=
  { p with description := description.getD p.description }

end MetricProperties

/-! ### `OptionString` -/

namespace OptionString

/-- `options.charAt(i)`, on a string that may be null. -/
def charAt (options : Option Text) (i : ℕ) : Except JavaError Char :=
  match options with
  | none => .error .nullPointer
  | some t =>
    match t[i]? with
    | none => .error .indexOutOfBounds
    | some c => .ok c

def getType (options : Option Text) : Except JavaError MetricType := do
  let typebit ← charAt options 0
  if typebit = '1' then return .number
  else if typebit = '2' then return .boolean
  else return .text

/-- Reads the third character, where `build` puts the level. -/
def getWritable (options : Option Text) : Except JavaError Bool := do
  let writebit ← charAt options 2
  return writebit = '1'

/-- Reads the fourth character, which `build` leaves for future use. -/
def getLevel (options : Option Text) : Except JavaError Level := do
  let levelbit ← charAt options 3
  if levelbit = '1' then return .limited
  else if levelbit = '2' then return .internal
  else return .publicLevel

end OptionString

/-! ### `NameResolver` -/

namespace NameResolver

def rootElement : Text := "hackorama".toList

def getElementAt (t : Text) (i : ℕ) : Option Text := if t = [] then none else (t.split '.')[i]?

/-- `getStringElementsAfter` with the separator `.`. -/
def getStringElementsAfter (t : Text) (i : ℕ) : Text := (['.'] : Text).intercalate ((t.split '.').drop i)

def validName (name : Text) : Bool :=
  match getElementAt name 0 with
  | none => false
  | some root => root == rootElement

def resolveMetric (name : Text) : Option Text :=
  if validName name then some (getStringElementsAfter name 2) else none

def resolveModule (name : Text) : Option Text := if validName name then getElementAt name 1 else none

/-- The full name of a module's metric, null if either part is empty. -/
def resolveMetricName (name module : Text) : Option Text :=
  if name ≠ [] ∧ module ≠ [] then some (rootElement ++ '.' :: module ++ '.' :: name) else none

theorem resolveMetricName_eq_none {name module : Text} :
    resolveMetricName name module = none ↔ name = [] ∨ module = [] := by
  unfold resolveMetricName
  by_cases h : name = [] <;> by_cases h' : module = [] <;> simp [h, h']

end NameResolver

/-! ### `Metric` and `MetricFactory` -/

/-- The value the factory reads out of the empty text for each type: 0, the
empty text or false, and none for a type it makes no metric of. -/
def MetricFactory.initialValue : MetricType → Option JavaObject
  | .number => some (.long 0)
  | .text => some (.string [])
  | .boolean => some (.boolean false)
  | .unspecified => none
  | .invalid => none

/-- A metric. Its type is fixed by the class of its first value, as
`resolveMetricType` reads it. -/
structure Metric where
  name : Text
  value : Option JavaObject
  initialValue : Option JavaObject
  lastValidValue : Option JavaObject
  metricName : Option Text
  moduleName : Option Text
  metricType : MetricType
  properties : MetricProperties
  /-- Only the factory makes metrics. -/
  made : (MetricFactory.initialValue properties.type).isSome = true
  deriving DecidableEq

namespace Metric

/-- `resolveMetricType`, from the class of the last valid value. -/
def resolveMetricType (lastValidValue : Option JavaObject) : MetricType :=
  match lastValidValue with
  | some (.long _) => .number
  | some (.string _) => .text
  | some (.boolean _) => .boolean
  | _ => .invalid

/-- The constructor, for a name that is not empty. -/
def init (name : Text) (value : JavaObject) (properties : MetricProperties)
    (made : (MetricFactory.initialValue properties.type).isSome = true) : Metric :=
  { name, value := some value, initialValue := some value, lastValidValue := some value
    metricName := NameResolver.resolveMetric name
    moduleName := NameResolver.resolveModule name
    metricType := resolveMetricType (some value)
    properties, made }

/-- A metric declared with no properties is a number. -/
theorem made_default : (MetricFactory.initialValue ({} : MetricProperties).type).isSome = true := rfl

/-- `setValueAsObject`: a null value is stored too, but is no valid value. -/
def setValueAsObject (m : Metric) (value : Option JavaObject) : Metric :=
  { m with value, lastValidValue := value.orElse fun _ => m.lastValidValue }

@[simp] theorem init_name (n : Text) (v : JavaObject) (p : MetricProperties) (h) : (init n v p h).name = n := rfl

@[simp] theorem setValueAsObject_value (m : Metric) (v : Option JavaObject) :
    (m.setValueAsObject v).value = v := rfl

end Metric

namespace MetricFactory

/-- `MetricFactory.getMetric(name, properties)`. -/
def getMetric (name : Option Text) (properties : MetricProperties) : Option Metric :=
  match name with
  | none => none
  | some [] => none
  | some (c :: n) =>
    match h : initialValue properties.type with
    | none => none
    | some v => some (Metric.init (c :: n) v properties (by rw [h]; rfl))

/-- What the factory makes under a name, of properties of a valid type. -/
theorem getMetric_of_valid {name : Text} (hn : name ≠ []) {p : MetricProperties} {v : JavaObject}
    (hv : initialValue p.type = some v) (made : (initialValue p.type).isSome = true) :
    getMetric (some name) p = some (Metric.init name v p made) := by
  cases name with
  | nil => exact absurd rfl hn
  | cons c n =>
    unfold getMetric
    simp only
    split
    · rename_i hnone
      rw [hv] at hnone
      cases hnone
    · rename_i v' hv'
      rw [hv] at hv'
      cases hv'
      rfl

theorem getMetric_of_invalid {name : Option Text} {p : MetricProperties} (h : initialValue p.type = none) :
    getMetric name p = none := by
  unfold getMetric
  split
  · rfl
  · rfl
  · split
    · rfl
    · rename_i v hv
      rw [h] at hv
      cases hv

end MetricFactory

/-! ### `Metrics` -/

/-- The registry: full name to metric. -/
structure Metrics where
  metricsMap : List (Text × Metric) := []
  deriving DecidableEq

namespace Metrics

/-- `metricsMap.get(name)`. -/
def get (s : Metrics) (name : Text) : Option Metric := s.metricsMap.lookup name

/-- `metricsMap.put(name, metric)`. -/
def put (s : Metrics) (name : Text) (m : Metric) : Metrics :=
  ⟨(name, m) :: s.metricsMap.filter (·.1 ≠ name)⟩

/-- `getMetric(name)`: the concurrent map refuses the null key. -/
def getMetric (s : Metrics) (name : Option Text) : Except JavaError (Option Metric) :=
  match name with
  | none => .error .nullPointer
  | some n => .ok (s.get n)

/-- `addMetric(metric)`: a null metric is logged and left out. -/
def addMetric (s : Metrics) (m : Option Metric) : Metrics :=
  match m with
  | none => s
  | some m => s.put m.name m

theorem get_put_self (s : Metrics) (n : Text) (m : Metric) : (s.put n m).get n = some m := by
  simp [get, put]

theorem get_put_ne (s : Metrics) {n k : Text} (m : Metric) (h : k ≠ n) : (s.put n m).get k = s.get k := by
  have hb : (k == n) = false := by simpa using h
  simp only [get, put, List.lookup_cons, hb]
  exact lookup_filter_ne h s.metricsMap

end Metrics

end Plethora
