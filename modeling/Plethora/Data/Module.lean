/-
# A module and its connection

`Module` of `server.data.common`: a name, the set of metric names discovered
so far, and the flag that says it is connected. `connect` clears the flag,
checks the remote end and, if it answers, discovers the metrics and sets the
flag again, whatever came of the discovery.

What a module asks of its remote end and how it is answered is kept in
`requests`, newest first; no method reads it but to count how many requests
there were. `lastStatus` and `lastDiscovery` read off it the most recent
connection check and the discovery since.

Key definitions: `RemoteEvent`, `Module`, `Running`, `Module.addMetric`,
`Module.connect`, `lastStatus`, `lastDiscovery`, `Registered`.
-/
import Plethora.Lib.Effects
import Plethora.Common.Metric

namespace Plethora

/-- A request to the remote end and how it was answered. -/
inductive RemoteEvent
  /-- A connection check. -/
  | status (succeeded : Bool)
  /-- A request for the list of metrics: the names reported, if it was
  answered with a well formed list. -/
  | discovery (names : Option (List Text))
  | property (name : Text) (answered : Bool)
  | value (name : Text) (answered : Bool)
  deriving DecidableEq

structure Module where
  moduleName : Text
  connected : Bool := false
  metricNames : TreeSet := TreeSet.empty
  /-- The requests made so far, newest first. -/
  requests : List RemoteEvent := []
  deriving DecidableEq

/-- What a module's methods work on: the module and the shared registry. -/
structure Running where
  module : Module
  metrics : Metrics
  deriving DecidableEq

/-- The state with one request more. -/
def Running.recorded (s : Running) (event : RemoteEvent) : Running :=
  { s with module := { s.module with requests := event :: s.module.requests } }

/-- The state after `addMetric`: the name is listed whether or not the registry
takes the metric. -/
def Running.added (s : Running) (metricName : Text) (properties : MetricProperties) : Running :=
  { module := { s.module with metricNames := s.module.metricNames.add metricName }
    metrics := s.metrics.addMetric
      (MetricFactory.getMetric (NameResolver.resolveMetricName metricName s.module.moduleName) properties) }

/-- A method of a module. -/
abbrev Java := Eff JavaError Running

namespace Module

def setConnected (connected : Bool) : Java Unit :=
  Eff.modify fun s => { s with module := { s.module with connected } }

def record (event : RemoteEvent) : Java Unit := Eff.modify fun s => s.recorded event

def addMetric (metricName : Text) (properties : MetricProperties) : Java Unit :=
  Eff.modify fun s => s.added metricName properties

/-- `connect`, over the class's own `connectionStatus` and `discoverMetrics`. -/
def connect (connectionStatus : Java Bool) (discoverMetrics : Java Unit) : Java Bool := do
  setConnected false
  if ← connectionStatus then
    discoverMetrics
    setConnected true
  return (← Eff.get).module.connected

end Module

/-! ### The most recent check and discovery -/

/-- Whether the most recent connection check succeeded. -/
def lastStatus : List RemoteEvent → Option Bool
  | [] => none
  | .status ok :: _ => some ok
  | _ :: l => lastStatus l

/-- The names reported by the discovery after the most recent connection
check, if it was answered with a list. -/
def lastDiscovery : List RemoteEvent → Option (List Text)
  | [] => none
  | .status _ :: _ => none
  | .discovery names :: _ => names
  | _ :: l => lastDiscovery l

theorem lastStatus_append : ∀ d l : List RemoteEvent,
    lastStatus (d ++ l) = (lastStatus d).orElse fun _ => lastStatus l
  | [], l => by simp [lastStatus]
  | .status ok :: d, l => rfl
  | .discovery _ :: d, l => lastStatus_append d l
  | .property _ _ :: d, l => lastStatus_append d l
  | .value _ _ :: d, l => lastStatus_append d l

/-- After a check, the discovery is the one after it. -/
theorem lastDiscovery_append_status (ok : Bool) (l : List RemoteEvent) : ∀ d : List RemoteEvent,
    lastDiscovery (d ++ .status ok :: l) = lastDiscovery (d ++ [.status ok])
  | [] => rfl
  | .status _ :: _ => rfl
  | .discovery _ :: _ => rfl
  | .property _ _ :: d => lastDiscovery_append_status ok l d
  | .value _ _ :: d => lastDiscovery_append_status ok l d

/-- Every name the most recent discovery reported is in the module's list. -/
def Registered (s : Running) : Prop :=
  ∀ names, lastDiscovery s.module.requests = some names → ∀ n ∈ names, n ∈ s.module.metricNames

/-- What every method does to its module: it asks further requests and lists
further names, and keeps the module's own name. -/
structure Grows (s s' : Running) : Prop where
  name : s'.module.moduleName = s.module.moduleName
  requests : s.module.requests <:+ s'.module.requests
  names : ∀ n ∈ s.module.metricNames, n ∈ s'.module.metricNames

theorem Grows.refl (s : Running) : Grows s s := ⟨rfl, List.suffix_rfl, fun _ h => h⟩

theorem Grows.trans {s s' s'' : Running} (h : Grows s s') (h' : Grows s' s'') : Grows s s'' :=
  ⟨h'.name.trans h.name, h.requests.trans h'.requests, fun n hn => h'.names n (h.names n hn)⟩

theorem grows_recorded (s : Running) (e : RemoteEvent) : Grows s (s.recorded e) :=
  ⟨rfl, List.suffix_cons _ _, fun _ h => h⟩

theorem grows_added (s : Running) (n : Text) (p : MetricProperties) : Grows s (s.added n p) :=
  ⟨rfl, List.suffix_rfl, fun _ h => TreeSet.mem_add.mpr (Or.inr h)⟩

end Plethora
