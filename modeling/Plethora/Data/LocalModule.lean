/-
# The server's own modules

`MetaModule` says what the server is: its name, version, hosts and ports and
its cluster, as constants out of the configuration, all declared text. It
keeps the values in a map of its own; the list of cluster members is rebuilt
when it is read. `SystemModule` has the processor and memory load of the
machine and of the processes of a layout file, all declared numbers.

The ports are `int`s in the configuration and stay `Integer`s in the map of
values, so that the text metrics of the ports are read as numbers.

Key definitions: `MetaConfiguration`, `MetaModule.entries`, `MetaModule.getValue`,
`SystemModule.discoverMetrics`, `SystemModule.getValue`, `LocalModule`.
Key theorems: `LocalModule.described_registrable`.
-/
import Plethora.Data.Module
import Plethora.Common.Numerals

namespace Plethora

/-- What the module reads of `MetaConfiguration`. -/
structure MetaConfiguration where
  moduleName : Text
  serverName : Option Text
  serverVersion : Option Text
  serverReleaseDate : Option Text
  httpHostname : Option Text
  httpPort : Int32
  jmxHostname : Option Text
  jmxPort : Int32
  snmpHostname : Option Text
  snmpPort : Int32
  clusterHostname : Option Text
  clusterPort : Int32
  clusterName : Option Text

/-! ### `MetaModule` -/

namespace MetaModule

def CLUSTER_MEMBERS : Text := "cluster_members".toList

/-- What `addMetric` is called with. -/
structure Entry where
  metricName : Text
  displayName : Text
  description : Text
  /-- Null if the configuration has none. -/
  value : Option JavaObject

variable (c : MetaConfiguration)

/-- `addServerMetrics`. -/
def serverEntries : List Entry :=
  [⟨"server_name".toList, "Server Name".toList,
      "The name of the this plethora metrics server instance".toList, c.serverName.map .string⟩,
    ⟨"server_version".toList, "Server Version".toList,
      "The version of the this plethora metrics server instance".toList, c.serverVersion.map .string⟩,
    ⟨"server_release_date".toList, "Server Release Date".toList,
      "The release date of the this plethora metrics server instance".toList, c.serverReleaseDate.map .string⟩,
    ⟨"http_hostname".toList, "HTTP Hostname".toList,
      "The HTTP hostname for this metrics server".toList, c.httpHostname.map .string⟩,
    ⟨"http_port".toList, "HTTP Port".toList,
      "The HTTP listen point port number for this metrics server".toList, some (.integer c.httpPort)⟩,
    ⟨"jmx_hostname".toList, "JMX Hostname".toList,
      "The jmx hostname for this metrics server".toList, c.jmxHostname.map .string⟩,
    ⟨"jmx_port".toList, "JMX Port".toList,
      "The JMX port number for this metrics server".toList, some (.integer c.jmxPort)⟩,
    ⟨"snmp_hostname".toList, "SNMP Hostname".toList,
      "The SNMP hostname for this metrics server".toList, c.snmpHostname.map .string⟩,
    ⟨"snmp_port".toList, "SNMP Port".toList,
      "The SNMP port number for this metrics server".toList, some (.integer c.snmpPort)⟩,
    ⟨"cluster_hostname".toList, "Cluster Hostname".toList,
      "The cluster hostname for this metrics server".toList, c.clusterHostname.map .string⟩,
    ⟨"cluster_port".toList, "Cluster Port".toList,
      "The cluster port number for this metrics server".toList, some (.integer c.clusterPort)⟩]

/-- `addClusterMetrics`, with the member list as it is then: none outside a
cluster. -/
def clusterEntries (memberList : Text) : List Entry :=
  match c.clusterName with
  | none => []
  | some name =>
    [⟨"cluster_name".toList, "Cluster Name".toList,
        "The name of the cluster this metrics server instance belongs to".toList, some (.string name)⟩,
      ⟨CLUSTER_MEMBERS, "Cluster Member List".toList,
        "Cluster member HTTP endpoints as a comma separated list of host:port".toList, some (.string memberList)⟩]

def entries (memberList : Text) : List Entry := serverEntries c ++ clusterEntries c memberList

theorem metricName_ne_nil {c : MetaConfiguration} {memberList : Text} {e : Entry}
    (h : e ∈ entries c memberList) : e.metricName ≠ [] := by
  have hserver : (serverEntries c).all (fun e => decide (e.metricName ≠ [])) = true := rfl
  have hcluster : (clusterEntries c memberList).all (fun e => decide (e.metricName ≠ [])) = true := by
    unfold clusterEntries
    cases c.clusterName <;> rfl
  have hall : ∀ {l : List Entry}, l.all (fun e => decide (e.metricName ≠ [])) = true → ∀ e ∈ l, e.metricName ≠ [] :=
    fun hl e he => of_decide_eq_true (List.all_eq_true.mp hl e he)
  rcases List.mem_append.mp h with h | h
  · exact hall hserver e h
  · exact hall hcluster e h

/-- `buildProperties`: all metrics in the module are of type text. -/
def buildProperties (e : Entry) : MetricProperties :=
  { displayname := e.displayName, description := e.description, type := .text }

/-- `getDefaultValue`. -/
def getDefaultValue (type : MetricType) : JavaObject :=
  match type with
  | .boolean => .boolean false
  | .number => .integer 0
  | _ => .string []

/-- `getNonNull`. -/
def getNonNull (value : Option JavaObject) (type : MetricType) : JavaObject := value.getD (getDefaultValue type)

/-- The map of values once the entries are added. -/
def values (memberList : Text) : List (Text × JavaObject) :=
  (entries c memberList).foldl (fun values e => put e.metricName (getNonNull e.value (buildProperties e).type) values) []

def discoverMetrics (memberList : Text) : List (Text × MetricProperties) :=
  (entries c memberList).map fun e => (e.metricName, buildProperties e)

/-- `getValue`, with the member list as it is then: the map after it, and the
value. -/
def getValue (values : List (Text × JavaObject)) (memberList metric : Text) :
    List (Text × JavaObject) × Option JavaObject :=
  let values := if equalsIgnoreCase CLUSTER_MEMBERS metric then put CLUSTER_MEMBERS (.string memberList) values
    else values
  (values, values.lookup metric)

end MetaModule

/-! ### `SystemModule` -/

/-- `SYSTEM_METRIC_TYPE`. -/
inductive SystemMetricType
  | cpu
  | memory
  deriving DecidableEq

namespace SystemMetricType

/-- `type.name()`. -/
def name : SystemMetricType → Text
  | .cpu => "cpu".toList
  | .memory => "memory".toList

theorem name_ne_nil : ∀ type : SystemMetricType, type.name ≠ []
  | .cpu | .memory => by decide

/-- `SYSTEM_METRIC_TYPE.values()`. -/
def values : List SystemMetricType := [.cpu, .memory]

/-- `SYSTEM_METRIC_TYPE.valueOf(name)`, null for an unknown name. -/
def valueOf (name : Text) : Option SystemMetricType := values.find? fun type => type.name = name

end SystemMetricType

namespace SystemModule

def moduleName : Text := "system".toList

/-- `metricName`. -/
def metricName (name : Text) (type : SystemMetricType) : Text := name ++ '.' :: type.name

/-- `buildProperties`: all metrics in the module are of type number. -/
def buildProperties (displayName description : Text) : MetricProperties :=
  { displayname := displayName, description, type := .number }

/-- The metrics of the system and of the processes, in the order of the map. -/
def discoverMetrics (pidMap : List (Text × Int64)) : List (Text × MetricProperties) :=
  (SystemMetricType.values.map fun type =>
    (type.name, buildProperties type.name ("System metric ".toList ++ type.name))) ++
  pidMap.flatMap fun entry => SystemMetricType.values.map fun type =>
    (metricName entry.1 type,
      buildProperties entry.1 ("System metric ".toList ++ type.name ++ " for ".toList ++ entry.1))

/-- `getNameTypePair`: parted at the first dot, unless that comes first. -/
def getNameTypePair (value : Text) : Option Text × Text :=
  let name := value.takeWhile (· ≠ '.')
  if name ≠ [] ∧ '.' ∈ value then (some name, value.drop (name.length + 1)) else (none, value)

/-- `getValue`, over the load of the system or of a process, null if it
cannot be had. -/
def getValue (pidMap : List (Text × Int64)) (getMetric : SystemMetricType → Option Int64 → Option Int64)
    (metric : Text) : Option JavaObject :=
  let pair := getNameTypePair metric
  match pair.1, SystemMetricType.valueOf pair.2 with
  | some name, some type =>
    (pidMap.lookup name).bind fun pid => if 0 < pid then (getMetric type (some pid)).map .long else none
  | none, some type => (getMetric type none).map .long
  | _, none => none

end SystemModule

/-! ### Either of them -/

inductive LocalModule
  | metaModule (configuration : MetaConfiguration) (memberList : Text) (values : List (Text × JavaObject))
  | systemModule (pidMap : List (Text × Int64))

namespace LocalModule

def moduleName : LocalModule → Text
  | .metaModule c _ _ => c.moduleName
  | .systemModule _ => SystemModule.moduleName

/-- The metrics `discoverMetrics` adds. -/
def described : LocalModule → List (Text × MetricProperties)
  | .metaModule c memberList _ => MetaModule.discoverMetrics c memberList
  | .systemModule pidMap => SystemModule.discoverMetrics pidMap

/-- The module after `discoverMetrics`. -/
def discovered : LocalModule → LocalModule
  | .metaModule c memberList _ => .metaModule c memberList (MetaModule.values c memberList)
  | .systemModule pidMap => .systemModule pidMap

/-- The module after `getValue`, and the value. -/
def getValue (getMetric : SystemMetricType → Option Int64 → Option Int64) (metric : Text) :
    LocalModule → LocalModule × Option JavaObject
  | .metaModule c memberList values =>
    (.metaModule c memberList (MetaModule.getValue values memberList metric).1,
      (MetaModule.getValue values memberList metric).2)
  | .systemModule pidMap => (.systemModule pidMap, SystemModule.getValue pidMap getMetric metric)

/-- The module as the cluster and the processes change. -/
inductive Moves : LocalModule → LocalModule → Prop
  | memberList (c : MetaConfiguration) (memberList memberList' : Text) (values : List (Text × JavaObject)) :
      Moves (.metaModule c memberList values) (.metaModule c memberList' values)
  | pidMap (pidMap pidMap' : List (Text × Int64)) : Moves (.systemModule pidMap) (.systemModule pidMap')

/-- The factory takes all of them. -/
theorem described_registrable : ∀ (l : LocalModule), ∀ d ∈ l.described,
    d.1 ≠ [] ∧ (MetricFactory.initialValue d.2.type).isSome = true
  | .metaModule c memberList _, d, h => by
    obtain ⟨e, he, rfl⟩ := List.mem_map.mp h
    exact ⟨MetaModule.metricName_ne_nil he, rfl⟩
  | .systemModule pidMap, d, h => by
    rw [described, SystemModule.discoverMetrics, List.mem_append] at h
    rcases h with h | h
    · obtain ⟨type, -, rfl⟩ := List.mem_map.mp h
      exact ⟨SystemMetricType.name_ne_nil type, rfl⟩
    · obtain ⟨entry, -, h⟩ := List.mem_flatMap.mp h
      obtain ⟨type, -, rfl⟩ := List.mem_map.mp h
      exact ⟨List.append_ne_nil_of_right_ne_nil _ (List.cons_ne_nil _ _), rfl⟩

end LocalModule

end Plethora
