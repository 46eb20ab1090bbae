/-
# Polls, reads and the MIB on file

The server as a whole, after its SNMP agent started: its modules and registry,
the MIB last written, and the poll in progress, if there is one. A poll checks
the modules one after the other and tries those that are not connected; it
rewrites the MIB in the end if any of them connected. A read or a refresh of a
metric of a remote module may find the connection gone, and connects and
discovers as well; nothing rewrites the MIB then.

A step is a connect, a read or what a poll does in between, each of them as a
whole; between any two steps there may be any other. A step says what its
module asked the remote end and was told. The other servers that a poll notifies
before the SNMP agent are taken to return. (A JMX service that was started badly
with updates forced does not: `Controller.poll_tells_iff`.)

The MIB numbers metrics by their positions in sorted sets, so it goes out of
date when a name joins before one of its own. `Calm` is what keeps that from
happening unnoticed: `get_agrees_of_calm`.

Key definitions: `Server`, `Server.Step`, `Server.Harmless`, `Server.Calm`,
`Server.Started`, `Server.InLine`.
Key theorems: `metricAt_withModule`, `inLine_step`, `get_agrees_of_calm`.
-/
import Plethora.Data.Connection
import Plethora.Data.Listing
import Plethora.Snmp.Mib
import Mathlib.Logic.Relation

namespace Plethora

/-- A module of the map. One of the server's own has no remote end, and is
always connected. -/
structure Served where
  state : Module
  remote : Option RemoteModule

structure Server where
  /-- `MODULE_MAP.values()`, in the order it is iterated in. -/
  moduleMap : List Served
  metrics : Metrics
  /-- The sections of the MIB last written. -/
  mib : List MetricEntry
  /-- What a poll has yet to check, and its `updated`. -/
  poll : Option (List Text × Bool)
  keys : (moduleMap.map (·.state.moduleName)).Nodup
  few : moduleMap.length < 2 ^ 31
  small : ∀ m ∈ moduleMap, m.state.metricNames.toList.length < 2 ^ 31

namespace Server

variable (s : Server)

def modules : Modules :=
  Modules.init (s.moduleMap.map fun m => (m.state.moduleName, m.state)) (by rw [List.length_map]; exact s.few)
    (by
      intro p hp
      obtain ⟨m, hm, rfl⟩ := List.mem_map.mp hp
      exact s.small m hm)

/-- The agent over the server as it is, configured like this one. -/
def agent (config : SnmpAgent) : SnmpAgent :=
  { config with metricService := { config.metricService with modules := s.modules, metrics := s.metrics } }

/-- The names a module lists. -/
def listed (module : Text) : TreeSet :=
  match s.modules.getModule module with
  | none => TreeSet.empty
  | some m => m.metricNames

/-- The module and the metric at the arcs `m.k`. -/
def metricAt (m k : ℕ) : Option (Text × Text) :=
  (nth s.modules.getModuleList m).bind fun module => (nth (s.listed module).toList k).map fun metric => (module, metric)

theorem agent_metricAt (config : SnmpAgent) (m k : ℕ) :
    (s.agent config).metricService.metricAt m k = s.metricAt m k := rfl

/-- What a module's call leaves of the map. -/
def replaced (m : Module) : List Served :=
  s.moduleMap.map fun x => if x.state.moduleName = m.moduleName then { x with state := m } else x

theorem replaced_keys (m : Module) :
    (s.replaced m).map (·.state.moduleName) = s.moduleMap.map (·.state.moduleName) := by
  rw [replaced, List.map_map]
  refine List.map_congr_left fun x _ => ?_
  dsimp only [Function.comp_apply]
  split
  · rename_i h
    exact h.symm
  · rfl

def withModule (m : Module) (h : m.metricNames.toList.length < 2 ^ 31) : Server :=
  { s with
    moduleMap := s.replaced m
    keys := by
      rw [replaced_keys]
      exact s.keys
    few := by
      rw [replaced, List.length_map]
      exact s.few
    small := by
      intro x hx
      obtain ⟨y, hy, rfl⟩ := List.mem_map.mp hx
      split
      · exact h
      · exact s.small y hy }

/-! ### Steps -/

/-- What happens in a step, with the requests a module made in it. -/
inductive Event
  | readOwn
  | read (module : Text) (requests : List RemoteEvent)
  | pollStart
  | pollCheck (module : Text) (requests : List RemoteEvent)
  | pollThrows (module : Text) (requests : List RemoteEvent)
  | pollEnd
  | notify

/-- The value read is put into the metric looked up before, which the registry
no longer holds if it was discovered again in between. -/
def Stored (metrics metrics' : Metrics) (name : Text) (metric : Metric) (value : Option JavaObject) : Prop :=
  metrics' = metrics ∨ metrics' = metrics.put name (metric.setValueAsObject value)

variable (config : SnmpAgent)

inductive Step : Server → Event → Server → Prop
  /-- A read of a metric of the server's own modules, or of none. -/
  | readOwn {s : Server} {name : Text} {metric : Metric} {value : Option JavaObject} {metrics : Metrics}
      (found : s.metrics.get name = some metric)
      (own : ∀ m ∈ s.moduleMap, metric.moduleName = some m.state.moduleName → m.remote = none)
      (stored : Stored s.metrics metrics name metric value) : Step s .readOwn { s with metrics }
  | read {s : Server} {name : Text} {metric : Metric} {m : Served} {remote : RemoteModule} {depth : ℕ}
      {value : Option JavaObject} {t : Running} {requests : List RemoteEvent} {metrics : Metrics}
      (found : s.metrics.get name = some metric) (module : m ∈ s.moduleMap) (isRemote : m.remote = some remote)
      (named : metric.moduleName = some m.state.moduleName)
      (call : remote.getValue depth (metric.metricName.getD []) ⟨m.state, s.metrics⟩ = .returned value t)
      (asked : t.module.requests = requests ++ m.state.requests)
      (stored : Stored t.metrics metrics name metric value)
      (small : t.module.metricNames.toList.length < 2 ^ 31) :
      Step s (.read m.state.moduleName requests) { s.withModule t.module small with metrics }
  | readThrows {s : Server} {name : Text} {metric : Metric} {m : Served} {remote : RemoteModule} {depth : ℕ}
      {e : JavaError} {t : Running} {requests : List RemoteEvent}
      (found : s.metrics.get name = some metric) (module : m ∈ s.moduleMap) (isRemote : m.remote = some remote)
      (named : metric.moduleName = some m.state.moduleName)
      (call : remote.getValue depth (metric.metricName.getD []) ⟨m.state, s.metrics⟩ = .thrown e t)
      (asked : t.module.requests = requests ++ m.state.requests)
      (small : t.module.metricNames.toList.length < 2 ^ 31) :
      Step s (.read m.state.moduleName requests) { s.withModule t.module small with metrics := t.metrics }
  /-- The polls are made by one thread. -/
  | pollStart {s : Server} (idle : s.poll = none) :
      Step s .pollStart { s with poll := some (s.moduleMap.map (·.state.moduleName), false) }
  | pollConnected {s : Server} {m : Served} {rest : List Text} {updated : Bool}
      (poll : s.poll = some (m.state.moduleName :: rest, updated)) (module : m ∈ s.moduleMap)
      (connected : m.state.connected = true) :
      Step s (.pollCheck m.state.moduleName []) { s with poll := some (rest, updated) }
  | pollConnect {s : Server} {m : Served} {remote : RemoteModule} {rest : List Text} {updated b : Bool} {depth : ℕ}
      {t : Running} {requests : List RemoteEvent}
      (poll : s.poll = some (m.state.moduleName :: rest, updated)) (module : m ∈ s.moduleMap)
      (isRemote : m.remote = some remote) (pending : m.state.connected = false)
      (call : remote.connect depth ⟨m.state, s.metrics⟩ = .returned b t)
      (asked : t.module.requests = requests ++ m.state.requests)
      (small : t.module.metricNames.toList.length < 2 ^ 31) :
      Step s (.pollCheck m.state.moduleName requests)
        { s.withModule t.module small with metrics := t.metrics, poll := some (rest, updated || b) }
  /-- The exception leaves the poll, and nobody is notified. -/
  | pollThrows {s : Server} {m : Served} {remote : RemoteModule} {rest : List Text} {updated : Bool} {depth : ℕ}
      {e : JavaError} {t : Running} {requests : List RemoteEvent}
      (poll : s.poll = some (m.state.moduleName :: rest, updated)) (module : m ∈ s.moduleMap)
      (isRemote : m.remote = some remote) (pending : m.state.connected = false)
      (call : remote.connect depth ⟨m.state, s.metrics⟩ = .thrown e t)
      (asked : t.module.requests = requests ++ m.state.requests)
      (small : t.module.metricNames.toList.length < 2 ^ 31) :
      Step s (.pollThrows m.state.moduleName requests)
        { s.withModule t.module small with metrics := t.metrics, poll := none }
  | pollEnd {s : Server} (poll : s.poll = some ([], false)) : Step s .pollEnd { s with poll := none }
  /-- `updateNotify` of the agent. -/
  | notify {s : Server} {sections : List MetricEntry} (poll : s.poll = some ([], true))
      (written : (s.agent config).mibEngine.buildSections (s.agent config).metricService.moduleList 1 = .ok sections) :
      Step s .notify { s with mib := sections, poll := none }
  | notifyThrows {s : Server} {e : JavaError} (poll : s.poll = some ([], true))
      (written : (s.agent config).mibEngine.buildSections (s.agent config).metricService.moduleList 1 = .error e) :
      Step s .notify { s with poll := none }

/-! ### When the MIB stays in line -/

/-- No poll in progress will rewrite the MIB, as far as it has come. -/
def Unnoticed : Prop :=
  match s.poll with
  | none => True
  | some (_, updated) => updated = false

/-- Every name reported in these requests is listed by the module already, or
comes after all names the MIB has for it. -/
def Harmless (module : Text) (requests : List RemoteEvent) : Prop :=
  ∀ x ∈ reported requests, x ∈ s.listed module ∨ ∀ e ∈ s.mib, e.parent = module → before e.name x

/-- A read that no poll makes up for brings up no name before those of the
MIB; no poll is cut short once a module connected, and the check it is cut
short in brings up no such name either; and when a poll is to rewrite the MIB,
every listed name has a metric. -/
def Calm : Event → Prop
  | .read module requests => s.Unnoticed → s.Harmless module requests
  | .pollThrows module requests => s.Unnoticed ∧ s.Harmless module requests
  | .notify => (s.agent config).metricService.AllRegistered
  | .readOwn | .pollStart | .pollCheck .. | .pollEnd => True

/-- A step that meets the condition. -/
def CalmStep (s s' : Server) : Prop := ∃ event, Step config s event s' ∧ Calm s config event

/-- The agent has started: it has written its MIB. -/
structure Started : Prop where
  idle : s.poll = none
  written : (s.agent config).mibEngine.buildSections (s.agent config).metricService.moduleList 1 = .ok s.mib

/-- What the MIB places at its ids is there, unless a poll is to rewrite it. -/
def InLine : Prop := s.Unnoticed → ∀ e ∈ s.mib, s.metricAt e.moduleId e.id = some (e.parent, e.name)

/-! ### Positions through a call -/

theorem getModuleList_withModule (m : Module) (h : m.metricNames.toList.length < 2 ^ 31) :
    (s.withModule m h).modules.getModuleList = s.modules.getModuleList := by
  have hk : ((s.replaced m).map fun x => (x.state.moduleName, x.state)).map (·.1) =
      (s.moduleMap.map fun x => (x.state.moduleName, x.state)).map (·.1) := by
    rw [List.map_map, List.map_map]
    exact s.replaced_keys m
  show (TreeSet.empty.addAll (((s.replaced m).map fun x => (x.state.moduleName, x.state)).map (·.1))).toList = _
  rw [hk]
  rfl

theorem lookup_replaced (m : Module) (n : Text) : ∀ l : List Served,
    ((l.map fun x => if x.state.moduleName = m.moduleName then { x with state := m } else x).map
      fun x => (x.state.moduleName, x.state)).lookup n =
      ((l.map fun x => (x.state.moduleName, x.state)).lookup n).map fun x => if n = m.moduleName then m else x
  | [] => rfl
  | x :: l => by
    have ih := lookup_replaced m n l
    rw [List.map_cons, List.map_cons, List.map_cons, List.lookup_cons, List.lookup_cons, ih]
    by_cases hx : x.state.moduleName = m.moduleName
    · rw [if_pos hx]
      dsimp only
      rw [hx]
      by_cases hn : n = m.moduleName
      · rw [beq_iff_eq.mpr hn, Option.map_some, if_pos hn]
      · rw [beq_eq_false_iff_ne.mpr hn]
    · rw [if_neg hx]
      by_cases hn : n = x.state.moduleName
      · rw [beq_iff_eq.mpr hn, Option.map_some, if_neg (hn ▸ hx)]
      · rw [beq_eq_false_iff_ne.mpr hn]

theorem getModule_withModule (m : Module) (h : m.metricNames.toList.length < 2 ^ 31) (n : Text) :
    (s.withModule m h).modules.getModule n =
      (s.modules.getModule n).map fun x => if n = m.moduleName then m else x :=
  lookup_replaced m n s.moduleMap

theorem getModule_of_mem {m : Served} (h : m ∈ s.moduleMap) :
    s.modules.getModule m.state.moduleName = some m.state := by
  have hk : ((s.moduleMap.map fun x => (x.state.moduleName, x.state)).map (·.1)).Nodup := by
    rw [List.map_map]
    exact s.keys
  exact lookup_of_mem hk (List.mem_map.mpr ⟨m, h, rfl⟩)

/-- A metric is where it was if its own module listed only later names. -/
theorem metricAt_withModule {m : Served} {t : Module} {j k : ℕ} {module metric : Text} (hm : m ∈ s.moduleMap)
    (hname : t.moduleName = m.state.moduleName) (hkept : ∀ x ∈ m.state.metricNames, x ∈ t.metricNames)
    (hnew : ∀ x ∈ t.metricNames, x ∈ m.state.metricNames ∨ (module = m.state.moduleName → before metric x))
    (h : t.metricNames.toList.length < 2 ^ 31) (hat : s.metricAt j k = some (module, metric)) :
    (s.withModule t h).metricAt j k = some (module, metric) := by
  unfold metricAt at hat ⊢
  rw [getModuleList_withModule]
  obtain ⟨module', hmod, hmet⟩ := Option.bind_eq_some_iff.mp hat
  obtain ⟨metric', hk, he⟩ := Option.map_eq_some_iff.mp hmet
  cases he
  rw [hmod, Option.bind_some]
  have hlist : nth ((s.withModule t h).listed module).toList k = some metric := by
    unfold listed
    rw [getModule_withModule]
    by_cases hn : module = m.state.moduleName
    · subst hn
      have hl : s.listed m.state.moduleName = m.state.metricNames := by
        unfold listed
        rw [s.getModule_of_mem hm]
      rw [hl] at hk
      rw [s.getModule_of_mem hm, Option.map_some, if_pos hname.symm]
      obtain ⟨i, rfl, hi⟩ := MIBEngine.nth_eq_some.mp hk
      refine MIBEngine.nth_eq_some.mpr ⟨i, rfl, ?_⟩
      exact TreeSet.getElem?_of_later m.state.metricNames.sorted t.metricNames.sorted hkept
        (fun x hx => (hnew x hx).imp_right fun hb => hb rfl) hi
    · have hne : module ≠ t.moduleName := by rwa [hname]
      unfold listed at hk
      cases hg : s.modules.getModule module with
      | none =>
        rw [hg] at hk
        exact hk
      | some x =>
        rw [hg] at hk
        rw [Option.map_some, if_neg hne]
        exact hk
  rw [hlist]
  rfl

/-! ### One step -/

/-- A module's call leaves the MIB's metrics where they are if it was told
nothing harmful. -/
theorem inLine_of_lists {m : Served} {t : Running} {requests : List RemoteEvent} (hm : m ∈ s.moduleMap)
    (hl : ∃ d, Lists ⟨m.state, s.metrics⟩ d t) (asked : t.module.requests = requests ++ m.state.requests)
    (small : t.module.metricNames.toList.length < 2 ^ 31) (hs : s.Harmless m.state.moduleName requests)
    (hin : ∀ e ∈ s.mib, s.metricAt e.moduleId e.id = some (e.parent, e.name)) :
    ∀ e ∈ s.mib, (s.withModule t.module small).metricAt e.moduleId e.id = some (e.parent, e.name) := by
  obtain ⟨d, hl⟩ := hl
  obtain rfl : d = requests := List.append_cancel_right (hl.requests.symm.trans asked)
  intro e he
  refine s.metricAt_withModule hm hl.name hl.kept (fun x hx => ?_) small (hin e he)
  rcases hl.new x hx with hx | hx
  · exact Or.inl hx
  · rcases hs x hx with hx | hx
    · left
      unfold listed at hx
      rw [s.getModule_of_mem hm] at hx
      exact hx
    · exact Or.inr fun hp => hx e he hp

/-- What a call of a remote module lists. -/
theorem lists_of_getValue {remote : RemoteModule} {depth : ℕ} {metric : Text} {r t : Running}
    (h : (∃ v, remote.getValue depth metric r = .returned v t) ∨ ∃ e, remote.getValue depth metric r = .thrown e t) :
    ∃ d, Lists r d t := by
  rcases h with ⟨v, h⟩ | ⟨e, h⟩
  · exact (remote.lists_getValue depth metric r).returned h
  · exact (remote.lists_getValue depth metric r).thrown h

variable {s}

/-- A connect that fails asks for nothing but the status. -/
theorem reported_of_connect {remote : RemoteModule} {depth : ℕ} {r t : Running} {requests : List RemoteEvent}
    (call : remote.connect depth r = .returned false t)
    (asked : t.module.requests = requests ++ r.module.requests) : reported requests = [] := by
  obtain ⟨d, hd, hnil⟩ := ((remote.ensures_connect depth r).returned call).checked
  rw [hnil rfl, List.nil_append] at hd
  have he : requests ++ r.module.requests = [.status false] ++ r.module.requests := asked.symm.trans hd
  rw [List.append_cancel_right he]
  rfl

variable {config : SnmpAgent}

/-- A MIB just written is in line. -/
theorem metricAt_of_written {sections : List MetricEntry}
    (written : (s.agent config).mibEngine.buildSections (s.agent config).metricService.moduleList 1 = .ok sections) :
    ∀ e ∈ sections, s.metricAt e.moduleId e.id = some (e.parent, e.name) := by
  obtain ⟨hn, -⟩ := (s.agent config).mibEngine.buildSections_numbered _ _ _ written
  intro e he
  rw [← s.agent_metricAt config]
  exact SnmpAgent.metricAt_of_mem hn he

theorem inLine_step {s' : Server} {event : Event} (hin : s.InLine) (hstep : Step config s event s')
    (hcalm : Calm s config event) : s'.InLine := by
  cases hstep with
  | readOwn found own stored => exact hin
  | read found module isRemote named call asked stored small =>
    intro hu
    have hl := lists_of_getValue (Or.inl ⟨_, call⟩)
    exact s.inLine_of_lists module hl asked small (hcalm hu) (hin hu)
  | readThrows found module isRemote named call asked small =>
    intro hu
    have hl := lists_of_getValue (Or.inr ⟨_, call⟩)
    exact s.inLine_of_lists module hl asked small (hcalm hu) (hin hu)
  | pollStart idle =>
    intro _
    refine hin ?_
    rw [Unnoticed, idle]
    trivial
  | @pollConnected m rest updated poll module connected =>
    intro hu
    refine hin ?_
    rw [Unnoticed, poll]
    exact hu
  | @pollConnect m remote rest updated b depth t requests poll module isRemote pending call asked small =>
    intro hu
    -- the flag is still unset, so this check failed
    have hor : (updated || b) = false := hu
    rw [Bool.or_eq_false_iff] at hor
    obtain ⟨rfl, rfl⟩ := hor
    have hs : s.Harmless m.state.moduleName requests := by
      intro x hx
      rw [reported_of_connect call asked] at hx
      cases hx
    have hu' : s.Unnoticed := by
      rw [Unnoticed, poll]
    have hl := (remote.lists_connect depth ⟨m.state, s.metrics⟩).returned call
    exact s.inLine_of_lists module hl asked small hs (hin hu')
  | @pollThrows m remote rest updated depth e t requests poll module isRemote pending call asked small =>
    intro _
    have hl := (remote.lists_connect depth ⟨m.state, s.metrics⟩).thrown call
    exact s.inLine_of_lists module hl asked small hcalm.2 (hin hcalm.1)
  | pollEnd poll =>
    intro _
    refine hin ?_
    rw [Unnoticed, poll]
  | notify poll written =>
    exact fun _ => metricAt_of_written written
  | notifyThrows poll written =>
    -- every listed name has a metric, so the MIB is written
    obtain ⟨sections, h⟩ := (s.agent config).mibEngine.buildSections_ok _ 1 hcalm
    rw [written] at h
    cases h

/-- And so in a run. -/
theorem inLine_run {s' : Server} (h : s.InLine) (run : Relation.ReflTransGen (CalmStep config) s s') : s'.InLine := by
  induction run with
  | refl => exact h
  | tail _ hstep ih =>
    obtain ⟨event, hstep, hcalm⟩ := hstep
    exact inLine_step ih hstep hcalm

/-- **The MIB and the agent stay together** in every run of calm steps. When
no poll is in progress, GET of the OID the MIB gives a metric answers for that
metric, however the agent that reads the server is configured. -/
theorem get_agrees_of_calm {s' : Server} (h : Started s config)
    (run : Relation.ReflTransGen (CalmStep config) s s') (idle : s'.poll = none) :
    ∀ e ∈ s'.mib, ∀ reader : SnmpAgent,
      (s'.agent reader).getValueforOID ((s'.agent reader).metricOid e.moduleId e.id) =
        (s'.agent reader).metricService.metricVariable e.parent e.name := by
  have hin : s'.InLine := inLine_run (fun _ => metricAt_of_written h.written) run
  have hu : s'.Unnoticed := by
    rw [Unnoticed, idle]
    trivial
  intro e he reader
  exact SnmpAgent.getValueforOID_metricOid (hin hu e he)

/-! ### A bean with a metric more -/

/-- A JMX remote end that loses its connection on the first read, and has one
attribute more when it is back, a text. -/
def restarted (more : Text) : JMXModule where
  remote n :=
    { connects := true
      info := if n < 2 then some [⟨"b".toList, "java.lang.Long".toList, none⟩]
        else some [⟨"b".toList, "java.lang.Long".toList, none⟩, ⟨more, "java.lang.String".toList, none⟩]
      getAttribute := .ioException }
  json := ⟨fun _ _ => none, fun _ _ => none, fun _ _ => none⟩

/-- Its module after the first connect. -/
def connectedOnce : Running :=
  ({ module := { moduleName := "jvm".toList, connected := true
                 requests := [.discovery (some ["b".toList]), .status true] }
     metrics := {} } : Running).added "b".toList {}

/-- Its module after the read that reconnected it. -/
def connectedAgain (more : Text) : Running :=
  (({ connectedOnce with
      module.requests := [.discovery (some ["b".toList, more]), .status true, .value "b".toList false,
        .discovery (some ["b".toList]), .status true] } : Running).added "b".toList {}).added more { type := .text }

theorem connectedAgain_small (more : Text) : (connectedAgain more).module.metricNames.toList.length < 2 ^ 31 := by
  have h := TreeSet.length_insert_le more (((TreeSet.empty.add "b".toList).add "b".toList).toList)
  have h2 : (((TreeSet.empty.add "b".toList).add "b".toList).toList).length + 1 < 2 ^ 31 :=
    show 1 + 1 < 2 ^ 31 by decide
  exact lt_of_le_of_lt h h2

/-- The server that has written its MIB with the one metric. -/
def listingOne (more : Text) : Server where
  moduleMap := [⟨connectedOnce.module, some (.jmx (restarted more))⟩]
  metrics := connectedOnce.metrics
  mib := [{ moduleId := 1, id := 1, name := "b".toList, parent := "jvm".toList, properties := {}
            syntx := "INTEGER".toList }]
  poll := none
  keys := List.nodup_singleton _
  few := one_small
  small := by
    intro m hm
    rw [List.mem_singleton.mp hm]
    exact one_small

/-- The server after the read. -/
def listingTwo (more : Text) : Server :=
  { (listingOne more).withModule (connectedAgain more).module (connectedAgain_small more) with
    metrics := (connectedAgain more).metrics }

theorem started_listingOne (more : Text) : Started (listingOne more) (SnmpAgent.oneMetric []) := ⟨rfl, rfl⟩

theorem step_listingOne (more : Text) : Step (SnmpAgent.oneMetric []) (listingOne more)
    (.read "jvm".toList [.discovery (some ["b".toList, more]), .status true, .value "b".toList false])
    (listingTwo more) :=
  @Step.read _ (listingOne more) "hackorama.jvm.b".toList (Metric.init "hackorama.jvm.b".toList (.long 0) {} rfl)
    ⟨connectedOnce.module, some (.jmx (restarted more))⟩ (.jmx (restarted more)) 0 none (connectedAgain more)
    [.discovery (some ["b".toList, more]), .status true, .value "b".toList false] (connectedAgain more).metrics
    rfl (List.mem_singleton_self _) rfl rfl rfl rfl (Or.inl rfl) (connectedAgain_small more)

/-- A name after the MIB's own. -/
theorem get_agrees_of_calm_listingTwo : (listingTwo "c".toList).mib ≠ [] ∧
    ∀ e ∈ (listingTwo "c".toList).mib, ∀ reader : SnmpAgent,
      ((listingTwo "c".toList).agent reader).getValueforOID
          (((listingTwo "c".toList).agent reader).metricOid e.moduleId e.id) =
        ((listingTwo "c".toList).agent reader).metricService.metricVariable e.parent e.name := by
  refine ⟨List.cons_ne_nil _ _, get_agrees_of_calm (started_listingOne "c".toList)
    (.single ⟨_, step_listingOne "c".toList, fun _ x hx => ?_⟩) rfl⟩
  rcases List.mem_cons.mp hx with rfl | hx
  · exact Or.inl (by decide)
  · rw [List.mem_singleton.mp hx]
    exact Or.inr (by decide)

/-- A name before it: the OID that the MIB gives `b` is now that of `a`. -/
theorem listingTwo_shifted : Started (listingOne "a".toList) (SnmpAgent.oneMetric []) ∧
    (∃ event, Step (SnmpAgent.oneMetric []) (listingOne "a".toList) event (listingTwo "a".toList)) ∧
    (listingTwo "a".toList).poll = none ∧
    ∃ e ∈ (listingTwo "a".toList).mib,
      ((listingTwo "a".toList).agent (SnmpAgent.oneMetric [])).getValueforOID
          (((listingTwo "a".toList).agent (SnmpAgent.oneMetric [])).metricOid e.moduleId e.id) =
        .ok (.octetString []) ∧
      ((listingTwo "a".toList).agent (SnmpAgent.oneMetric [])).metricService.metricVariable e.parent e.name =
        .ok (.integer32 0) := by
  refine ⟨started_listingOne _, ⟨_, step_listingOne _⟩, rfl, _, List.mem_singleton_self _, ?_, ?_⟩
  · rfl
  · rfl

end Server

end Plethora
