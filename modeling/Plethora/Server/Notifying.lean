/-
# Services, and the polls that notify them

`Controller` makes the JMX, web and SNMP services, starts them and registers
them with `MetricService`, whether they started or not. `pollModules` tells
every registered server of a new connection, one after the other in the order
they were registered, and pokes the modules then. An exception ends the poll; it
is caught by the task that polls, so the next poll meets it again.

A JMX service that never got an MBean server throws when it is told and updates
are forced, and an SNMP service when its MIB cannot be generated. So a poll that
connected a module reaches every server exactly if no JMX service was started so
with updates forced, and no SNMP service was made or the MIB is generated; else
it ends with an exception (`poll_tells_iff`).

`stopWebService` calls `startServer`: nothing the controller does stops a web
server, not even a new web service, and until there is one each such call
registers it once more (`web_never_stops`).

Key definitions: `Controller`, `Controller.pollModules`, `Controller.perform`,
`Controller.Told`.
Key theorems: `updateNotify_spec`, `notifyServers_spec`, `poll_tells_iff`,
`web_never_stops`.
-/
import Plethora.Jmx.Agent
import Plethora.Lib.Runs

namespace Plethora

open JMXAgent (Startup OnPlatform)

/-- What the services read of `ServerConfiguration`. -/
structure ServiceConfiguration where
  jmxHostname : Option Text
  jmxPort : Int32
  isJmxMBeanForceUpdated : Bool
  httpHostname : Option Text
  httpPort : Int32

inductive MetricServer
  | jmx (agent : JMXAgent)
  /-- The web server, and whether its `HttpServer` runs. -/
  | web (running : Bool)
  /-- The SNMP agent, and the registry its MIB was generated from last, whether
  it could be written or not. -/
  | snmp (mib : Option Metrics)

/-- The controller with its metric service. The servers that were made are
known by their numbers. -/
structure Controller where
  servers : List MetricServer := []
  metricServers : List ℕ := []
  webServer : Option ℕ := none
  jmxAgent : Option ℕ := none
  snmpAgent : Option ℕ := none
  /-- The names in the MBean server of the platform. -/
  registered : List Text := []
  metrics : Metrics := {}
  /-- How often the modules were poked. -/
  poked : ℕ := 0

abbrev Control := Eff JavaError Controller

namespace Controller

def setServer (n : ℕ) (server : MetricServer) : Control Unit :=
  Eff.modify fun s => { s with servers := s.servers.set n server }

/-- A server that has just been made. -/
def addServer (server : MetricServer) : Control ℕ := do
  let s ← Eff.get
  Eff.modify fun s => { s with servers := s.servers ++ [server] }
  return s.servers.length

/-- A call of the JMX agent with this number. -/
def onAgent {α : Type} (n : ℕ) (agent : JMXAgent) (call : JMXAgent.AgentCall α) : Control α := fun s =>
  match call ⟨agent, s.registered⟩ with
  | .returned a p => .returned a { s with servers := s.servers.set n (.jmx p.agent), registered := p.registered }
  | .thrown e p => .thrown e { s with servers := s.servers.set n (.jmx p.agent), registered := p.registered }
  | .unfinished => .unfinished

/-- `startServer`, with the server's `call`. An exception of it is caught. -/
def startServer (n : ℕ) (call : Control Bool) : Control Unit := fun s =>
  .returned () { call.left s with metricServers := (call.left s).metricServers ++ [n] }

/-- `WebServer.start`, with whether the `HttpServer` could be created. -/
def startWebServer (n : ℕ) (created : Bool) : Control Bool := do
  if created then
    setServer n (.web true)
  return created

/-- `generateMib`, as it comes out. -/
def generateMib (n : ℕ) (outcome : Except JavaError Bool) : Control Bool := do
  let done ← Eff.lift outcome
  let s ← Eff.get
  setServer n (.snmp (some s.metrics))
  return done

/-- `SnmpAgent.start`. What `generateMib` returns is not looked at. -/
def startSnmpAgent (n : ℕ) (listens : Bool) (outcome : Except JavaError Bool) : Control Bool :=
  if listens then do
    let _ ← generateMib n outcome
    return true
  else
    return false

section Services

variable (config : ServiceConfiguration) (objectName : Text → Bool)

def newJMXAgent (metrics : Metrics) : JMXAgent :=
  { moduleName := some "plethora".toList, mbean := some (PlethoraMBean.buildMBeanInfo metrics)
    host := config.jmxHostname, port := config.jmxPort }

def startJMXService (platform : Startup) : Control Unit := do
  let agent := newJMXAgent config (← Eff.get).metrics
  let n ← addServer (.jmx agent)
  Eff.modify fun s => { s with jmxAgent := some n }
  startServer n (onAgent n agent (JMXAgent.start objectName (ServerJMXAgent.createAgent platform)))

def stopJMXService (stopConnectorServer : Except JavaError Unit) : Control Unit := do
  let s ← Eff.get
  match s.jmxAgent.bind (fun n => s.servers[n]?.map (n, ·)) with
  | some (n, .jmx agent) => onAgent n agent (ServerJMXAgent.stop objectName stopConnectorServer)
  | _ => return ()

def startWebService (created : Bool) : Control Unit := do
  if Util.invalidPort config.httpPort || config.httpHostname.isNone then
    Eff.lift (.error .illegalArgument)
  else do
    let n ← addServer (.web false)
    Eff.modify fun s => { s with webServer := some n }
    startServer n (startWebServer n created)

/-- `stopWebService`: the call it makes is `startServer(webServer)`. -/
def stopWebService (created : Bool) : Control Unit := do
  match (← Eff.get).webServer with
  | none => Eff.lift (.error .nullPointer)
  | some n => startServer n (startWebServer n created)

/-- `startSNMPService`, with whether the constructor of the agent returns. -/
def startSNMPService (constructed listens : Bool) (outcome : Except JavaError Bool) : Control Unit := do
  if !constructed then
    Eff.lift (.error .illegalArgument)
  else do
    let n ← addServer (.snmp none)
    Eff.modify fun s => { s with snmpAgent := some n }
    startServer n (startSnmpAgent n listens outcome)

/-! ### Polls -/

/-- What a poll meets: how `checkModulesForUpdates` comes out, the metrics
after it, and how the MIB is generated. -/
structure Poll where
  checkModulesForUpdates : Except JavaError Bool
  metrics : Metrics
  generateMib : Except JavaError Bool

/-- `updateNotify` of the server with this number. -/
def updateNotify (poll : Poll) (n : ℕ) : Control Bool := do
  let s ← Eff.get
  match s.servers[n]? with
  | some (.jmx agent) =>
    onAgent n agent (ServerJMXAgent.updateNotify objectName config.isJmxMBeanForceUpdated s.metrics)
  | some (.web _) => return true
  | some (.snmp _) => generateMib n poll.generateMib
  | none => Eff.lift (.error .nullPointer)

def notifyServers (poll : Poll) : List ℕ → Control Unit
  | [] => return ()
  | n :: servers => do
    let _ ← updateNotify config objectName poll n
    notifyServers poll servers

def pollModules (poll : Poll) : Control Unit := do
  Eff.modify fun s => { s with metrics := poll.metrics }
  let s ← Eff.get
  let updated ← Eff.lift poll.checkModulesForUpdates
  notifyServers config objectName poll (if updated then s.metricServers else [])
  Eff.modify fun s => { s with poked := s.poked + 1 }

/-! ### Runs -/

inductive Event
  | startJMXService (platform : Startup)
  | stopJMXService (stopConnectorServer : Except JavaError Unit)
  | startWebService (created : Bool)
  | stopWebService (created : Bool)
  | startSNMPService (constructed listens : Bool) (outcome : Except JavaError Bool)
  | pollModules (poll : Poll)

def perform : Event → Control Unit
  | .startJMXService platform => startJMXService config objectName platform
  | .stopJMXService closing => stopJMXService objectName closing
  | .startWebService created => startWebService config created
  | .stopWebService created => stopWebService created
  | .startSNMPService constructed listens outcome => startSNMPService constructed listens outcome
  | .pollModules poll => pollModules config objectName poll

/-- An exception of a poll is caught by its task; one of the other calls ends
that call. -/
def after (s : Controller) (e : Event) : Controller := (perform config objectName e).left s

def Step (s : Controller) (e : Event) (t : Controller) : Prop := after config objectName s e = t

end Services

end Controller

/-! ### What the calls leave alone -/

namespace MetricServer

/-- A server without what its calls change. -/
def outline : MetricServer → MetricServer
  | .jmx agent =>
    .jmx
      { moduleName := agent.moduleName, mbean := agent.mbean.map fun _ => [], host := none, port := 0
        mbeanServer := agent.mbeanServer }
  | .web _ => .web false
  | .snmp _ => .snmp none

/-- It throws when it is told of an update; `generated` says whether the
generation of a MIB returns. -/
def stuck (config : ServiceConfiguration) (generated : Bool) : MetricServer → Bool
  | .jmx agent => config.isJmxMBeanForceUpdated && !agent.mbeanServer
  | .web _ => false
  | .snmp _ => !generated

/-- It shows the metrics. -/
def UpToDate (metrics : Metrics) : MetricServer → Prop
  | .jmx agent => agent.mbean = some (PlethoraMBean.buildMBeanInfo metrics)
  | .web _ => True
  | .snmp mib => mib = some metrics

/-- A JMX service as the controller makes them. -/
def Named : MetricServer → Prop
  | .jmx agent => agent.moduleName = some "plethora".toList ∧ agent.mbean.isSome = true
  | _ => True

theorem stuck_outline (config : ServiceConfiguration) (generated : Bool) (x : MetricServer) :
    x.outline.stuck config generated = x.stuck config generated := by
  cases x <;> rfl

theorem named_outline (x : MetricServer) : x.outline.Named ↔ x.Named := by
  cases x with
  | jmx agent => simp [outline, Named]
  | _ => rfl

theorem named_congr {x y : MetricServer} (h : x.outline = y.outline) : x.Named ↔ y.Named := by
  rw [← named_outline, h, named_outline]

end MetricServer

namespace Controller

open MetricServer

/-- The web servers that ran still run. -/
def WebRuns (servers servers' : List MetricServer) : Prop :=
  ∀ n : ℕ, servers[n]? = some (.web true) → servers'[n]? = some (.web true)

/-- The servers are those that were there, with the same outlines, and a web
server that ran still runs. -/
def Quiet (s t : Controller) : Prop :=
  t.servers.map outline = s.servers.map outline ∧ WebRuns s.servers t.servers ∧
    ∃ servers registered, t = { s with servers, registered }

theorem Quiet.metricServers {s t : Controller} (h : Quiet s t) : t.metricServers = s.metricServers := by
  obtain ⟨-, -, servers, registered, rfl⟩ := h
  rfl

theorem quiet_refl (s : Controller) : Quiet s s := ⟨rfl, fun _ h => h, s.servers, s.registered, rfl⟩

theorem Quiet.trans {s t u : Controller} (h : Quiet s t) (h' : Quiet t u) : Quiet s u := by
  obtain ⟨ho, hr, servers, registered, rfl⟩ := h
  obtain ⟨ho', hr', servers', registered', rfl⟩ := h'
  exact ⟨ho'.trans ho, fun n hn => hr' n (hr n hn), servers', registered', rfl⟩

/-- A server for one of the same outline. -/
theorem map_outline_set {servers : List MetricServer} {n : ℕ} {x y : MetricServer} (hx : servers[n]? = some x)
    (h : y.outline = x.outline) : (servers.set n y).map outline = servers.map outline := by
  rw [List.map_set, h]
  refine List.ext_getElem? fun m => ?_
  rw [List.getElem?_set]
  split
  next heq =>
    obtain ⟨hn, hget⟩ := List.getElem?_eq_some_iff.mp hx
    subst heq
    simp [hn, hget]
  next => rfl

theorem quiet_set {s : Controller} {n : ℕ} {x y : MetricServer} (hx : s.servers[n]? = some x)
    (h : y.outline = x.outline) (hrun : x = .web true → y = .web true) (registered : List Text) :
    Quiet s { s with servers := s.servers.set n y, registered } := by
  refine ⟨map_outline_set hx h, fun m hm => ?_, _, _, rfl⟩
  dsimp only
  by_cases hmn : m = n
  · subst hmn
    rw [List.getElem?_set_self (List.getElem?_eq_some_iff.mp hx).1, hrun (Option.some.inj (hx.symm.trans hm))]
  · rw [List.getElem?_set_ne (Ne.symm hmn)]
    exact hm

/-- The server of a number, among servers of the same outlines. -/
theorem exists_getElem?_of_outline {s t : Controller} (h : t.servers.map outline = s.servers.map outline) {n : ℕ}
    {x : MetricServer} (hx : s.servers[n]? = some x) : ∃ y, t.servers[n]? = some y ∧ y.outline = x.outline := by
  have hmap := congrArg (·[n]?) h
  simp only [List.getElem?_map, hx, Option.map_some, Option.map_eq_some_iff] at hmap
  exact hmap

/-! ### A poll -/

section Polls

variable (config : ServiceConfiguration) (objectName : Text → Bool)

/-- The server of this number shows the metrics. -/
def ShowsAt (s : Controller) (n : ℕ) : Prop := ∃ x, s.servers[n]? = some x ∧ x.UpToDate s.metrics

/-- The server of this number throws when it is told of an update. -/
def StuckAt (generated : Bool) (s : Controller) (n : ℕ) : Prop :=
  ∃ x, s.servers[n]? = some x ∧ x.stuck config generated = true

/-- The registered servers are there, and JMX services are as they are made. -/
structure Known (s : Controller) : Prop where
  made : ∀ n ∈ s.metricServers, n < s.servers.length
  named : ∀ x ∈ s.servers, x.Named

theorem stuckAt_iff_outline (generated : Bool) (s : Controller) (n : ℕ) :
    StuckAt config generated s n ↔ ∃ x, (s.servers.map outline)[n]? = some x ∧ x.stuck config generated = true := by
  simp only [StuckAt, List.getElem?_map, Option.map_eq_some_iff]
  constructor
  · rintro ⟨x, hx, hstuck⟩
    exact ⟨_, ⟨x, hx, rfl⟩, (stuck_outline config generated x).trans hstuck⟩
  · rintro ⟨_, ⟨x, hx, rfl⟩, hstuck⟩
    exact ⟨x, hx, (stuck_outline config generated x).symm.trans hstuck⟩

theorem stuckAt_congr (generated : Bool) {s t : Controller} (h : t.servers.map outline = s.servers.map outline) (n : ℕ) :
    StuckAt config generated t n ↔ StuckAt config generated s n := by
  rw [stuckAt_iff_outline, stuckAt_iff_outline, h]

theorem known_congr {s t : Controller} (h : t.servers.map outline = s.servers.map outline)
    (hmetric : t.metricServers = s.metricServers) (hs : Known s) : Known t := by
  have hlength : t.servers.length = s.servers.length := by simpa using congrArg List.length h
  refine ⟨fun n hn => hlength ▸ hs.made n (hmetric ▸ hn), fun y hy => ?_⟩
  have hmem : y.outline ∈ s.servers.map outline := h ▸ List.mem_map_of_mem hy
  obtain ⟨x, hx, hxy⟩ := List.mem_map.mp hmem
  exact (named_congr hxy).mp (hs.named x hx)

/-- The server that is set shows the metrics, and so do the others that did. -/
theorem showsAt_set {s : Controller} {n : ℕ} {x y : MetricServer} (hx : s.servers[n]? = some x)
    (hy : y.UpToDate s.metrics) (registered : List Text) :
    ∀ m, m = n ∨ ShowsAt s m → ShowsAt { s with servers := s.servers.set n y, registered } m := by
  intro m hm
  obtain ⟨hn, -⟩ := List.getElem?_eq_some_iff.mp hx
  by_cases hmn : m = n
  · subst hmn
    exact ⟨y, List.getElem?_set_self hn, hy⟩
  · obtain ⟨z, hz, hshow⟩ := hm.resolve_left hmn
    exact ⟨z, (List.getElem?_set_ne (Ne.symm hmn)).trans hz, hshow⟩

variable (hname : objectName "plethora:name=plethora".toList = true)
include hname

/-- What an update of a JMX service does. -/
theorem updateNotify_jmx {s : Controller} (hs : Known s) {n : ℕ} {agent : JMXAgent} (hx : s.servers[n]? = some (.jmx agent))
    (poll : Poll) :
    ∃ registered, updateNotify config objectName poll n s =
      if config.isJmxMBeanForceUpdated && !agent.mbeanServer then
        .thrown .nullPointer { s with servers := s.servers.set n (.jmx agent) }
      else .returned true
        { s with
          servers := s.servers.set n (.jmx { agent with mbean := some (PlethoraMBean.buildMBeanInfo s.metrics) })
          registered } := by
  obtain ⟨hmodule, hbean⟩ := hs.named _ (List.mem_of_getElem? hx)
  have hmbean : JMXAgent.mbeanName agent = some "plethora:name=plethora".toList := by
    rw [JMXAgent.mbeanName, hmodule]
    rfl
  have hfilter : (JMXAgent.mbeanName agent).filter objectName = some "plethora:name=plethora".toList := by
    rw [hmbean, Option.filter_some, hname]
    rfl
  have hupdate := ServerJMXAgent.updateNotify_eq (p := ⟨agent, s.registered⟩) hfilter hbean
    config.isJmxMBeanForceUpdated s.metrics
  refine ⟨if config.isJmxMBeanForceUpdated then
    "plethora:name=plethora".toList :: s.registered.filter (· ≠ "plethora:name=plethora".toList) else s.registered, ?_⟩
  rw [updateNotify, Eff.bind_apply, Eff.get]
  dsimp only
  rw [hx]
  dsimp only [onAgent]
  rw [hupdate]
  cases config.isJmxMBeanForceUpdated && !agent.mbeanServer <;> rfl

omit hname in
/-- A JMX service whose attributes are built again. -/
theorem quiet_setJmx {s : Controller} (hs : Known s) {n : ℕ} {agent : JMXAgent} (hx : s.servers[n]? = some (.jmx agent))
    (attributes : List (Option MBeanAttributeInfo)) (registered : List Text) :
    Quiet s { s with servers := s.servers.set n (.jmx { agent with mbean := some attributes }), registered } := by
  obtain ⟨-, hbean⟩ := hs.named _ (List.mem_of_getElem? hx)
  obtain ⟨bean, hbean⟩ := Option.isSome_iff_exists.mp hbean
  exact quiet_set hx (by simp [outline, hbean]) (fun h => by cases h) registered

/-- **What telling one server comes to**: it throws if it is stuck, and shows
the metrics then if it is not. -/
theorem updateNotify_spec {s : Controller} (hs : Known s) {n : ℕ} (hn : n < s.servers.length) (poll : Poll) :
    (StuckAt config poll.generateMib.isOk s n →
      ∃ e t, updateNotify config objectName poll n s = .thrown e t ∧ Quiet s t) ∧
    (¬StuckAt config poll.generateMib.isOk s n → ∃ b t, updateNotify config objectName poll n s = .returned b t ∧
      Quiet s t ∧ ∀ m, m = n ∨ ShowsAt s m → ShowsAt t m) := by
  have hx : s.servers[n]? = some s.servers[n] := List.getElem?_eq_getElem hn
  have hstuck : StuckAt config poll.generateMib.isOk s n ↔ s.servers[n].stuck config poll.generateMib.isOk = true := by
    simp [StuckAt, hx]
  rw [hstuck]
  cases hserver : s.servers[n] with
  | web running =>
    have hreturn : updateNotify config objectName poll n s = .returned true s := by
      rw [updateNotify, Eff.bind_apply, Eff.get]
      dsimp only
      rw [hx, hserver]
      rfl
    refine ⟨fun h => absurd h Bool.false_ne_true, fun _ => ⟨_, _, hreturn, quiet_refl s, ?_⟩⟩
    rintro m (rfl | h)
    · exact ⟨.web running, hserver ▸ hx, trivial⟩
    · exact h
  | snmp mib =>
    have hnotify : updateNotify config objectName poll n s = generateMib n poll.generateMib s := by
      rw [updateNotify, Eff.bind_apply, Eff.get]
      dsimp only
      rw [hx, hserver]
    rw [hnotify]
    cases hmib : poll.generateMib with
    | error e => exact ⟨fun _ => ⟨e, s, rfl, quiet_refl s⟩, fun h => absurd rfl h⟩
    | ok done =>
      refine ⟨fun h => absurd h Bool.false_ne_true,
        fun _ => ⟨done, { s with servers := s.servers.set n (.snmp (some s.metrics)) }, rfl, ?_, ?_⟩⟩
      · exact quiet_set (x := .snmp mib) (y := .snmp (some s.metrics)) (hserver ▸ hx) rfl (fun h => by cases h) _
      · exact showsAt_set (y := .snmp (some s.metrics)) (hserver ▸ hx) rfl _
  | jmx agent =>
    obtain ⟨registered, hupdate⟩ := updateNotify_jmx config objectName hname hs (hserver ▸ hx) poll
    rw [hupdate]
    cases hcase : config.isJmxMBeanForceUpdated && !agent.mbeanServer with
    | true =>
      refine ⟨fun _ => ⟨_, _, rfl, quiet_set (hserver ▸ hx) rfl (fun h => h) _⟩, fun h => absurd hcase h⟩
    | false =>
      refine ⟨fun h => absurd (hcase.symm.trans h) Bool.false_ne_true, fun _ => ⟨_, _, rfl, ?_, ?_⟩⟩
      · exact quiet_setJmx hs (hserver ▸ hx) _ _
      · exact showsAt_set (y := .jmx { agent with mbean := some (PlethoraMBean.buildMBeanInfo s.metrics) })
          (hserver ▸ hx) rfl _

/-- What an update leaves, whatever it meets. -/
theorem ends_updateNotify (poll : Poll) (n : ℕ) {s : Controller} (hs : Known s) :
    Eff.Ends (updateNotify config objectName poll n) s (Quiet s) := by
  cases hx : s.servers[n]? with
  | none =>
    refine Eff.ends_get_bind ?_
    rw [hx]
    exact quiet_refl s
  | some x =>
    cases x with
    | web running =>
      refine Eff.ends_get_bind ?_
      rw [hx]
      exact quiet_refl s
    | snmp mib =>
      refine Eff.ends_get_bind ?_
      rw [hx]
      dsimp only [generateMib]
      cases poll.generateMib with
      | error e => exact quiet_refl s
      | ok done => exact quiet_set (x := .snmp mib) (y := .snmp (some s.metrics)) hx rfl (fun h => by cases h) _
    | jmx agent =>
      obtain ⟨registered, hupdate⟩ := updateNotify_jmx config objectName hname hs hx poll
      unfold Eff.Ends
      rw [hupdate]
      cases config.isJmxMBeanForceUpdated && !agent.mbeanServer with
      | true => exact quiet_set hx rfl (fun h => h) _
      | false => exact quiet_setJmx hs hx _ _

theorem ends_notifyServers (poll : Poll) :
    ∀ (l : List ℕ) {s : Controller}, Known s → Eff.Ends (notifyServers config objectName poll l) s (Quiet s)
  | [], s, _ => quiet_refl s
  | n :: l, s, hs => by
    refine Eff.ends_bind (ends_updateNotify config objectName hname poll n hs) (fun _ t ht => ?_) fun _ h => h
    exact Eff.ends_mono (ends_notifyServers poll l (known_congr ht.1 ht.metricServers hs)) fun _ hu => ht.trans hu

/-- **What telling the servers comes to**: it ends at the first one that is
stuck, and they all show the metrics if none is. -/
theorem notifyServers_spec (poll : Poll) : ∀ {s : Controller} (l : List ℕ), Known s → (∀ n ∈ l, n < s.servers.length) →
    ((∃ n ∈ l, StuckAt config poll.generateMib.isOk s n) →
      ∃ e t, notifyServers config objectName poll l s = .thrown e t ∧ Quiet s t) ∧
    ((∀ n ∈ l, ¬StuckAt config poll.generateMib.isOk s n) → ∃ t, notifyServers config objectName poll l s = .returned () t ∧
      Quiet s t ∧ ∀ m, m ∈ l ∨ ShowsAt s m → ShowsAt t m)
  | s, [], _, _ => by
    refine ⟨fun ⟨n, hn, _⟩ => absurd hn List.not_mem_nil, fun _ => ⟨s, rfl, quiet_refl s, ?_⟩⟩
    rintro m (hm | hm)
    · exact absurd hm List.not_mem_nil
    · exact hm
  | s, n :: l, hs, hl => by
    obtain ⟨hthrows, htells⟩ := updateNotify_spec config objectName hname hs (hl n List.mem_cons_self) poll
    have hl' := fun m hm => hl m (List.mem_cons_of_mem n hm)
    rw [notifyServers, Eff.bind_apply]
    by_cases hstuck : StuckAt config poll.generateMib.isOk s n
    · obtain ⟨e, t, ht, hquiet⟩ := hthrows hstuck
      rw [ht]
      exact ⟨fun _ => ⟨e, t, rfl, hquiet⟩, fun h => absurd hstuck (h n List.mem_cons_self)⟩
    · obtain ⟨b, t, ht, hquiet, hshows⟩ := htells hstuck
      have hlength : t.servers.length = s.servers.length := by simpa using congrArg List.length hquiet.1
      obtain ⟨hthrows', htells'⟩ :=
        notifyServers_spec poll l (known_congr hquiet.1 hquiet.metricServers hs) fun m hm => hlength ▸ hl' m hm
      simp only [stuckAt_congr config _ hquiet.1] at hthrows' htells'
      rw [ht]
      constructor
      · rintro ⟨m, hm, hmstuck⟩
        rcases List.mem_cons.mp hm with rfl | hm
        · exact absurd hmstuck hstuck
        obtain ⟨e, u, hu, hquiet'⟩ := hthrows' ⟨m, hm, hmstuck⟩
        exact ⟨e, u, hu, hquiet.trans hquiet'⟩
      · intro h
        obtain ⟨u, hu, hquiet', hshows'⟩ := htells' fun m hm => h m (List.mem_cons_of_mem n hm)
        refine ⟨u, hu, hquiet.trans hquiet', fun m hm => hshows' m ?_⟩
        rcases hm with hm | hm
        · rcases List.mem_cons.mp hm with rfl | hm
          · exact .inr (hshows m (.inl rfl))
          · exact .inl hm
        · exact .inr (hshows m (.inr hm))

/-- Every registered server shows the metrics, and the modules were poked. -/
def Told (s t : Controller) : Prop := (∀ n ∈ s.metricServers, ShowsAt t n) ∧ t.poked = s.poked + 1

/-- The poll ends with an exception, and pokes no module. -/
def Fails (s : Controller) (poll : Poll) : Prop :=
  ∃ e t, pollModules config objectName poll s = .thrown e t ∧ t.poked = s.poked

/-- A poll that connected a module tells every server if none is stuck, and
fails if one is. -/
theorem poll_spec {s : Controller} (hs : Known s) {poll : Poll} (hupdated : poll.checkModulesForUpdates = .ok true) :
    ((∀ n ∈ s.metricServers, ¬StuckAt config poll.generateMib.isOk s n) →
      Told s (after config objectName s (.pollModules poll))) ∧
    ((∃ n ∈ s.metricServers, StuckAt config poll.generateMib.isOk s n) →
      Fails config objectName s poll ∧ ¬Told s (after config objectName s (.pollModules poll))) := by
  have hspec := notifyServers_spec config objectName hname poll (s := { s with metrics := poll.metrics })
    s.metricServers ⟨hs.made, hs.named⟩ hs.made
  have hpoll : pollModules config objectName poll s =
      (notifyServers config objectName poll s.metricServers >>= fun _ =>
        Eff.modify fun s => { s with poked := s.poked + 1 }) { s with metrics := poll.metrics } := by
    rw [pollModules, hupdated]
    rfl
  rw [after, perform, Eff.left, Fails, hpoll, Eff.bind_apply]
  constructor
  · intro hnone
    obtain ⟨t, ht, ⟨-, -, servers, registered, rfl⟩, hshows⟩ := hspec.2 hnone
    rw [ht]
    exact ⟨fun n hn => hshows n (.inl hn), rfl⟩
  · intro hstuck
    obtain ⟨e, t, ht, -, -, servers, registered, rfl⟩ := hspec.1 hstuck
    rw [ht]
    refine ⟨⟨e, _, rfl, rfl⟩, fun htold => ?_⟩
    have hpoked : s.poked = s.poked + 1 := htold.2
    omega

end Polls

/-! ### What an event does to the servers -/

section Effects

variable (config : ServiceConfiguration) (objectName : Text → Bool)

/-- A registered server is stuck. -/
def Blocked (generated : Bool) (s : Controller) : Prop := ∃ n ∈ s.metricServers, StuckAt config generated s n

/-- The fields refer to servers of their kind. -/
structure Inv (s : Controller) : Prop extends Known s where
  web : ∀ n, s.webServer = some n → ∃ running, s.servers[n]? = some (.web running)

/-- A bad start: with updates forced, no registry or parameters that are not
valid. -/
def BadStart (platform : Startup) : Prop :=
  config.isJmxMBeanForceUpdated = true ∧
    ¬((newJMXAgent config {}).validateParams = true ∧ platform.createRegistry = true)

/-- The event registers a server that is stuck: a JMX service started badly, or
an SNMP service when no MIB is generated. -/
def Event.blocks (generated : Bool) : Event → Prop
  | .startJMXService platform => BadStart config platform
  | .startSNMPService constructed _ _ => constructed = true ∧ generated = false
  | _ => False

def Event.startsWeb : Event → Bool
  | .startWebService _ => true
  | _ => false

def Event.stopsWeb : Event → Bool
  | .stopWebService _ => true
  | _ => false

/-- What an event does: it keeps the invariant and the web servers that run, and
a server that is stuck comes with such an event only. The web server that is
there is registered once more where it should be stopped. -/
structure Effect (s : Controller) (e : Event) (t : Controller) : Prop where
  inv : Inv t
  blocked : ∀ generated, Blocked config generated t ↔ Blocked config generated s ∨ e.blocks config generated
  runs : WebRuns s.servers t.servers
  registers : ∀ n, s.webServer = some n → e.startsWeb = false →
    t.webServer = some n ∧ t.metricServers.count n = s.metricServers.count n + e.stopsWeb.toNat

theorem effect_of_outline {s t : Controller} {e : Event} (hs : Inv s) (h : t.servers.map outline = s.servers.map outline)
    (hruns : WebRuns s.servers t.servers) (hmetric : t.metricServers = s.metricServers) (hweb : t.webServer = s.webServer)
    (he : ∀ generated, ¬e.blocks config generated) (hstop : s.webServer = none ∨ e.stopsWeb = false) :
    Effect config s e t := by
  refine ⟨⟨known_congr h hmetric hs.toKnown, fun n hn => ?_⟩, fun generated => ?_, hruns, fun n hn _ => ⟨hweb.trans hn, ?_⟩⟩
  · obtain ⟨running, hr⟩ := hs.web n (hweb ▸ hn)
    obtain ⟨y, hy, ho⟩ := exists_getElem?_of_outline h hr
    cases y with
    | web running' => exact ⟨running', hy⟩
    | jmx agent => cases ho
    | snmp mib => cases ho
  · simp only [Blocked, hmetric, stuckAt_congr config generated h, he, or_false]
  · rcases hstop with hnone | hstop
    · rw [hnone] at hn
      cases hn
    · rw [hmetric, hstop, Bool.toNat_false, Nat.add_zero]

theorem effect_quiet {s t : Controller} {e : Event} (hs : Inv s) (h : Quiet s t)
    (he : ∀ generated, ¬e.blocks config generated)
    (hstop : s.webServer = none ∨ e.stopsWeb = false) : Effect config s e t := by
  obtain ⟨ho, hruns, servers, registered, rfl⟩ := h
  exact effect_of_outline config hs ho hruns rfl rfl he hstop

/-- The web server is registered once more. -/
theorem effect_registered {s t : Controller} {n : ℕ} (created : Bool) (hs : Inv s) (hquiet : Quiet s t)
    (hn : s.webServer = some n) :
    Effect config s (.stopWebService created) { t with metricServers := t.metricServers ++ [n] } := by
  obtain ⟨running, hx⟩ := hs.web n hn
  obtain ⟨ho, hruns, servers, registered, rfl⟩ := hquiet
  have hnot : ∀ generated, ¬StuckAt config generated s n := by
    rintro generated ⟨y, hy, hystuck⟩
    obtain rfl := Option.some.inj (hx.symm.trans hy)
    exact Bool.false_ne_true hystuck
  have hquiet : Effect config s (.startSNMPService false false (.ok true)) { s with servers, registered } :=
    effect_of_outline config hs ho hruns rfl rfl (fun _ h => absurd h.1 Bool.false_ne_true) (.inr rfl)
  refine ⟨⟨⟨fun m hm => ?_, hquiet.inv.named⟩, hquiet.inv.web⟩, fun generated => ?_, hruns, fun m hm _ => ⟨hm, ?_⟩⟩
  · rcases List.mem_append.mp hm with hm | hm
    · exact hquiet.inv.made m hm
    · obtain ⟨y, hy, -⟩ := exists_getElem?_of_outline (t := { s with servers, registered }) ho hx
      exact List.mem_singleton.mp hm ▸ (List.getElem?_eq_some_iff.mp hy).1
  · simp only [Blocked, List.mem_append, List.mem_singleton, Event.blocks, or_false]
    constructor
    · rintro ⟨m, hm, hmstuck⟩
      have hold : StuckAt config generated s m := (stuckAt_congr config generated ho m).mp hmstuck
      rcases hm with hm | rfl
      · exact ⟨m, hm, hold⟩
      · exact absurd hold (hnot generated)
    · rintro ⟨m, hm, hmstuck⟩
      exact ⟨m, .inl hm, (stuckAt_congr config generated ho m).mpr hmstuck⟩
  · obtain rfl : n = m := Option.some.inj (hn.symm.trans hm)
    rw [List.count_append, List.count_singleton_self]
    rfl

/-- A server joins that is of this outline, and is registered. -/
theorem effect_added {s t : Controller} {e : Event} {y : MetricServer} (hs : Inv s)
    (hservers : t.servers.map outline = s.servers.map outline ++ [y.outline])
    (hmetric : t.metricServers = s.metricServers ++ [s.servers.length]) (hy : y.Named)
    (hweb : t.webServer = s.webServer ∨ t.webServer = some s.servers.length ∧ y.outline = .web false ∧ e.startsWeb = true)
    (he : ∀ generated, e.blocks config generated ↔ y.stuck config generated = true)
    (hruns : WebRuns s.servers t.servers) (hstop : e.stopsWeb = false) : Effect config s e t := by
  have hlength : t.servers.length = s.servers.length + 1 := by simpa using congrArg List.length hservers
  have hget : ∀ n, t.servers[n]?.map outline = (s.servers.map outline ++ [y.outline])[n]? := fun n => by
    rw [← hservers, List.getElem?_map]
  refine ⟨⟨⟨fun n hn => ?_, fun x hx => ?_⟩, fun n hn => ?_⟩, fun generated => ?_, hruns, fun n hn hnew => ?_⟩
  · rw [hmetric, List.mem_append, List.mem_singleton] at hn
    rcases hn with hn | rfl
    · exact hlength ▸ Nat.lt_succ_of_lt (hs.made n hn)
    · exact hlength ▸ Nat.lt_succ_self _
  · have hmem : x.outline ∈ s.servers.map outline ++ [y.outline] := hservers ▸ List.mem_map_of_mem hx
    rcases List.mem_append.mp hmem with hmem | hmem
    · obtain ⟨x', hx', ho⟩ := List.mem_map.mp hmem
      exact (named_congr ho).mp (hs.named x' hx')
    · exact (named_congr (List.mem_singleton.mp hmem)).mpr hy
  · have hold : ∀ (n : ℕ) (running : Bool), s.servers[n]? = some (.web running) →
        ∃ running, t.servers[n]? = some (.web running) := by
      intro n running hr
      obtain ⟨hlt, -⟩ := List.getElem?_eq_some_iff.mp hr
      have hn := hget n
      rw [List.getElem?_append_left (by simpa using hlt), List.getElem?_map, hr, Option.map_some,
        Option.map_eq_some_iff] at hn
      obtain ⟨z, hz, ho⟩ := hn
      cases z with
      | web running' => exact ⟨running', hz⟩
      | jmx agent => cases ho
      | snmp mib => cases ho
    rcases hweb with hweb | ⟨hweb, hkind, -⟩
    · obtain ⟨running, hr⟩ := hs.web n (hweb ▸ hn)
      exact hold n running hr
    · obtain rfl : s.servers.length = n := Option.some.inj (hweb.symm.trans hn)
      have hlast := hget s.servers.length
      rw [List.getElem?_append_right (by simp), List.length_map, Nat.sub_self, List.getElem?_cons_zero, hkind,
        Option.map_eq_some_iff] at hlast
      obtain ⟨z, hz, ho⟩ := hlast
      cases z with
      | web running' => exact ⟨running', hz⟩
      | jmx agent => cases ho
      | snmp mib => cases ho
  · have hold : ∀ n < s.servers.length, (StuckAt config generated t n ↔ StuckAt config generated s n) := fun n hn => by
      rw [stuckAt_iff_outline, stuckAt_iff_outline, hservers, List.getElem?_append_left (by simpa using hn)]
    have hnew : StuckAt config generated t s.servers.length ↔ y.stuck config generated = true := by
      rw [stuckAt_iff_outline, hservers, List.getElem?_append_right (by simp)]
      simp [stuck_outline]
    simp only [Blocked, hmetric, List.mem_append, List.mem_singleton, he, ← hnew]
    constructor
    · rintro ⟨n, hn | rfl, hstuck⟩
      · exact .inl ⟨n, hn, (hold n (hs.made n hn)).mp hstuck⟩
      · exact .inr hstuck
    · rintro (⟨n, hn, hstuck⟩ | hstuck)
      · exact ⟨n, .inl hn, (hold n (hs.made n hn)).mpr hstuck⟩
      · exact ⟨_, .inr rfl, hstuck⟩
  · obtain ⟨running, hr⟩ := hs.web n hn
    have hlt := (List.getElem?_eq_some_iff.mp hr).1
    refine ⟨?_, ?_⟩
    · rcases hweb with hweb | ⟨-, -, hstarts⟩
      · exact hweb.trans hn
      · exact absurd (hnew.symm.trans hstarts) Bool.false_ne_true
    · rw [hmetric, hstop, List.count_append, List.count_singleton, beq_eq_false_iff_ne.mpr (Nat.ne_of_gt hlt)]
      rfl

/-- What a call of a JMX agent leaves. -/
theorem left_onAgent {α : Type} {s : Controller} {n : ℕ} {agent : JMXAgent} (hn : s.servers[n]? = some (.jmx agent))
    (call : JMXAgent.AgentCall α) :
    (onAgent n agent call).left s =
      { s with
        servers := s.servers.set n (.jmx (call.left ⟨agent, s.registered⟩).agent)
        registered := (call.left ⟨agent, s.registered⟩).registered } := by
  unfold Eff.left onAgent
  cases call ⟨agent, s.registered⟩ with
  | returned a p => rfl
  | thrown e p => rfl
  | unfinished =>
    obtain ⟨hlt, hget⟩ := List.getElem?_eq_some_iff.mp hn
    dsimp only
    rw [← hget, List.set_getElem_self]

/-- What starting a web server leaves. -/
theorem quiet_startWebServer {s : Controller} {n : ℕ} {running : Bool} (hn : s.servers[n]? = some (.web running))
    (created : Bool) : Quiet s ((startWebServer n created).left s) := by
  cases created with
  | false => exact quiet_refl s
  | true => exact quiet_set (x := .web running) (y := .web true) hn rfl (fun _ => rfl) _

theorem quiet_startSnmpAgent {s : Controller} {n : ℕ} {mib : Option Metrics} (hn : s.servers[n]? = some (.snmp mib))
    (listens : Bool) (outcome : Except JavaError Bool) : Quiet s ((startSnmpAgent n listens outcome).left s) := by
  cases listens with
  | false => exact quiet_refl s
  | true =>
    cases outcome with
    | error e => exact quiet_refl s
    | ok done => exact quiet_set (x := .snmp mib) (y := .snmp (some s.metrics)) hn rfl (fun h => by cases h) _

/-- A server of this outline is made, started and registered. -/
theorem effect_started {s s' t : Controller} {e : Event} {y : MetricServer} (hs : Inv s) (hquiet : Quiet s' t)
    (hservers : s'.servers = s.servers ++ [y]) (hmetric : s'.metricServers = s.metricServers)
    (hweb : s'.webServer = s.webServer ∨ s'.webServer = some s.servers.length ∧ y.outline = .web false ∧ e.startsWeb = true)
    (hy : y.Named) (he : ∀ generated, e.blocks config generated ↔ y.stuck config generated = true)
    (hstop : e.stopsWeb = false) :
    Effect config s e { t with metricServers := t.metricServers ++ [s.servers.length] } := by
  obtain ⟨ho, hruns, servers, registered, rfl⟩ := hquiet
  refine effect_added config hs (y := y) ?_ (by rw [hmetric]) hy hweb he ?_ hstop
  · rw [ho, hservers, List.map_append]
    rfl
  · intro n hn
    refine hruns n ?_
    rw [hservers, List.getElem?_append_left (List.getElem?_eq_some_iff.mp hn).1]
    exact hn

/-- The JMX service that has been started is there, and registered. -/
theorem after_startJMXService (s : Controller) (platform : Startup) :
    ∃ connectorServer ready,
      (after config objectName s (.startJMXService platform)).servers = s.servers ++ [.jmx { newJMXAgent config s.metrics with
        mbeanServer := (newJMXAgent config {}).validateParams && platform.createRegistry, connectorServer, ready }] ∧
      (after config objectName s (.startJMXService platform)).metricServers = s.metricServers ++ [s.servers.length] ∧
      (after config objectName s (.startJMXService platform)).webServer = s.webServer := by
  obtain ⟨c, r, hagent⟩ := ServerJMXAgent.started_agent objectName platform ⟨newJMXAgent config s.metrics, s.registered⟩
  rw [JMXAgent.started] at hagent
  have hstart : after config objectName s (.startJMXService platform) =
      (startServer s.servers.length (onAgent s.servers.length (newJMXAgent config s.metrics)
        (JMXAgent.start objectName (ServerJMXAgent.createAgent platform)))).left
        { s with servers := s.servers ++ [.jmx (newJMXAgent config s.metrics)], jmxAgent := some s.servers.length } := rfl
  rw [hstart, Eff.left, startServer]
  dsimp only
  rw [left_onAgent (by simp), hagent, List.set_append_right _ _ (Nat.le_refl _), Nat.sub_self, List.set_cons_zero]
  exact ⟨c, r, rfl, rfl, rfl⟩

theorem quiet_stopJMXService (s : Controller) (closing : Except JavaError Unit) :
    Quiet s ((stopJMXService objectName closing).left s) := by
  cases hjmx : s.jmxAgent.bind (fun n => s.servers[n]?.map (n, ·)) with
  | none =>
    have hstop : (stopJMXService objectName closing).left s = s := by
      rw [Eff.left, stopJMXService, Eff.bind_apply, Eff.get]
      dsimp only
      rw [hjmx]
      rfl
    rw [hstop]
    exact quiet_refl s
  | some found =>
    obtain ⟨n, server⟩ := found
    obtain ⟨m, -, hm⟩ := Option.bind_eq_some_iff.mp hjmx
    obtain ⟨server', hn, hpair⟩ := Option.map_eq_some_iff.mp hm
    obtain ⟨rfl, rfl⟩ := Prod.mk.inj hpair
    cases server' with
    | jmx agent =>
      have hstop : (stopJMXService objectName closing).left s =
          (onAgent m agent (ServerJMXAgent.stop objectName closing)).left s := by
        rw [Eff.left, stopJMXService, Eff.bind_apply, Eff.get]
        dsimp only
        rw [hjmx]
        rfl
      have hagent : ((ServerJMXAgent.stop objectName closing).left ⟨agent, s.registered⟩).agent = agent :=
        (ServerJMXAgent.ends_stop closing ⟨agent, s.registered⟩).left
      rw [hstop, left_onAgent hn, hagent]
      exact quiet_set hn rfl (fun h => h) _
    | _ =>
      have hstop : (stopJMXService objectName closing).left s = s := by
        rw [Eff.left, stopJMXService, Eff.bind_apply, Eff.get]
        dsimp only
        rw [hjmx]
        rfl
      rw [hstop]
      exact quiet_refl s

/-- **What every event does.** -/
theorem effect_after {s : Controller} (hs : Inv s) (hname : objectName "plethora:name=plethora".toList = true) (e : Event) :
    Effect config s e (after config objectName s e) := by
  cases e with
  | startWebService created =>
    rw [after, perform, startWebService]
    split
    · exact effect_quiet config hs (quiet_refl s) (fun _ h => h) (.inr rfl)
    · have hnew : (s.servers ++ [.web false])[s.servers.length]? = some (.web false) := by simp
      have hquiet := quiet_startWebServer
        (s := { s with servers := s.servers ++ [.web false], webServer := some s.servers.length }) hnew created
      exact effect_started config hs hquiet rfl rfl (.inr ⟨rfl, rfl, rfl⟩) trivial
        (fun _ => iff_of_false (fun h => h) Bool.false_ne_true) rfl
  | startSNMPService constructed listens outcome =>
    cases constructed with
    | false => exact effect_quiet config hs (quiet_refl s) (fun _ h => absurd h.1 Bool.false_ne_true) (.inr rfl)
    | true =>
      have hnew : (s.servers ++ [.snmp none])[s.servers.length]? = some (.snmp none) := by simp
      have hquiet := quiet_startSnmpAgent
        (s := { s with servers := s.servers ++ [.snmp none], snmpAgent := some s.servers.length }) hnew listens outcome
      exact effect_started config hs hquiet rfl rfl (.inl rfl) trivial
        (fun generated => by simp [Event.blocks, stuck]) rfl
  | stopWebService created =>
    cases hw : s.webServer with
    | none =>
      have hthrow : (stopWebService created).left s = s := by
        rw [Eff.left, stopWebService, Eff.bind_apply, Eff.get]
        dsimp only
        rw [hw]
        rfl
      rw [after, perform, hthrow]
      exact effect_quiet config hs (quiet_refl s) (fun _ h => h) (.inl hw)
    | some n =>
      obtain ⟨running, hr⟩ := hs.web n hw
      have hstart : (stopWebService created).left s =
          { (startWebServer n created).left s with
            metricServers := ((startWebServer n created).left s).metricServers ++ [n] } := by
        rw [Eff.left, stopWebService, Eff.bind_apply, Eff.get]
        dsimp only
        rw [hw]
        rfl
      rw [after, perform, hstart]
      exact effect_registered config created hs (quiet_startWebServer hr created) hw
  | startJMXService platform =>
    obtain ⟨c, r, hservers, hmetric, hweb⟩ := after_startJMXService config objectName s platform
    refine effect_added config hs (y := .jmx { newJMXAgent config s.metrics with
      mbeanServer := (newJMXAgent config {}).validateParams && platform.createRegistry }) ?_ hmetric ⟨rfl, rfl⟩ (.inl hweb)
      (fun generated => ?_) (fun n hn => ?_) rfl
    · rw [hservers, List.map_append]
      rfl
    · cases hforce : config.isJmxMBeanForceUpdated <;> cases hvalid : (newJMXAgent config {}).validateParams <;>
        cases hregistry : platform.createRegistry <;> simp [Event.blocks, BadStart, stuck, hforce, hvalid, hregistry]
    · rw [hservers, List.getElem?_append_left (List.getElem?_eq_some_iff.mp hn).1]
      exact hn
  | stopJMXService closing =>
    exact effect_quiet config hs (quiet_stopJMXService objectName s closing) (fun _ h => h) (.inr rfl)
  | pollModules poll =>
    have hpoll : Eff.Ends (pollModules config objectName poll) s fun t =>
        t.servers.map outline = s.servers.map outline ∧ WebRuns s.servers t.servers ∧ t.metricServers = s.metricServers ∧
          t.webServer = s.webServer := by
      refine Eff.ends_modify_bind (Eff.ends_get_bind ?_)
      refine Eff.ends_bind (P := (· = { s with metrics := poll.metrics })) (Eff.ends_lift _ rfl) ?_ ?_
      · rintro updated t rfl
        refine Eff.ends_bind (ends_notifyServers config objectName hname poll _ ⟨hs.made, hs.named⟩) ?_ ?_
        · rintro _ t ⟨houtline, hruns, servers, registered, rfl⟩
          exact ⟨houtline, hruns, rfl, rfl⟩
        · rintro t ⟨houtline, hruns, servers, registered, rfl⟩
          exact ⟨houtline, hruns, rfl, rfl⟩
      · rintro t rfl
        exact ⟨rfl, fun _ h => h, rfl, rfl⟩
    obtain ⟨houtline, hruns, hmetric, hweb⟩ := hpoll.left
    exact effect_of_outline config hs houtline hruns hmetric hweb (fun _ h => h) (.inr rfl)

end Effects

/-! ### Runs of the controller -/

section Runs

variable (config : ServiceConfiguration) (objectName : Text → Bool)
  (hname : objectName "plethora:name=plethora".toList = true)
include hname

omit hname in
theorem step_after (s : Controller) (e : Event) : Step config objectName s e (after config objectName s e) := rfl

omit hname in
theorem inv_init : Inv {} := by
  refine ⟨⟨fun _ h => absurd h List.not_mem_nil, fun _ h => absurd h List.not_mem_nil⟩, fun _ h => ?_⟩
  cases h

/-- A server is stuck after a run exactly if one was registered in it, or was
stuck before. -/
theorem blocked_iff {s t : Controller} {steps : List (Controller × Event)} (hrun : Run (Step config objectName) s steps t)
    (generated : Bool) : Inv s → Inv t ∧
      (Blocked config generated t ↔ Blocked config generated s ∨ ∃ p ∈ steps, p.2.blocks config generated) := by
  induction hrun with
  | nil s => exact fun hs => ⟨hs, by simp⟩
  | @cons s t u e steps step rest ih =>
    intro hs
    obtain ⟨hinv, hblocked, -, -⟩ := effect_after config objectName hs hname e
    rw [Step] at step
    rw [step] at hinv hblocked
    obtain ⟨hinv', hblocked'⟩ := ih hinv
    refine ⟨hinv', ?_⟩
    rw [hblocked', hblocked generated, or_assoc]
    simp only [List.mem_cons, exists_eq_or_imp]

/-- A configuration where updates are forced. -/
def forcedUpdates : ServiceConfiguration := ⟨some "localhost".toList, 9100, true, some "localhost".toList, 9101⟩

/-- A platform where the registry cannot be created. -/
def noRegistry : Startup := ⟨false, true, .ok true, .ok true⟩

/-- A poll that connects a module. -/
def connectingPoll : Poll := ⟨.ok true, {}, .ok true⟩

/-- The state after these events. -/
def started (events : List Event) : Controller := events.foldl (after forcedUpdates fun _ => true) {}

/-- What a run does to a web server that runs, and, as long as it is the web
service, to its registrations. -/
theorem webService_of_run {s t : Controller} {steps : List (Controller × Event)}
    (hrun : Run (Step config objectName) s steps t) {n : ℕ} :
    Inv s → s.servers[n]? = some (.web true) → t.servers[n]? = some (.web true) ∧
      (s.webServer = some n → (∀ p ∈ steps, p.2.startsWeb = false) →
        t.metricServers.count n = s.metricServers.count n + steps.countP fun p => p.2.stopsWeb) := by
  induction hrun with
  | nil s => exact fun _ hr => ⟨hr, fun _ _ => rfl⟩
  | @cons s t u e steps step rest ih =>
    intro hs hr
    obtain ⟨hinv, -, hruns, hregisters⟩ := effect_after config objectName hs hname e
    rw [Step] at step
    rw [step] at hinv hruns hregisters
    obtain ⟨hlast, hcounts⟩ := ih hinv (hruns n hr)
    refine ⟨hlast, fun hweb hnew => ?_⟩
    obtain ⟨hweb', hcount⟩ := hregisters n hweb (hnew (s, e) List.mem_cons_self)
    rw [hcounts hweb' fun p hp => hnew p (List.mem_cons_of_mem _ hp), hcount, List.countP_cons]
    cases e.stopsWeb <;> simp [Nat.add_assoc, Nat.add_comm 1]

/-- **Nothing stops a web server.** In every run, one that runs does so in every
later state. Until a new web service is started, it is registered once more for
each call that should stop it. -/
theorem web_never_stops {before rest : List (Controller × Event)} {s last : Controller} {n : ℕ}
    (hbefore : Run (Step config objectName) {} before s) (hrest : Run (Step config objectName) s rest last)
    (hruns : s.servers[n]? = some (.web true)) :
    last.servers[n]? = some (.web true) ∧
      (s.webServer = some n → (∀ p ∈ rest, p.2.startsWeb = false) →
        last.metricServers.count n = s.metricServers.count n + rest.countP fun p => p.2.stopsWeb) := by
  have hinv := (blocked_iff config objectName hname hbefore true inv_init).1
  exact webService_of_run config objectName hname hrest hinv hruns

omit hname in
/-- Two calls that should stop it leave it running, and registered three times;
so does a new web service. -/
theorem web_never_stops_twice :
    (started [.startWebService true, .stopWebService true, .stopWebService true]).servers[0]? = some (.web true) ∧
      (started [.startWebService true, .stopWebService true, .stopWebService true]).metricServers.count 0 = 3 ∧
      (started [.startWebService true, .stopWebService true, .startWebService true]).servers[0]? = some (.web true) := by
  have hbefore := Run.of_next (step_after forcedUpdates fun _ => true) {} [.startWebService true]
  have hstops := Run.of_next (step_after forcedUpdates fun _ => true) (started [.startWebService true])
    [.stopWebService true, .stopWebService true]
  have hstarts := Run.of_next (step_after forcedUpdates fun _ => true) (started [.startWebService true])
    [.stopWebService true, .startWebService true]
  obtain ⟨hrunning, hcount⟩ := web_never_stops forcedUpdates (fun _ => true) rfl (n := 0) hbefore hstops rfl
  obtain ⟨hstill, -⟩ := web_never_stops forcedUpdates (fun _ => true) rfl (n := 0) hbefore hstarts rfl
  exact ⟨hrunning, hcount rfl (by decide), hstill⟩

end Runs

end Controller

end Plethora
