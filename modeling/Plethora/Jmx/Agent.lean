/-
# JMX agents

`JMXAgent` and `ServerJMXAgent`: an agent opens a connector to the MBean server
of the platform and registers its MBean there, under the name of its module. A
field that has not been set yet is null. What the platform answers to a start is
given (`Startup`), and so are the texts that `ObjectName` takes for names.

`stop` takes the MBean out of the server and leaves the agent as it was, so a
forced update registers it again, whether the agent was stopped or has never got
as far as registering it. One that has no MBean server yet throws then
(`updateNotify_eq`), and no later call changes that.

Key definitions: `JMXAgent`, `JMXAgent.start`, `ServerJMXAgent.stop`,
`ServerJMXAgent.updateNotify`.
Key theorems: `registered_of_started`, `updateNotify_eq`, `started_agent`.
-/
import Plethora.Jmx.MBean
import Plethora.Server.Ports

namespace Plethora

namespace Util

def validNonEmpty : Option Text → Bool
  | some string => 0 < string.length
  | none => false

def invalidEmpty (name : Option Text) : Bool := !validNonEmpty name

def invalidPort (port : Int32) : Bool := !validPort port

end Util

/-- `JMXResolver.moduleJMXName`. -/
def JMXResolver.moduleJMXName (module : Option Text) : Option Text :=
  if Util.invalidEmpty module then none else module.map ("plethora:name=".toList ++ ·)

structure JMXAgent where
  moduleName : Option Text
  /-- The attributes of the MBean as they were last built, or null without one. -/
  mbean : Option (List (Option MBeanAttributeInfo))
  host : Option Text
  port : Int32
  /-- Whether `mbeanServer` has been set. -/
  mbeanServer : Bool := false
  /-- Whether `connectorServer` has been set. -/
  connectorServer : Bool := false
  ready : Bool := false

namespace JMXAgent

/-- What the platform answers to the calls of a start: false where the code
catches the exception. -/
structure Startup where
  createRegistry : Bool
  /-- Whether the service URL is well formed. -/
  getURL : Bool
  newJMXConnectorServer : Except JavaError Bool
  startConnectorServer : Except JavaError Bool

/-- An agent on its platform, with the names in the MBean server. -/
structure OnPlatform where
  agent : JMXAgent
  registered : List Text

abbrev AgentCall := Eff JavaError OnPlatform

def mbeanName (a : JMXAgent) : Option Text := JMXResolver.moduleJMXName a.moduleName

def validateParams (a : JMXAgent) : Bool :=
  !(Util.invalidEmpty a.mbeanName || Util.invalidEmpty a.host || Util.invalidPort a.port || a.mbean.isNone)

def setAgent (f : JMXAgent → JMXAgent) : AgentCall Unit := Eff.modify fun s => { s with agent := f s.agent }

def createAgent (platform : Startup) : AgentCall Bool := do
  setAgent fun a => { a with mbeanServer := true }
  if !platform.getURL then
    return false
  if !(← Eff.lift platform.newJMXConnectorServer) then
    return false
  setAgent fun a => { a with connectorServer := true }
  Eff.lift platform.startConnectorServer

def isReady : AgentCall Bool := do return (← Eff.get).agent.ready

section Names

-- the texts that `new ObjectName` takes
variable (objectName : Text → Bool)

def registerMbean : AgentCall Bool := do
  let s ← Eff.get
  match s.agent.mbeanName.filter objectName with
  | none => return false
  | some oname =>
    if !s.agent.mbeanServer then
      Eff.lift (.error .nullPointer)
    else if oname ∈ s.registered then
      return false
    else do
      Eff.modify fun s => { s with registered := oname :: s.registered }
      return true

/-- `start`, with the `createAgent` of the class. -/
def start (createAgent : AgentCall Bool) : AgentCall Bool := do
  let s ← Eff.get
  let created ← bif s.agent.validateParams then createAgent else pure false
  if created then do
    let ready ← registerMbean objectName
    setAgent fun a => { a with ready }
    isReady
  else
    isReady

/-- What a start leaves, also where it throws. -/
def started (createAgent : AgentCall Bool) (s : OnPlatform) : OnPlatform := (start objectName createAgent).left s

end Names

/-- `refreshMbeanInfo`, with the registry the MBean publishes. -/
def refreshMbeanInfo (metrics : Metrics) : AgentCall Bool := do
  if (← Eff.get).agent.mbean.isNone then
    return false
  setAgent fun a => { a with mbean := some (PlethoraMBean.buildMBeanInfo metrics) }
  return true

end JMXAgent

namespace ServerJMXAgent

open JMXAgent

def createAgent (platform : Startup) : AgentCall Bool :=
  if platform.createRegistry then JMXAgent.createAgent platform else pure false

variable (objectName : Text → Bool)

def unRegisterMbean : AgentCall Bool := do
  let s ← Eff.get
  match s.agent.mbeanName.filter objectName with
  | none => return false
  | some oname =>
    if !s.agent.mbeanServer then
      Eff.lift (.error .nullPointer)
    else do
      Eff.modify fun s => { s with registered := s.registered.filter (· ≠ oname) }
      return true

def reRegisterMbean : AgentCall Bool := do
  if !(← unRegisterMbean objectName) then
    return false
  registerMbean objectName

/-- `stop`. An `IOException` of the connector is caught. -/
def stop (stopConnectorServer : Except JavaError Unit) : AgentCall Unit := do
  let _ ← unRegisterMbean objectName
  if (← Eff.get).agent.connectorServer then
    Eff.lift stopConnectorServer
  else
    Eff.lift (.error .nullPointer)

def updateNotify (forceMBeanInfoUpdate : Bool) (metrics : Metrics) : AgentCall Bool := do
  if forceMBeanInfoUpdate then
    if ← reRegisterMbean objectName then
      refreshMbeanInfo metrics
    else
      return false
  else
    refreshMbeanInfo metrics

end ServerJMXAgent

/-! ### What the calls leave -/

namespace JMXAgent

/-- The MBean server and the connector may have been set; nothing else changed. -/
def Opened (s s' : OnPlatform) : Prop :=
  s'.registered = s.registered ∧
    ∃ mbeanServer connectorServer, s'.agent = { s.agent with mbeanServer, connectorServer }

theorem ensures_createAgent (platform : Startup) (s : OnPlatform) :
    Eff.Ensures (createAgent platform) s (fun _ s' => Opened s s') (Opened s) := by
  have hserver : Opened s { s with agent := { s.agent with mbeanServer := true } } :=
    ⟨rfl, true, s.agent.connectorServer, rfl⟩
  refine Eff.ensures_modify_bind ?_
  cases platform.getURL with
  | false => exact hserver
  | true =>
    refine Eff.ensures_bind (Eff.ensures_lift (Q := fun _ s' => s' = { s with agent := { s.agent with mbeanServer := true } })
      (fun _ _ => rfl) fun _ _ => hserver) ?_
    rintro created s' rfl
    cases created with
    | false => exact hserver
    | true =>
      exact Eff.ensures_modify_bind (Eff.ensures_lift (fun _ _ => ⟨rfl, true, true, rfl⟩) fun _ _ => ⟨rfl, true, true, rfl⟩)

variable (objectName : Text → Bool)

/-- The MBean is in the server under its name, or the call has changed nothing. -/
theorem ensures_registerMbean (s : OnPlatform) :
    Eff.Ensures (registerMbean objectName) s
      (fun done s' => s'.agent = s.agent ∧ (done = false → s' = s) ∧
        (done = true → ∃ oname ∈ s.agent.mbeanName.filter objectName, oname ∉ s.registered ∧
          s'.registered = oname :: s.registered))
      (· = s) := by
  refine Eff.ensures_get_bind ?_
  cases hname : s.agent.mbeanName.filter objectName with
  | none => exact ⟨rfl, fun _ => rfl, fun h => by cases h⟩
  | some oname =>
    dsimp only
    split
    · exact rfl
    split
    next => exact ⟨rfl, fun _ => rfl, fun h => by cases h⟩
    next hnew => exact ⟨rfl, (by simp), fun _ => ⟨oname, rfl, hnew, rfl⟩⟩

/-- **What a start leaves.** An agent that was not ready becomes ready exactly
if the start returns true, and its MBean is then in the server. -/
theorem ensures_start {create : AgentCall Bool} {s : OnPlatform} (hready : s.agent.ready = false)
    (hcreate : Eff.Ensures create s (fun _ s' => Opened s s') (Opened s)) :
    Eff.Ensures (start objectName create) s
      (fun done s' => s'.agent.ready = done ∧
        (done = true → s.agent.validateParams = true ∧ ∃ oname ∈ s.agent.mbeanName.filter objectName, oname ∈ s'.registered))
      (fun s' => s'.agent.ready = false) := by
  refine Eff.ensures_get_bind ?_
  have hready' : ∀ s', Opened s s' → s'.agent.ready = false := by
    rintro s' ⟨-, m, c, hagent⟩
    rw [hagent]
    exact hready
  refine Eff.ensures_bind (Q := fun created s' => s'.agent.ready = false ∧
    (created = true → s.agent.validateParams = true ∧ Opened s s')) ?_ ?_
  · cases hvalid : s.agent.validateParams with
    | false => exact ⟨hready, fun h => by cases h⟩
    | true =>
      exact Eff.ensures_mono hcreate (fun _ s' h => ⟨hready' s' h, fun _ => ⟨rfl, h⟩⟩) hready'
  rintro created s' ⟨hnot, hopened⟩
  cases created with
  | false => exact ⟨rfl, fun h => by rw [hnot] at h; cases h⟩
  | true =>
    obtain ⟨hvalid, -, m, c, hagent⟩ := hopened rfl
    have hname : s'.agent.mbeanName = s.agent.mbeanName := by rw [hagent]; rfl
    refine Eff.ensures_bind (Eff.ensures_mono (ensures_registerMbean objectName s') (fun _ _ h => h) ?_) ?_
    · rintro s'' rfl
      exact hnot
    rintro ready s'' ⟨-, -, hdone⟩
    refine Eff.ensures_modify_bind (Eff.ensures_get_bind ⟨rfl, fun hr => ⟨hvalid, ?_⟩⟩)
    obtain ⟨oname, hm, -, hreg⟩ := hdone hr
    exact ⟨oname, hname ▸ hm, hreg ▸ List.mem_cons_self⟩

/-- An agent that a start has made ready has its MBean in the server. -/
theorem registered_of_started {create : AgentCall Bool} {s : OnPlatform} (hready : s.agent.ready = false)
    (hcreate : Eff.Ensures create s (fun _ s' => Opened s s') (Opened s))
    (h : (started objectName create s).agent.ready = true) :
    s.agent.validateParams = true ∧
      ∃ oname ∈ s.agent.mbeanName.filter objectName, oname ∈ (started objectName create s).registered := by
  have hstart := ensures_start objectName hready hcreate
  unfold started Eff.left at h ⊢
  unfold Eff.Ensures at hstart
  cases hr : start objectName create s with
  | returned done s' =>
    rw [hr] at hstart h
    exact hstart.2 (hstart.1 ▸ h)
  | thrown e s' =>
    rw [hr] at hstart h
    exact absurd (hstart.symm.trans h) Bool.false_ne_true
  | unfinished =>
    rw [hr] at h
    exact absurd (hready.symm.trans h) Bool.false_ne_true

end JMXAgent

namespace ServerJMXAgent

open JMXAgent

variable {objectName : Text → Bool} {p : OnPlatform} {oname : Text}

theorem unRegisterMbean_eq (hname : p.agent.mbeanName.filter objectName = some oname) :
    unRegisterMbean objectName p =
      if p.agent.mbeanServer then .returned true { p with registered := p.registered.filter (· ≠ oname) }
      else .thrown .nullPointer p := by
  rw [unRegisterMbean, Eff.bind_apply, Eff.get]
  dsimp only
  rw [hname]
  cases p.agent.mbeanServer <;> rfl

theorem registerMbean_eq (hname : p.agent.mbeanName.filter objectName = some oname) (hserver : p.agent.mbeanServer = true)
    (hnew : oname ∉ p.registered) :
    registerMbean objectName p = .returned true { p with registered := oname :: p.registered } := by
  rw [registerMbean, Eff.bind_apply, Eff.get]
  dsimp only
  rw [hname, hserver]
  dsimp only
  rw [if_neg (by simp), if_neg hnew]
  rfl

theorem refreshMbeanInfo_eq (hbean : p.agent.mbean.isSome = true) (metrics : Metrics) :
    refreshMbeanInfo metrics p =
      .returned true { p with agent := { p.agent with mbean := some (PlethoraMBean.buildMBeanInfo metrics) } } := by
  rw [refreshMbeanInfo, Eff.bind_apply, Eff.get]
  dsimp only
  rw [if_neg (by simpa [Option.isSome_iff_ne_none] using hbean)]
  rfl

/-- **What an update does** to an agent whose name is one: a forced one is the
null pointer exception where there is no MBean server yet, and registers the
MBean in any other case. -/
theorem updateNotify_eq (hname : p.agent.mbeanName.filter objectName = some oname) (hbean : p.agent.mbean.isSome = true)
    (force : Bool) (metrics : Metrics) :
    updateNotify objectName force metrics p =
      if force && !p.agent.mbeanServer then .thrown .nullPointer p
      else .returned true
        { agent := { p.agent with mbean := some (PlethoraMBean.buildMBeanInfo metrics) }
          registered := if force then oname :: p.registered.filter (· ≠ oname) else p.registered } := by
  cases force with
  | false => exact refreshMbeanInfo_eq hbean metrics
  | true =>
    rw [updateNotify, if_pos rfl, Eff.bind_apply, reRegisterMbean, Eff.bind_apply, unRegisterMbean_eq hname]
    cases hserver : p.agent.mbeanServer with
    | false => rfl
    | true =>
      dsimp only
      rw [if_pos rfl, if_neg (by simp)]
      dsimp only
      have hregister := registerMbean_eq (p := { p with registered := p.registered.filter (· ≠ oname) }) hname hserver (by simp)
      rw [if_neg (by simp), hregister]
      dsimp only
      exact refreshMbeanInfo_eq (p := ⟨p.agent, oname :: p.registered.filter (· ≠ oname)⟩) hbean metrics

/-- Neither stopping an agent nor failing to changes it. -/
theorem ends_stop (stopConnectorServer : Except JavaError Unit) (p : OnPlatform) :
    Eff.Ends (stop objectName stopConnectorServer) p fun p' => p'.agent = p.agent := by
  refine Eff.ends_bind (P := fun p' => p'.agent = p.agent) ?_ (fun _ p' hp' => Eff.ends_get_bind ?_) fun _ h => h
  · refine Eff.ends_get_bind ?_
    split
    · exact rfl
    split
    · exact rfl
    · exact rfl
  · split
    · exact Eff.ends_lift _ hp'
    · exact hp'

/-- The agent as it was made, but for the fields that a start sets. -/
def HasServer (p : OnPlatform) (mbeanServer : Bool) (p' : OnPlatform) : Prop :=
  ∃ connectorServer ready, p'.agent = { p.agent with mbeanServer, connectorServer, ready }

theorem ends_createAgent (platform : Startup) (p : OnPlatform) :
    Eff.Ends (createAgent platform) p (HasServer p (p.agent.mbeanServer || platform.createRegistry)) := by
  unfold createAgent
  cases platform.createRegistry with
  | false => exact ⟨_, _, by rw [Bool.or_false]⟩
  | true =>
    rw [Bool.or_true, if_pos rfl]
    refine Eff.ends_modify_bind ?_
    cases platform.getURL with
    | false => exact ⟨_, _, rfl⟩
    | true =>
      refine Eff.ends_bind (P := HasServer p true) (Eff.ends_lift _ ⟨_, _, rfl⟩) ?_ fun _ h => h
      rintro created p' ⟨c, r, hp'⟩
      cases created with
      | false => exact ⟨c, r, hp'⟩
      | true => exact Eff.ends_modify_bind (Eff.ends_lift _ ⟨true, r, by rw [hp']⟩)

theorem ends_registerMbean (p : OnPlatform) : Eff.Ends (registerMbean objectName) p fun p' => p'.agent = p.agent := by
  refine Eff.ends_get_bind ?_
  split
  · exact rfl
  split
  · exact rfl
  split
  · exact rfl
  · exact rfl

/-- **What a start leaves** of an agent: it has the MBean server if its
parameters are valid and the registry was created. -/
theorem started_agent (objectName : Text → Bool) (platform : Startup) (p : OnPlatform) :
    HasServer p (p.agent.mbeanServer || (p.agent.validateParams && platform.createRegistry))
      (started objectName (createAgent platform) p) := by
  refine Eff.Ends.left (Eff.ends_get_bind (Eff.ends_bind (P := HasServer p _) ?_ ?_ fun _ h => h))
  · cases p.agent.validateParams with
    | false => exact ⟨_, _, by rw [Bool.false_and, Bool.or_false]⟩
    | true => exact ends_createAgent platform p
  · rintro created p' ⟨c, r, hp'⟩
    cases created with
    | false => exact ⟨c, r, hp'⟩
    | true =>
      refine Eff.ends_bind (P := HasServer p _) (Eff.ends_mono (ends_registerMbean p') fun _ h => ⟨c, r, h.trans hp'⟩) ?_
        fun _ h => h
      rintro ready p'' ⟨c', r', hp''⟩
      exact ⟨c', ready, congrArg (fun a : JMXAgent => { a with ready }) hp''⟩

end ServerJMXAgent

end Plethora
