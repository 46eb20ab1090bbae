/-
# Launching a channel

`Channel.launch` with any number of threads in it. A thread looks at the field
`agent` without the lock and makes and starts an agent under it; in the end it
asks the agent whether it is ready. Every line is a step, and steps of different
threads come in any order; what one thread writes the others see at once.

The field is set before the agent is started, so a thread that comes along in
between asks an agent that is not ready yet. Every answer is the one that will
stand exactly if the agent comes to nothing or nobody asked while it was being
started (`launch_answers_iff`). `initPlethora` is synchronized as a whole, and all of
its calls get the same answer (`initPlethora_agrees`).

Key definitions: `Channel.Launching`, `Channel.LaunchStep`, `Channel.Starting`,
`Channel.InitStep`.
Key theorems: `simulates_once`, `launched_once`, `launch_answers_iff`, `initPlethora_agrees`.
-/
import Plethora.Jmx.Agent
import Plethora.Lib.Once

namespace Plethora

open JMXAgent (Startup OnPlatform)

namespace Channel

/-- What the constructor of a channel has set. The MBean and the host are null
if the configuration file could not be read. -/
structure Fields where
  module : Option Text
  mbean : Option (List (Option MBeanAttributeInfo))
  host : Option Text
  port : Int32

/-- `new ClientJMXAgent(module, mbean, host, port)`. -/
def Fields.newAgent (c : Fields) : JMXAgent := { moduleName := c.module, mbean := c.mbean, host := c.host, port := c.port }

/-- Where a thread stands in `launch` and `threadSafeLaunch`. -/
inductive Place
  | away
  | entering
  | locked
  | creating
  | starting
  | leaving
  | checking
  | asking
  deriving DecidableEq, Repr

/-- A channel that is launched by the threads `ι`, and the names in the MBean server. -/
structure Launching (ι : Type) where
  agent : Option JMXAgent
  lock : Option ι
  place : ι → Place
  registered : List Text

inductive LaunchAction
  | look
  | lock
  | lookAgain
  | create
  | start (platform : Startup)
  | unlock
  | check
  | answer (ready : Bool)

def LaunchAction.isCreate : LaunchAction → Bool
  | .create => true
  | _ => false

def LaunchAction.isStart : LaunchAction → Bool
  | .start _ => true
  | _ => false

namespace Launching

variable {ι : Type} (s : Launching ι)

def isReady : Bool := s.agent.any (·.ready)

def move [DecidableEq ι] (i : ι) (p : Place) : Launching ι := { s with place := Function.update s.place i p }

end Launching

variable {ι : Type} [DecidableEq ι] (c : Fields) (objectName : Text → Bool)

/-- What `agent.start()` leaves of the agent. An exception is caught. -/
def started (platform : Startup) (a : JMXAgent) (registered : List Text) : OnPlatform :=
  JMXAgent.started objectName (JMXAgent.createAgent platform) ⟨a, registered⟩

/-- A line of `launch`, by one thread. -/
inductive LaunchStep : Launching ι → ι × LaunchAction → Launching ι → Prop
  | look {s : Launching ι} {i : ι} (hi : s.place i = .away) :
      LaunchStep s (i, .look) (s.move i (if s.agent.isNone then .entering else .checking))
  | lock {s : Launching ι} {i : ι} (hi : s.place i = .entering) (hfree : s.lock = none) :
      LaunchStep s (i, .lock) { s.move i .locked with lock := some i }
  | lookAgain {s : Launching ι} {i : ι} (hi : s.place i = .locked) :
      LaunchStep s (i, .lookAgain) (s.move i (if s.agent.isNone then .creating else .leaving))
  | create {s : Launching ι} {i : ι} (hi : s.place i = .creating) :
      LaunchStep s (i, .create) { s.move i .starting with agent := some c.newAgent }
  | start {s : Launching ι} {i : ι} {a : JMXAgent} (platform : Startup) (hi : s.place i = .starting)
      (ha : s.agent = some a) :
      LaunchStep s (i, .start platform)
        { s.move i .leaving with
          agent := some (started objectName platform a s.registered).agent
          registered := (started objectName platform a s.registered).registered }
  | unlock {s : Launching ι} {i : ι} (hi : s.place i = .leaving) :
      LaunchStep s (i, .unlock) { s.move i .checking with lock := none }
  | check {s : Launching ι} {i : ι} {a : JMXAgent} (hi : s.place i = .checking) (ha : s.agent = some a) :
      LaunchStep s (i, .check) (s.move i .asking)
  -- there is no agent after all
  | absent {s : Launching ι} {i : ι} (hi : s.place i = .checking) (ha : s.agent = none) :
      LaunchStep s (i, .answer false) (s.move i .away)
  | answer {s : Launching ι} {i : ι} (hi : s.place i = .asking) : LaunchStep s (i, .answer s.isReady) (s.move i .away)

/-- No thread has come yet. -/
def launchStart (registered : List Text) : Launching ι :=
  { agent := none, lock := none, place := fun _ => .away, registered }

/-! ### The launch as filling a slot once -/

def Place.once : Place → Once.Place
  | .away => .away
  | .entering => .waiting
  | .locked => .inside
  | .creating => .filling
  | .starting | .leaving => .leaving
  | .checking | .asking => .past

def LaunchAction.once : LaunchAction → Option Once.Action
  | .look => some .look
  | .lock => some .acquire
  | .lookAgain => some .recheck
  | .create => some .fill
  | .unlock => some .release
  | .answer _ => some .back
  | .start _ | .check => none

def Launching.once (s : Launching ι) : Once.State ι :=
  { filled := s.agent.isSome, lock := s.lock, place := fun i => (s.place i).once }

theorem place_once (place : ι → Place) (i : ι) (p : Place) :
    (fun j => (Function.update place i p j).once) = Function.update (fun j => (place j).once) i p.once := by
  funext j
  simp only [Function.update_apply]
  split <;> rfl

theorem once_move (s : Launching ι) (i : ι) (p : Place) : (s.move i p).once = s.once.move i p.once := by
  simp only [Launching.once, Launching.move, Once.State.move, place_once]

/-- A thread that moves to a place that is the same one for the slot. -/
theorem once_move_same {s : Launching ι} {i : ι} {p : Place} (h : p.once = (s.place i).once) :
    (s.move i p).once = s.once := by
  rw [once_move, h]
  simp only [Once.State.move, Launching.once, Once.State.mk.injEq, true_and]
  exact Function.update_eq_self i _

/-- The event of a launch, as one of the slot. -/
def onceEvent (e : ι × LaunchAction) : Option (ι × Once.Action) := e.2.once.map (e.1, ·)

/-- **A launch fills the field once**: `agent` is the slot, and starting an agent
and asking it are no steps there. -/
theorem simulates_once : Simulates (LaunchStep (ι := ι) c objectName) Once.Step Launching.once onceEvent := by
  intro s e t hstep
  cases hstep with
  | @look i hi =>
    have hnext : (if s.agent.isNone then Place.entering else .checking).once =
        if s.once.filled then Once.Place.past else .waiting := by
      cases ha : s.agent <;> simp [Launching.once, ha, Place.once]
    change Once.Step s.once (i, .look) _
    rw [once_move, hnext]
    exact .look (congrArg Place.once hi)
  | @lock i hi hfree =>
    have hnext : ({ s.move i .locked with lock := some i } : Launching ι).once =
        { s.once.move i .inside with lock := some i } :=
      congrArg (Once.State.mk s.agent.isSome (some i)) (place_once s.place i .locked)
    change Once.Step s.once (i, .acquire) _
    rw [hnext]
    exact .acquire (congrArg Place.once hi) hfree
  | @lookAgain i hi =>
    have hnext : (if s.agent.isNone then Place.creating else .leaving).once =
        if s.once.filled then Once.Place.leaving else .filling := by
      cases ha : s.agent <;> simp [Launching.once, ha, Place.once]
    change Once.Step s.once (i, .recheck) _
    rw [once_move, hnext]
    exact .recheck (congrArg Place.once hi)
  | @create i hi =>
    have hnext : ({ s.move i .starting with agent := some c.newAgent } : Launching ι).once =
        { s.once.move i .leaving with filled := true } :=
      congrArg (Once.State.mk true s.lock) (place_once s.place i .starting)
    change Once.Step s.once (i, .fill) _
    rw [hnext]
    exact .fill (congrArg Place.once hi)
  | @start i a platform hi ha =>
    have hsame := once_move_same (s := s) (i := i) (p := .leaving) (by rw [hi]; rfl)
    simp only [Launching.once, Launching.move, Once.State.mk.injEq, true_and] at hsame
    change Once.State.mk _ _ _ = Once.State.mk _ _ _
    rw [ha]
    exact congrArg (Once.State.mk true s.lock) hsame
  | @unlock i hi =>
    have hnext : ({ s.move i .checking with lock := none } : Launching ι).once =
        { s.once.move i .past with lock := none } :=
      congrArg (Once.State.mk s.agent.isSome none) (place_once s.place i .checking)
    change Once.Step s.once (i, .release) _
    rw [hnext]
    exact .release (congrArg Place.once hi)
  | check hi ha => exact once_move_same (by rw [hi]; rfl)
  | @absent i hi ha =>
    change Once.Step s.once (i, .back) _
    rw [once_move]
    exact .back (congrArg Place.once hi)
  | @answer i hi =>
    change Once.Step s.once (i, .back) _
    rw [once_move]
    exact .back (congrArg Place.once hi)

/-! ### What holds of every launch -/

/-- A thread is starting the agent. -/
def Starting (s : Launching ι) : Prop := ∃ i, s.place i = .starting

/-- An agent that is being started is as it was made, and one that is ready has
its MBean in the server. -/
structure LaunchInv (s : Launching ι) : Prop where
  once : Once.Inv s.once
  fresh : Starting s → s.agent = some c.newAgent
  ready : s.isReady = true →
    ∃ oname ∈ (JMXResolver.moduleJMXName c.module).filter objectName, oname ∈ s.registered

omit [DecidableEq ι] in
theorem launchInv_start (registered : List Text) : LaunchInv c objectName (launchStart registered : Launching ι) where
  once := Once.inv_start
  fresh h := by
    obtain ⟨i, hi⟩ := h
    cases hi
  ready h := by cases h

/-- Where the threads stand that did not move. -/
theorem starting_move {s : Launching ι} {i : ι} {p : Place} (hp : p ≠ .starting) (h : Starting (s.move i p)) :
    Starting s := by
  obtain ⟨j, hj⟩ := h
  simp only [Launching.move, Function.update_apply] at hj
  split at hj
  · exact absurd hj hp
  · exact ⟨j, hj⟩

/-- No second thread is starting the agent. -/
theorem not_starting_of_left {s : Launching ι} {i : ι} {p : Place} (h : Once.Inv s.once) (hi : s.place i = .starting)
    (hp : p ≠ .starting) : ¬Starting (s.move i p) := by
  rintro ⟨j, hj⟩
  simp only [Launching.move, Function.update_apply] at hj
  split at hj
  · exact hp hj
  next hne =>
    refine hne (h.holds_unique (i := j) (j := i) ?_ ?_)
    · simp [Launching.once, hj, Place.once, Once.Place.holds]
    · simp [Launching.once, hi, Place.once, Once.Place.holds]

theorem launchInv_step {s t : Launching ι} {e : ι × LaunchAction} (hstep : LaunchStep c objectName s e t)
    (h : LaunchInv c objectName s) : LaunchInv c objectName t := by
  have honce : Once.Inv t.once := by
    have hsim := simulates_once c objectName s e t hstep
    cases he : onceEvent e with
    | none =>
      rw [Matched, he] at hsim
      exact hsim ▸ h.once
    | some e' =>
      rw [Matched, he] at hsim
      exact Once.inv_step hsim h.once
  have hmove : ∀ i p, p ≠ .starting → Starting (s.move i p) → s.agent = some c.newAgent :=
    fun i p hp hs => h.fresh (starting_move hp hs)
  cases hstep with
  | @look i hi => exact ⟨honce, hmove i _ (by split <;> decide), h.ready⟩
  | @lock i hi hfree => exact ⟨honce, hmove i _ (by decide), h.ready⟩
  | @lookAgain i hi => exact ⟨honce, hmove i _ (by split <;> decide), h.ready⟩
  | create hi => exact ⟨honce, fun _ => rfl, fun hr => by cases hr⟩
  | @start i a platform hi ha =>
    have hnew : a = c.newAgent := Option.some.inj (ha.symm.trans (h.fresh ⟨i, hi⟩))
    refine ⟨honce, fun hs => absurd hs (not_starting_of_left h.once hi (by decide)), fun hr => ?_⟩
    subst hnew
    exact (JMXAgent.registered_of_started objectName (s := ⟨c.newAgent, s.registered⟩) rfl
      (JMXAgent.ensures_createAgent platform _) hr).2
  | @unlock i hi => exact ⟨honce, hmove i _ (by decide), h.ready⟩
  | @check i a hi ha => exact ⟨honce, hmove i _ (by decide), h.ready⟩
  | @absent i hi ha => exact ⟨honce, hmove i _ (by decide), h.ready⟩
  | @answer i hi => exact ⟨honce, hmove i _ (by decide), h.ready⟩

/-- An agent that is there and not being started stays as it is. -/
theorem settled_step {s t : Launching ι} {e : ι × LaunchAction} (hstep : LaunchStep c objectName s e t)
    (h : Once.Inv s.once) (hsome : s.agent.isSome = true) (hs : ¬Starting s) : t.agent = s.agent ∧ ¬Starting t := by
  cases hstep with
  | @look i hi => exact ⟨rfl, fun h' => hs (starting_move (by split <;> decide) h')⟩
  | @lock i hi hfree => exact ⟨rfl, fun h' => hs (starting_move (by decide) h')⟩
  | @lookAgain i hi => exact ⟨rfl, fun h' => hs (starting_move (by split <;> decide) h')⟩
  | @create i hi =>
    have hempty : s.agent.isSome = false := h.empty i (congrArg Place.once hi)
    exact absurd (hsome.symm.trans hempty) Bool.false_ne_true.symm
  | start platform hi ha => exact absurd ⟨_, hi⟩ hs
  | @unlock i hi => exact ⟨rfl, fun h' => hs (starting_move (by decide) h')⟩
  | @check i a hi ha => exact ⟨rfl, fun h' => hs (starting_move (by decide) h')⟩
  | @absent i hi ha => exact ⟨rfl, fun h' => hs (starting_move (by decide) h')⟩
  | @answer i hi => exact ⟨rfl, fun h' => hs (starting_move (by decide) h')⟩

theorem settled_run {s u : Launching ι} {steps : List (Launching ι × ι × LaunchAction)}
    (hrun : Run (LaunchStep c objectName) s steps u) (h : LaunchInv c objectName s) (hsome : s.agent.isSome = true)
    (hs : ¬Starting s) : u.agent = s.agent := by
  induction hrun with
  | nil => rfl
  | cons step rest ih =>
    obtain ⟨hagent, hnot⟩ := settled_step c objectName step h.once hsome hs
    exact (ih (launchInv_step c objectName step h) (hagent ▸ hsome) hnot).trans hagent

/-- What a thread is answered is whether the agent is ready, and there is one. -/
theorem answered {s t : Launching ι} {i : ι} {b : Bool} (hstep : LaunchStep c objectName s (i, .answer b) t)
    (h : Once.Inv s.once) : b = s.isReady ∧ s.agent.isSome = true := by
  cases hstep with
  | absent hi ha =>
    have hfull : s.agent.isSome = true := h.full i (.inr (congrArg Place.once hi))
    rw [ha] at hfull
    cases hfull
  | answer hi => exact ⟨rfl, h.full i (.inr (congrArg Place.once hi))⟩

theorem not_starting_of_answer {s t : Launching ι} {i : ι} {b : Bool}
    (hstep : LaunchStep c objectName s (i, .answer b) t) : s.place i ≠ .starting := by
  cases hstep with
  | absent hi ha => simp [hi]
  | answer hi => simp [hi]

/-! ### Runs -/

/-- How many agents are made in a run. -/
def agentsMade (steps : List (Launching ι × ι × LaunchAction)) : ℕ := steps.countP (·.2.2.isCreate)

/-- How often an agent is started in a run. -/
def agentsStarted (steps : List (Launching ι × ι × LaunchAction)) : ℕ := steps.countP (·.2.2.isStart)

omit [DecidableEq ι] in
theorem agentsMade_eq (steps : List (Launching ι × ι × LaunchAction)) :
    agentsMade steps = Once.fills (seen Launching.once onceEvent steps) := by
  rw [Once.fills, seen, List.countP_filterMap, agentsMade]
  refine List.countP_congr fun p _ => ?_
  obtain ⟨s, i, action⟩ := p
  cases action <;> simp [LaunchAction.isCreate, onceEvent, LaunchAction.once]

/-- An agent is made before it is started. -/
theorem agentsStarted_le {s u : Launching ι} {steps : List (Launching ι × ι × LaunchAction)}
    (hrun : Run (LaunchStep c objectName) s steps u) (h : LaunchInv c objectName s) :
    agentsStarted steps ≤ agentsMade steps + 1 ∧ (¬Starting s → agentsStarted steps ≤ agentsMade steps) := by
  induction hrun with
  | nil => exact ⟨Nat.zero_le _, fun _ => Nat.le_refl _⟩
  | @cons s t u e steps step rest ih =>
    obtain ⟨hle, hnot⟩ := ih (launchInv_step c objectName step h)
    simp only [agentsStarted, agentsMade, List.countP_cons] at hle hnot ⊢
    have hother : e.2.isStart = false → e.2.isCreate = false → (Starting t → Starting s) →
        steps.countP (·.2.2.isStart) + (if e.2.isStart then 1 else 0) ≤
            steps.countP (·.2.2.isCreate) + (if e.2.isCreate then 1 else 0) + 1 ∧
          (¬Starting s → steps.countP (·.2.2.isStart) + (if e.2.isStart then 1 else 0) ≤
            steps.countP (·.2.2.isCreate) + (if e.2.isCreate then 1 else 0)) := by
      intro hstart hcreate hback
      rw [hstart, hcreate]
      exact ⟨hle, fun hs => hnot fun ht => hs (hback ht)⟩
    cases step with
    | create hi => exact ⟨Nat.le_succ_of_le hle, fun _ => hle⟩
    | start platform hi ha =>
      have hdone := hnot (not_starting_of_left h.once hi (by decide))
      exact ⟨Nat.succ_le_succ hdone, fun hs => absurd ⟨_, hi⟩ hs⟩
    | look hi => exact hother rfl rfl (starting_move (by split <;> decide))
    | lock hi hfree => exact hother rfl rfl (starting_move (by decide))
    | lookAgain hi => exact hother rfl rfl (starting_move (by split <;> decide))
    | unlock hi => exact hother rfl rfl (starting_move (by decide))
    | check hi ha => exact hother rfl rfl (starting_move (by decide))
    | absent hi ha => exact hother rfl rfl (starting_move (by decide))
    | answer hi => exact hother rfl rfl (starting_move (by decide))

/-- Every state of a run has the invariant. -/
theorem launchInv_run {s u : Launching ι} {steps : List (Launching ι × ι × LaunchAction)}
    (hrun : Run (LaunchStep c objectName) s steps u) (h : LaunchInv c objectName s) :
    Throughout (LaunchInv c objectName) steps u :=
  hrun.throughout (fun _ _ _ step hi => launchInv_step c objectName step hi) h

/-- **One agent**: however many threads launch a channel and however their steps
interleave, one agent at most is made, and it is started once at most; a thread
that is told that the channel is ready finds the MBean in the server. -/
theorem launched_once {registered : List Text} {u : Launching ι} {steps : List (Launching ι × ι × LaunchAction)}
    (hrun : Run (LaunchStep c objectName) (launchStart registered) steps u) :
    agentsMade steps ≤ 1 ∧ agentsStarted steps ≤ 1 ∧
      ∀ p ∈ steps, p.2.2 = .answer true →
        ∃ oname ∈ (JMXResolver.moduleJMXName c.module).filter objectName, oname ∈ p.1.registered := by
  have hinv := launchInv_start c objectName (ι := ι) registered
  have hmade : agentsMade steps ≤ 1 := by
    rw [agentsMade_eq]
    exact Once.fills_le_one (hrun.simulates (simulates_once c objectName)) hinv.once
  have hnone : ¬Starting (launchStart registered : Launching ι) := fun ⟨i, hi⟩ => by cases hi
  refine ⟨hmade, ((agentsStarted_le c objectName hrun hinv).2 hnone).trans hmade, ?_⟩
  rintro ⟨s, i, action⟩ hp rfl
  have hs := (launchInv_run c objectName hrun hinv).1 _ hp
  obtain ⟨t, hstep⟩ := hrun.step_of_mem hp
  exact hs.ready (answered c objectName hstep hs.once).1.symm

/-- What each answer of a run is. -/
theorem answer_of_run {registered : List Text} {u : Launching ι} {steps : List (Launching ι × ι × LaunchAction)}
    (hrun : Run (LaunchStep c objectName) (launchStart registered) steps u) {p : Launching ι × ι × LaunchAction}
    (hp : p ∈ steps) {b : Bool} (hb : p.2.2 = .answer b) :
    (Starting p.1 → b = false) ∧ (¬Starting p.1 → b = u.isReady) := by
  have hinv := launchInv_run c objectName hrun (launchInv_start c objectName registered)
  obtain ⟨s, i, action⟩ := p
  obtain rfl : action = .answer b := hb
  have hs := hinv.1 _ hp
  obtain ⟨t, hstep⟩ := hrun.step_of_mem hp
  obtain ⟨rest, hrest⟩ := hrun.exists_rest hp
  obtain ⟨hb, hsome⟩ := answered c objectName hstep hs.once
  rw [hb]
  refine ⟨fun hst => ?_, fun hst => ?_⟩
  · rw [Launching.isReady, hs.fresh hst]
    rfl
  · rw [Launching.isReady, Launching.isReady, settled_run c objectName hrest hs hsome hst]

/-- **The answers** of a run are all what the agent comes to exactly if it comes
to nothing or nobody was answered while a thread was starting it. In particular
nobody is told that an agent is ready whose start has failed, and no launch
after that makes up for it. -/
theorem launch_answers_iff {registered : List Text} {u : Launching ι} {steps : List (Launching ι × ι × LaunchAction)}
    (hrun : Run (LaunchStep c objectName) (launchStart registered) steps u) :
    (∀ p ∈ steps, ∀ b, p.2.2 = .answer b → b = u.isReady) ↔
      (u.isReady = true → ∀ p ∈ steps, ∀ b, p.2.2 = .answer b → ¬Starting p.1) := by
  constructor
  · intro hall hready p hp b hb hst
    have hfalse := (answer_of_run c objectName hrun hp hb).1 hst
    exact Bool.false_ne_true (hfalse.symm.trans ((hall p hp b hb).trans hready))
  · intro hall p hp b hb
    by_cases hst : Starting p.1
    · rw [(answer_of_run c objectName hrun hp hb).1 hst]
      exact (Bool.eq_false_iff.mpr fun hready => hall hready p hp b hb hst).symm
    · exact (answer_of_run c objectName hrun hp hb).2 hst

/-- A channel that can be launched, on a platform where every call succeeds. -/
def oneField : Fields := { module := some "app".toList, mbean := some [], host := some "localhost".toList, port := 9001 }

def oneStartup : Startup :=
  { createRegistry := true, getURL := true, newJMXConnectorServer := .ok true, startConnectorServer := .ok true }

/-- The second thread comes while the first one is starting the agent. -/
theorem race : ∃ u steps, Run (LaunchStep (ι := Bool) oneField fun _ => true) (launchStart []) steps u ∧
    steps.map (fun p => (p.2.1, p.2.2.isStart)) =
      [(true, false), (true, false), (true, false), (true, false), (false, false), (false, false), (false, false),
        (true, true), (true, false), (true, false), (true, false)] ∧
    (∃ p ∈ steps, p.2 = (false, .answer false)) ∧ u.isReady = true := by
  refine ⟨_, _, .cons (.look (i := true) rfl) (.cons (.lock (i := true) rfl rfl) (.cons (.lookAgain (i := true) rfl)
    (.cons (.create (i := true) rfl) (.cons (.look (i := false) rfl) (.cons (.check (i := false) rfl rfl)
      (.cons (.answer (i := false) rfl) (.cons (.start (i := true) oneStartup rfl rfl) (.cons (.unlock (i := true) rfl)
        (.cons (.check (i := true) rfl rfl) (.cons (.answer (i := true) rfl) (.nil _))))))))))), rfl, ?_, ?_⟩
  · exact ⟨_, .tail _ (.tail _ (.tail _ (.tail _ (.tail _ (.tail _ (.head _)))))), rfl⟩
  · decide

theorem launched_once_race : ∃ u steps, Run (LaunchStep (ι := Bool) oneField fun _ => true) (launchStart []) steps u ∧
    agentsMade steps ≤ 1 ∧ agentsStarted steps ≤ 1 ∧ ∃ p ∈ steps, p.2 = (false, .answer false) := by
  obtain ⟨u, steps, hrun, -, hanswer, -⟩ := race
  have honce := launched_once oneField (fun _ => true) hrun
  exact ⟨u, steps, hrun, honce.1, honce.2.1, hanswer⟩

/-- Somebody was answered too early. -/
theorem launch_answers_iff_race : ∃ u steps, Run (LaunchStep (ι := Bool) oneField fun _ => true) (launchStart []) steps u ∧
    ∃ p ∈ steps, ∃ b, p.2.2 = .answer b ∧ Starting p.1 := by
  obtain ⟨u, steps, hrun, -, ⟨p, hp, hpe⟩, hready⟩ := race
  refine ⟨u, steps, hrun, ?_⟩
  by_contra hnone
  have hall := (launch_answers_iff oneField (fun _ => true) hrun).mpr fun _ q hq b hb hst => hnone ⟨q, hq, b, hb, hst⟩
  exact Bool.false_ne_true ((hall p hp false (by rw [hpe])).trans hready)

/-! ### `Plethora.initPlethora` -/

/-- How far the thread in `initPlethora` has come. -/
inductive InitPhase
  | entered
  | launching
  | returning
  deriving DecidableEq

/-- `Plethora`, with the thread that has its monitor. -/
structure Initializing (ι : Type) where
  monitor : Option (ι × InitPhase)
  /-- Whether `channelPlethora` has been set. -/
  channelPlethora : Bool
  launching : Launching ι

inductive InitAction
  | enter
  | construct
  | launch (action : LaunchAction)
  | leave

/-- The phase after a step of the launch. -/
def InitPhase.after : LaunchAction → InitPhase
  | .answer _ => .returning
  | _ => .launching

inductive InitStep : Initializing ι → ι × InitAction → Initializing ι → Prop
  | enter {s : Initializing ι} {i : ι} (hfree : s.monitor = none) :
      InitStep s (i, .enter) { s with monitor := some (i, .entered) }
  | construct {s : Initializing ι} {i : ι} (hi : s.monitor = some (i, .entered)) :
      InitStep s (i, .construct) { s with monitor := some (i, .launching), channelPlethora := true }
  | launch {s : Initializing ι} {i : ι} {action : LaunchAction} {l : Launching ι}
      (hi : s.monitor = some (i, .launching)) (hstep : LaunchStep c objectName s.launching (i, action) l) :
      InitStep s (i, .launch action) { s with monitor := some (i, .after action), launching := l }
  | leave {s : Initializing ι} {i : ι} (hi : s.monitor = some (i, .returning)) :
      InitStep s (i, .leave) { s with monitor := none }

def initStart (registered : List Text) : Initializing ι :=
  { monitor := none, channelPlethora := false, launching := launchStart registered }

/-- The step of the launch that a step is. -/
def launchEvent (e : ι × InitAction) : Option (ι × LaunchAction) :=
  match e.2 with
  | .launch action => some (e.1, action)
  | _ => none

theorem simulates_launch :
    Simulates (InitStep (ι := ι) c objectName) (LaunchStep c objectName) Initializing.launching launchEvent := by
  intro s e t hstep
  cases hstep with
  | enter hfree => rfl
  | construct hi => rfl
  | launch hi hstep => exact hstep
  | leave hi => rfl

/-- Only the thread with the monitor is anywhere in a launch. -/
def Alone (s : Initializing ι) : Prop := ∀ j, s.launching.place j ≠ .away → s.monitor = some (j, .launching)

/-- A step of a launch moves the thread that takes it, and an answer moves it out. -/
theorem place_of_launchStep {s t : Launching ι} {i : ι} {action : LaunchAction}
    (hstep : LaunchStep c objectName s (i, action) t) :
    (∀ j, j ≠ i → t.place j = s.place j) ∧ (InitPhase.after action = .returning → t.place i = .away) := by
  have hother : ∀ p, ∀ j, j ≠ i → Function.update s.place i p j = s.place j :=
    fun p j hj => Function.update_of_ne hj p s.place
  cases hstep with
  | absent hi ha => exact ⟨hother _, fun _ => Function.update_self i _ s.place⟩
  | answer hi => exact ⟨hother _, fun _ => Function.update_self i _ s.place⟩
  | _ => exact ⟨hother _, fun h => InitPhase.noConfusion h⟩

theorem alone_step {s t : Initializing ι} {e : ι × InitAction} (hstep : InitStep c objectName s e t) (h : Alone s) :
    Alone t := by
  cases hstep with
  | enter hfree => exact fun j hj => by simpa [hfree] using h j hj
  | construct hi => exact fun j hj => by simpa [hi] using h j hj
  | @launch i action l hi hstep =>
    obtain ⟨hother, hout⟩ := place_of_launchStep c objectName hstep
    intro j hj
    by_cases hji : j = i
    · subst hji
      cases hphase : InitPhase.after action with
      | launching => rfl
      | returning => exact absurd (hout hphase) hj
      | entered => cases action <;> cases hphase
    · have hmon := h j (hother j hji ▸ hj)
      rw [hi] at hmon
      exact absurd (Prod.mk.inj (Option.some.inj hmon)).1.symm hji
  | leave hi => exact fun j hj => by simpa [hi] using h j hj

/-- **All calls of `initPlethora` agree**: each is answered what the agent comes to. -/
theorem initPlethora_agrees {registered : List Text} {u : Initializing ι}
    {steps : List (Initializing ι × ι × InitAction)}
    (hrun : Run (InitStep c objectName) (initStart registered) steps u) :
    ∀ p ∈ steps, ∀ b, p.2.2 = .launch (.answer b) → b = u.launching.isReady := by
  have hlaunch := hrun.simulates (simulates_launch c objectName)
  have halone : Throughout Alone steps u :=
    hrun.throughout (fun _ _ _ step hi => alone_step c objectName step hi) fun j hj => absurd rfl hj
  have hall : ∀ p ∈ seen Initializing.launching launchEvent steps, ∀ b, p.2.2 = .answer b → b = u.launching.isReady := by
    intro p hp b hb
    refine (answer_of_run c objectName hlaunch hp hb).2 ?_
    obtain ⟨q, hq, hqp⟩ := List.mem_filterMap.mp hp
    obtain ⟨e', he', rfl⟩ := Option.map_eq_some_iff.mp hqp
    rintro ⟨j, hj⟩
    -- the thread that is answered and the one that is starting both have the monitor
    obtain ⟨t, hstep⟩ := hrun.step_of_mem hq
    obtain ⟨s, i, action⟩ := q
    have hmon := halone.1 _ hq j (by rw [hj]; decide)
    cases hstep with
    | @launch _ action l hi hstep =>
      obtain rfl := Option.some.inj he'
      obtain rfl : i = j := (Prod.mk.inj (Option.some.inj (hi.symm.trans hmon))).1
      obtain rfl : action = .answer b := hb
      exact not_starting_of_answer c objectName hstep hj
    | _ => cases he'
  rintro ⟨s, i, action⟩ hp b rfl
  exact hall (s.launching, i, .answer b) (List.mem_filterMap.mpr ⟨_, hp, rfl⟩) b rfl

/-- A first thread starts the agent, and a second one finds it ready. -/
theorem initPlethora_agrees_two : ∃ u steps,
    Run (InitStep (ι := Bool) oneField fun _ => true) (initStart []) steps u ∧ u.launching.isReady = true ∧
      (∀ p ∈ steps, ∀ b, p.2.2 = .launch (.answer b) → b = true) ∧ ∃ p ∈ steps, p.2 = (false, .launch (.answer true)) := by
  have hrun : ∃ u steps, Run (InitStep (ι := Bool) oneField fun _ => true) (initStart []) steps u ∧
      u.launching.isReady = true ∧ ∃ p ∈ steps, p.2 = (false, .launch (.answer true)) := by
    refine ⟨_, _, .cons (.enter (i := true) rfl) (.cons (.construct rfl) (.cons (.launch rfl (.look rfl))
      (.cons (.launch rfl (.lock rfl rfl)) (.cons (.launch rfl (.lookAgain rfl)) (.cons (.launch rfl (.create rfl))
        (.cons (.launch rfl (.start oneStartup rfl rfl)) (.cons (.launch rfl (.unlock rfl))
          (.cons (.launch rfl (.check rfl rfl)) (.cons (.launch rfl (.answer rfl)) (.cons (.leave rfl)
            (.cons (.enter (i := false) rfl) (.cons (.construct rfl) (.cons (.launch rfl (.look rfl))
              (.cons (.launch rfl (.check rfl rfl)) (.cons (.launch rfl (.answer rfl))
                (.cons (.leave rfl) (.nil _))))))))))))))))), ?_, ?_⟩
    · decide
    · exact ⟨_, .tail _ (.tail _ (.tail _ (.tail _ (.tail _ (.tail _ (.tail _ (.tail _ (.tail _ (.tail _ (.tail _ (.tail _
        (.tail _ (.tail _ (.tail _ (.head _))))))))))))))), rfl⟩
  obtain ⟨u, steps, hrun, hready, hanswer⟩ := hrun
  exact ⟨u, steps, hrun, hready, fun p hp b hb => (initPlethora_agrees oneField _ hrun p hp b hb).trans hready, hanswer⟩

end Channel

end Plethora
