/-
# Connections to JMX agents, and their strategies

A connector connects as its strategy says: at once, only to an end point that
a socket reaches, or at once as long as few connections have failed. The managed
strategies end the threads that failed connections have left behind, at once or
after a grace period. The failures of all connectors are counted together, and
all of them share the time keeper of the tracker. A connection that throws
something else than an `IOException` is not counted.

The counters are `int`s: with 2^31 failures the limits are forgotten. Up to
there, connections to an end point that no socket reaches fail three times at
most for an optimistic connector, and thirty times for all of them
(`unreachable_le`). Calls are taken one after the other, those of different
threads too.

Key definitions: `ConnectionStrategy`, `JMXConnector`, `Connectors`, `Connectors.connect`.
Key theorems: `connect_left`, `counted`, `unreachable_le`, `graced`.
-/
import Plethora.Jmx.ConnectionThreads
import Plethora.Jmx.Agent
import Plethora.Lib.Runs

namespace Plethora

inductive ConnectionStrategy
  | normal
  | checked
  | checkedOptimistic
  | managed
  | managedConservative
  deriving DecidableEq

namespace ConnectionStrategy

def defStrategy : ConnectionStrategy := normal

end ConnectionStrategy

/-- `Connector`. -/
structure JMXConnector where
  host : Option Text
  port : Int32
  jmxServiceUrl : Option Text
  connectionStrategy : ConnectionStrategy := .defStrategy
  failCount : Int32 := 0

/-- `JMXResolver.jmxMpServiceUrl`, which is what `resolveJMXMProxyEndPointURL` builds. -/
def JMXResolver.jmxMpServiceUrl (host : Text) (port : Int32) : Text :=
  "service:jmx:jmxmp://".toList ++ host ++ ':' :: (toString port.toInt).toList

/-- The constructor of `Connector`, with the texts that `JMXServiceURL` takes. -/
def JMXConnector.new (wellFormed : Text → Bool) (name host : Option Text) (port : Int32) (strategy : ConnectionStrategy) :
    JMXConnector where
  host
  port
  connectionStrategy := strategy
  jmxServiceUrl :=
    if Util.invalidEmpty name || Util.invalidEmpty host || Util.invalidPort port then none
    else host.bind fun host => some (JMXResolver.jmxMpServiceUrl host port) |>.filter wellFormed

/-- What a call of `connect` meets: the socket of `isReachable`, the connection,
false for an `IOException`, and the threads that a scan goes over. -/
structure Attempt where
  isReachable : Except JavaError Bool
  connect : Except JavaError Bool
  threads : List Sighting

/-- The connectors of the program, with what they share. -/
structure Connectors (ι : Type) where
  connectors : ι → JMXConnector
  totalFailCount : Int32 := 0
  tracking : ConnectionThreadTracker.Tracking := {}

namespace Connectors

def maxFailures : Int32 := 3

def maxTotalFailures : Int32 := 30

def allowWaitSecs : Int32 := 60

section Connect

variable {ι : Type} [DecidableEq ι] (i : ι) (a : Attempt)


/-- `failCount++` and `totalFailCount++`. -/
def countFailure (s : Connectors ι) : Connectors ι :=
  { s with
    connectors := Function.update s.connectors i { s.connectors i with failCount := (s.connectors i).failCount + 1 }
    totalFailCount := s.totalFailCount + 1 }

def makeConnection : Eff JavaError (Connectors ι) Bool := do
  if ← Eff.lift a.connect then
    return true
  else do
    Eff.modify (countFailure i)
    return false

def makeManagedConnection (allowWaitTimeSecs : Int32) : Eff JavaError (Connectors ι) Bool := do
  if ← makeConnection i a then
    return true
  else do
    Eff.modify fun s =>
      { s with tracking := ConnectionThreadTracker.reclaimWaiting allowWaitTimeSecs a.threads s.tracking }
    return false

def makeCheckedConnection : Eff JavaError (Connectors ι) Bool := do
  if ← Eff.lift a.isReachable then
    makeConnection i a
  else
    return false

def withinOptimisticLimit (s : Connectors ι) : Bool :=
  (s.connectors i).failCount < maxFailures && s.totalFailCount < maxTotalFailures

def makeOptimisticCheckedConnection : Eff JavaError (Connectors ι) Bool := do
  if withinOptimisticLimit i (← Eff.get) then
    makeConnection i a
  else
    makeCheckedConnection i a

def connect : Eff JavaError (Connectors ι) Bool := do
  let s ← Eff.get
  if (s.connectors i).jmxServiceUrl.isNone then
    return false
  else
    match (s.connectors i).connectionStrategy with
    | .managed => makeManagedConnection i a 0
    | .managedConservative => makeManagedConnection i a allowWaitSecs
    | .checked => makeCheckedConnection i a
    | .checkedOptimistic => makeOptimisticCheckedConnection i a
    | .normal => makeConnection i a

/-- A call of `connect` by one of the connectors. -/
def Step (s : Connectors ι) (e : ι × Attempt) (t : Connectors ι) : Prop := (connect e.1 e.2).left s = t

end Connect

end Connectors

/-! ### What one call does -/

namespace Attempt

variable (a : Attempt)

/-- A socket reaches the end point. -/
def reached : Bool :=
  match a.isReachable with
  | .ok reachable => reachable
  | .error _ => false

/-- The connection fails with an `IOException`. -/
def refused : Bool :=
  match a.connect with
  | .ok connected => !connected
  | .error _ => false

end Attempt

namespace ConnectionStrategy

/-- The grace period of a managed strategy. -/
def allowWaitSecs : ConnectionStrategy → Option Int32
  | managed => some 0
  | managedConservative => some Connectors.allowWaitSecs
  | _ => none

end ConnectionStrategy

namespace Connectors

section Calls

variable {ι : Type} [DecidableEq ι] (s : Connectors ι) (i : ι) (a : Attempt)

/-- The call comes to a connection. -/
def connects : Bool :=
  (s.connectors i).jmxServiceUrl.isSome &&
    match (s.connectors i).connectionStrategy with
    | .checked => a.reached
    | .checkedOptimistic => withinOptimisticLimit i s || a.reached
    | _ => true

/-- The call comes to a connection, and that is refused. -/
def failed (s : Connectors ι) (e : ι × Attempt) : Bool := connects s e.1 e.2 && e.2.refused

/-- What the call scans. -/
def scanned (s : Connectors ι) (e : ι × Attempt) : List (Int32 × Sighting) :=
  match (s.connectors e.1).connectionStrategy.allowWaitSecs with
  | some secs => if failed s e then e.2.threads.map (secs, ·) else []
  | none => []

/-- A call that fails is counted, and it scans as its strategy says. -/
def afterFailure : Connectors ι :=
  match (s.connectors i).connectionStrategy.allowWaitSecs with
  | some secs =>
    { countFailure i s with tracking := ConnectionThreadTracker.reclaimWaiting secs a.threads s.tracking }
  | none => countFailure i s

theorem left_makeConnection : (makeConnection i a).left s = if a.refused then countFailure i s else s := by
  unfold makeConnection Eff.left Attempt.refused
  rw [Eff.bind_apply]
  rcases a.connect with e | ⟨_ | _⟩ <;> rfl

theorem left_makeManagedConnection (secs : Int32) : (makeManagedConnection i a secs).left s =
    if a.refused then
      { countFailure i s with tracking := ConnectionThreadTracker.reclaimWaiting secs a.threads s.tracking }
    else s := by
  unfold makeManagedConnection makeConnection Eff.left Attempt.refused
  rw [Eff.bind_apply, Eff.bind_apply]
  rcases a.connect with e | ⟨_ | _⟩ <;> rfl

theorem left_makeCheckedConnection : (makeCheckedConnection i a).left s =
    if a.reached && a.refused then countFailure i s else s := by
  unfold Attempt.reached
  cases hreach : a.isReachable with
  | error e => simp [makeCheckedConnection, Eff.left, Eff.bind_apply, hreach, Eff.lift]
  | ok reachable =>
    have hmake := left_makeConnection s i a
    unfold Eff.left at hmake ⊢
    cases reachable with
    | false => simp [makeCheckedConnection, Eff.bind_apply, hreach, Eff.lift, pure]
    | true => simpa [makeCheckedConnection, Eff.bind_apply, hreach, Eff.lift] using hmake

/-- **What one call of `connect` does.** -/
theorem left_connect (e : ι × Attempt) :
    (connect e.1 e.2).left s = if failed s e then afterFailure s e.1 e.2 else s := by
  obtain ⟨i, a⟩ := e
  have hget : ∀ {α : Type} (f : Connectors ι → Eff JavaError (Connectors ι) α), (Eff.get >>= f).left s = (f s).left s :=
    fun f => rfl
  unfold connect failed connects afterFailure
  rw [hget]
  cases hurl : (s.connectors i).jmxServiceUrl with
  | none => simp [Eff.left, pure]
  | some url =>
    simp only [Option.isNone_some, Option.isSome_some, Bool.true_and, Bool.false_eq_true, if_false]
    cases hstrategy : (s.connectors i).connectionStrategy with
    | normal => exact left_makeConnection s i a
    | managed => exact left_makeManagedConnection s i a 0
    | managedConservative => exact left_makeManagedConnection s i a allowWaitSecs
    | checked => exact left_makeCheckedConnection s i a
    | checkedOptimistic =>
      dsimp only
      rw [makeOptimisticCheckedConnection, hget]
      cases withinOptimisticLimit i s with
      | true => exact left_makeConnection s i a
      | false => exact left_makeCheckedConnection s i a

end Calls

/-! ### Failures -/

section Failures

variable {ι : Type} [DecidableEq ι]

/-- No connection has failed yet. -/
structure Fresh (s : Connectors ι) : Prop where
  failCount : ∀ i, (s.connectors i).failCount = 0
  totalFailCount : s.totalFailCount = 0

/-- How many of the calls have failed, for one connector and for all. -/
def failures (i : ι) (steps : List (Connectors ι × ι × Attempt)) : ℕ :=
  steps.countP fun p => decide (p.2.1 = i) && failed p.1 p.2

def totalFailures (steps : List (Connectors ι × ι × Attempt)) : ℕ := steps.countP fun p => failed p.1 p.2

omit [DecidableEq ι] in
theorem failures_le [DecidableEq ι] (i : ι) (steps : List (Connectors ι × ι × Attempt)) :
    failures i steps ≤ totalFailures steps := by
  apply List.countP_mono_left
  intro p _ hp
  simp at hp
  exact hp.2

/-- A call changes nothing of a connector but its count. -/
theorem connectors_afterFailure (s : Connectors ι) (i : ι) (a : Attempt) :
    (afterFailure s i a).connectors = (countFailure i s).connectors ∧
      (afterFailure s i a).totalFailCount = s.totalFailCount + 1 := by
  unfold afterFailure
  split <;> exact ⟨rfl, rfl⟩

theorem add_one_ofNat (c : Int32) (n : ℕ) : c + 1 + Int32.ofNat n = c + Int32.ofNat (n + 1) := by
  rw [Int32.ofNat_add, Int32.add_assoc, Int32.add_comm 1]
  rfl

/-- A count below 2^31 is compared as it is. -/
theorem ofNat_lt {n : ℕ} (hn : n < 2 ^ 31) (k : ℕ) (hk : k < 2 ^ 31) : Int32.ofNat n < Int32.ofNat k ↔ n < k := by
  rw [Int32.lt_iff_toInt_lt, Int32.toInt_ofNat_of_lt hn, Int32.toInt_ofNat_of_lt hk]
  omega

/-- **The counters count**, as `int`s. -/
theorem counted {s u : Connectors ι} {steps : List (Connectors ι × ι × Attempt)} (hrun : Run Step s steps u) :
    (∀ i, (u.connectors i).failCount = (s.connectors i).failCount + Int32.ofNat (failures i steps) ∧
      (u.connectors i).connectionStrategy = (s.connectors i).connectionStrategy) ∧
      u.totalFailCount = s.totalFailCount + Int32.ofNat (totalFailures steps) := by
  induction hrun with
  | nil s => simp [failures, totalFailures]
  | @cons s t u e steps step rest ih =>
    obtain ⟨hconnectors, htotal⟩ := ih
    rw [Step, left_connect] at step
    by_cases hfailed : failed s e = true
    · rw [if_pos hfailed] at step
      obtain ⟨hcount, hall⟩ := connectors_afterFailure s e.1 e.2
      rw [step] at hcount hall
      refine ⟨fun i => ?_, ?_⟩
      · obtain ⟨hi, hstrategy⟩ := hconnectors i
        rw [hi, hstrategy, hcount]
        by_cases hei : e.1 = i
        · subst hei
          have hsucc : failures e.1 ((s, e) :: steps) = failures e.1 steps + 1 := by simp [failures, hfailed]
          rw [hsucc, ← add_one_ofNat]
          simp [countFailure]
        · simp [countFailure, failures, hfailed, hei, Function.update_of_ne (Ne.symm hei)]
      · rw [htotal, hall]
        have hsucc : totalFailures ((s, e) :: steps) = totalFailures steps + 1 := by simp [totalFailures, hfailed]
        rw [hsucc, ← add_one_ofNat]
    · rw [if_neg hfailed] at step
      subst step
      have hfailed := Bool.not_eq_true _ ▸ hfailed
      simp only [failures, totalFailures, List.countP_cons] at hconnectors htotal ⊢
      simpa [hfailed] using ⟨hconnectors, htotal⟩

/-- Within the limits fewer connections have failed than they say. -/
theorem failures_of_within {s u : Connectors ι} {steps : List (Connectors ι × ι × Attempt)}
    (hrun : Run Step s steps u) (hfresh : Fresh s) (hfew : totalFailures steps < 2 ^ 31) {i : ι}
    (hwithin : withinOptimisticLimit i u = true) : failures i steps < 3 ∧ totalFailures steps < 30 := by
  obtain ⟨hconnectors, htotal⟩ := counted hrun
  have hle := failures_le i steps
  simp only [withinOptimisticLimit, Bool.and_eq_true, decide_eq_true_eq] at hwithin
  rw [(hconnectors i).1, htotal, hfresh.failCount, hfresh.totalFailCount, Int32.zero_add, Int32.zero_add] at hwithin
  constructor
  · exact (ofNat_lt (by omega) 3 (by omega)).mp hwithin.1
  · exact (ofNat_lt hfew 30 (by omega)).mp hwithin.2

/-- The call fails, and no socket reaches the end point. -/
def unreachable (p : Connectors ι × ι × Attempt) : Bool := failed p.1 p.2 && !p.2.2.reached

omit [DecidableEq ι] in
/-- An optimistic connector that tries what no socket reaches is within the limits. -/
theorem within_of_unreachable {s : Connectors ι} {e : ι × Attempt}
    (hstrategy : (s.connectors e.1).connectionStrategy = .checkedOptimistic) (h : unreachable (s, e) = true) :
    withinOptimisticLimit e.1 s = true := by
  simp only [unreachable, failed, connects, hstrategy, Bool.and_eq_true, Bool.or_eq_true, Bool.not_eq_true'] at h
  obtain ⟨⟨⟨-, hwithin | hreached⟩, -⟩, hnot⟩ := h
  · exact hwithin
  · simp [hnot] at hreached

omit [DecidableEq ι] in
/-- A checked one does not try it. -/
theorem unreachable_of_checked {s : Connectors ι} {e : ι × Attempt}
    (hstrategy : (s.connectors e.1).connectionStrategy = .checked) : unreachable (s, e) = false := by
  unfold unreachable failed connects
  rw [hstrategy]
  cases e.2.reached <;> simp

/-- **The limits**: connections to an end point that no socket reaches fail three
times at most for an optimistic connector and thirty times for all of them, and
never for one that is checked. -/
theorem unreachable_le {s u : Connectors ι} {steps : List (Connectors ι × ι × Attempt)} (hrun : Run Step s steps u)
    (hfresh : Fresh s) (hfew : totalFailures steps < 2 ^ 31) :
    (∀ i, (s.connectors i).connectionStrategy = .checkedOptimistic →
      (steps.countP fun p => decide (p.2.1 = i) && unreachable p) ≤ 3) ∧
    (steps.countP fun p => decide ((s.connectors p.2.1).connectionStrategy = .checkedOptimistic) && unreachable p) ≤ 30 ∧
    ∀ p ∈ steps, (s.connectors p.2.1).connectionStrategy = .checked → unreachable p = false := by
  have hstep : ∀ before p after, steps = before ++ p :: after →
      (p.1.connectors p.2.1).connectionStrategy = (s.connectors p.2.1).connectionStrategy ∧
        (withinOptimisticLimit p.2.1 p.1 = true → failures p.2.1 before < 3 ∧ totalFailures before < 30) := by
    rintro before p after rfl
    obtain ⟨t, hbefore, hrest⟩ := hrun.exists_of_append
    have hle : totalFailures before ≤ totalFailures (before ++ p :: after) := by
      simp only [totalFailures, List.countP_append]
      omega
    cases hrest with
    | cons step rest =>
      exact ⟨((counted hbefore).1 _).2, failures_of_within hbefore hfresh (Nat.lt_of_le_of_lt hle hfew)⟩
  refine ⟨fun i hi => ?_, ?_, fun p hp hchecked => ?_⟩
  · refine countP_le_of_lt (fun p hp => (?_ : (decide (p.2.1 = i) && failed p.1 p.2) = true)) steps ?_
    · simp only [unreachable, Bool.and_eq_true] at hp ⊢
      exact ⟨hp.1, hp.2.1⟩
    · intro before p after he hp
      obtain ⟨hstrategy, hlimit⟩ := hstep before p after he
      simp only [Bool.and_eq_true, decide_eq_true_eq] at hp
      obtain ⟨rfl, hp⟩ := hp
      exact (hlimit (within_of_unreachable (hstrategy.trans hi) hp)).1
  · refine countP_le_of_lt (fun p hp => (?_ : failed p.1 p.2 = true)) steps ?_
    · simp only [unreachable, Bool.and_eq_true] at hp
      exact hp.2.1
    · intro before p after he hp
      obtain ⟨hstrategy, hlimit⟩ := hstep before p after he
      simp only [Bool.and_eq_true, decide_eq_true_eq] at hp
      exact (hlimit (within_of_unreachable (hstrategy.trans hp.1) hp.2)).2
  · obtain ⟨before, after, he⟩ := List.append_of_mem hp
    exact unreachable_of_checked ((hstep before p after he).1.trans hchecked)

/-- One optimistic connector, to an end point that is not there. -/
def oneOptimistic : Connectors Unit :=
  { connectors := fun _ => ⟨some "localhost".toList, 9001, some [], .checkedOptimistic, 0⟩ }

/-- A refused connection that no socket reaches. -/
def noEndPoint : Attempt := ⟨.ok false, .ok false, []⟩

theorem unreachable_le_five :
    (stepsOf (fun s e => (connect e.1 e.2).left s) oneOptimistic (List.replicate 5 ((), noEndPoint))).countP
      (fun p => decide (p.2.1 = ()) && unreachable p) ≤ 3 := by
  have hrun := Run.of_next (fun s e => (rfl : Step s e ((connect e.1 e.2).left s))) oneOptimistic
    (List.replicate 5 ((), noEndPoint))
  exact (unreachable_le hrun ⟨fun _ => rfl, rfl⟩ (by decide)).1 () rfl

end Failures

/-! ### Grace -/

section Grace

open ConnectionThreadTracker

variable {ι : Type} [DecidableEq ι]

/-- What all the scans of some calls have met. -/
def scans (steps : List (Connectors ι × ι × Attempt)) : List (Int32 × Sighting) :=
  steps.flatMap fun p => scanned p.1 p.2

theorem explains_connect {history : List (Int32 × Sighting)} {s t : Connectors ι} {e : ι × Attempt} (step : Step s e t)
    (h : Explains history s.tracking) : Explains (history ++ scanned s e) t.tracking := by
  rw [Step, left_connect] at step
  subst step
  unfold scanned
  cases hfailed : failed s e with
  | false =>
    have hnone : (match (s.connectors e.1).connectionStrategy.allowWaitSecs with
        | some secs => if false = true then e.2.threads.map (secs, ·) else []
        | none => []) = [] := by
      cases (s.connectors e.1).connectionStrategy.allowWaitSecs <;> rfl
    rw [hnone, List.append_nil]
    exact h
  | true =>
    rw [if_pos rfl, afterFailure]
    cases (s.connectors e.1).connectionStrategy.allowWaitSecs with
    | none =>
      rw [List.append_nil]
      exact h
    | some secs => exact explains_reclaimWaiting e.2.threads h

theorem explains_run {s u : Connectors ι} {steps : List (Connectors ι × ι × Attempt)} (hrun : Run Step s steps u) :
    ∀ {history : List (Int32 × Sighting)}, Explains history s.tracking →
      Explains (history ++ scans steps) u.tracking := by
  induction hrun with
  | nil s =>
    intro history h
    simpa [scans] using h
  | @cons s t u e steps step rest ih =>
    intro history h
    have hrest := ih (explains_connect step h)
    simpa [scans] using hrest

/-- What the clock says in seconds, it says in milliseconds. -/
theorem waited_of_secs {c now : Int64} (hc : 0 ≤ c.toInt) (hnow : 0 ≤ now.toInt)
    (h : allowWaitSecs.toInt64 ≤ (now - c) / 1000) : c.toInt + 60000 ≤ now.toInt := by
  have hsub : (now - c).toInt = now.toInt - c.toInt := by
    have hlt := now.toInt_lt
    have hlt' := c.toInt_lt
    rw [Int64.toInt_sub, Int.bmod_eq_of_le (by omega) (by omega)]
  rw [Int64.le_iff_toInt_le, Int64.toInt_div_of_ne_right _ _ (by decide), hsub] at h
  have hsecs : allowWaitSecs.toInt64.toInt = 60 := by decide
  have hthousand : (1000 : Int64).toInt = 1000 := by decide
  rw [hsecs, hthousand] at h
  rcases Int.le_total 0 (now.toInt - c.toInt) with hpos | hneg
  · rw [Int.tdiv_eq_ediv_of_nonneg hpos] at h
    omega
  · have hnonneg : 0 ≤ (c.toInt - now.toInt).tdiv 1000 := Int.tdiv_nonneg (by omega) (by omega)
    have hflip : now.toInt - c.toInt = -(c.toInt - now.toInt) := by omega
    rw [hflip, Int.neg_tdiv] at h
    omega

/-- **Grace**: a thread that a scan of a conservative connector finds waiting and
interrupts was found waiting a minute before, and by every scan since that met
it, whichever connector made it, but for those that failed to end it. -/
theorem graced {s last : Connectors ι} {before after : List (Connectors ι × ι × Attempt)}
    {p : Connectors ι × ι × Attempt} (hrun : Run Step s (before ++ p :: after) last) (hnew : s.tracking = {})
    {pre post : List Sighting} {x : Sighting} (hfailed : failed p.1 p.2 = true)
    (hstrategy : (p.1.connectors p.2.1).connectionStrategy = .managedConservative)
    (hthreads : p.2.2.threads = pre ++ x :: post) (hclass : x.className = jobExecutor) (hwaiting : x.waiting = true)
    (hinterrupted : (sight allowWaitSecs x (reclaimWaiting allowWaitSecs pre p.1.tracking)).interrupted ≠
      (reclaimWaiting allowWaitSecs pre p.1.tracking).interrupted)
    (hclock : ∀ e ∈ scans before ++ scanned p.1 p.2, 0 ≤ e.2.put.toInt ∧ 0 ≤ e.2.second.toInt) :
    ∃ b e a, scans before ++ pre.map (allowWaitSecs, ·) ++ [(allowWaitSecs, x)] = b ++ e :: a ∧
      e.2.threadId = x.threadId ∧ Waits e ∧ e.2.put.toInt + 60000 ≤ x.second.toInt ∧ ∀ e' ∈ a, Passes x.threadId e' := by
  obtain ⟨t, hbefore, hrest⟩ := hrun.exists_of_append
  have hsame : p.1 = t := by
    cases hrest with
    | cons step rest => rfl
  have hempty : Explains [] s.tracking := by
    rw [hnew]
    intro t c ht
    cases ht
  have hhistory := explains_run hbefore hempty
  rw [List.nil_append, ← hsame] at hhistory
  have hscanned : scanned p.1 p.2 = p.2.2.threads.map (allowWaitSecs, ·) := by
    simp [scanned, hstrategy, ConnectionStrategy.allowWaitSecs, hfailed]
  obtain ⟨c, ⟨b, e, a, he, hid, hwaits, hput, hpasses⟩, hsecs⟩ :=
    graced_sight (explains_reclaimWaiting pre hhistory) (x := x) ⟨hclass, by simp [hwaiting]; decide⟩ hinterrupted
  refine ⟨b, e, a, he, hid, hwaits, ?_, hpasses⟩
  have hmem : ∀ e ∈ scans before ++ pre.map (allowWaitSecs, ·) ++ [(allowWaitSecs, x)],
      e ∈ scans before ++ scanned p.1 p.2 := by
    intro e he
    simp only [hscanned, hthreads, List.map_append, List.map_cons, List.mem_append, List.mem_cons, List.not_mem_nil,
      or_false] at he ⊢
    tauto
  have hin : e ∈ scans before ++ pre.map (allowWaitSecs, ·) ++ [(allowWaitSecs, x)] := by simp [he]
  rw [hput]
  apply waited_of_secs
  · exact hput ▸ (hclock e (hmem e hin)).1
  · exact (hclock _ (hmem (allowWaitSecs, x) (by simp))).2
  · exact hsecs

/-- One conservative connector, to an end point that is not there. -/
def oneConservative : Connectors Unit :=
  { connectors := fun _ => ⟨some "localhost".toList, 9001, some [], .managedConservative, 0⟩ }

/-- A thread that waits, at this time. -/
def waitingAt (time : Int64) : Sighting := ⟨7, jobExecutor, true, time, time, time, true, .ok (), false, .ok ()⟩

def refusedAt (time : Int64) : Attempt := ⟨.ok false, .ok false, [waitingAt time]⟩

/-- The second scan, a minute after the first, interrupts the thread. -/
theorem graced_minute : ∃ b e a, scans [(oneConservative, (), refusedAt 0)] ++ [].map (allowWaitSecs, ·) ++
      [(allowWaitSecs, waitingAt 60000)] = b ++ e :: a ∧ e.2.threadId = 7 ∧ Waits e ∧
      e.2.put.toInt + 60000 ≤ (60000 : Int64).toInt ∧ ∀ e' ∈ a, Passes 7 e' := by
  have hrun : Run Step oneConservative ([(oneConservative, (), refusedAt 0)] ++
      ((connect () (refusedAt 0)).left oneConservative, (), refusedAt 60000) :: []) _ :=
    Run.of_next (fun s e => (rfl : Step s e ((connect e.1 e.2).left s))) oneConservative
      [((), refusedAt 0), ((), refusedAt 60000)]
  have hthreads : (refusedAt 60000).threads = [] ++ waitingAt 60000 :: [] := rfl
  exact graced hrun rfl (by decide) rfl hthreads rfl rfl (by decide) (by decide)

end Grace

end Connectors

end Plethora
