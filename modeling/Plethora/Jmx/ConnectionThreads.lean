/-
# The threads that connection attempts leave behind

`ConnectionThreadTracker.reclaimWaiting` goes over all threads and ends those of
the JMX client that wait: it interrupts them, and stops them where they still
wait. With a grace period, one that waits is let be until it has waited that
long; `TIME_KEEPER` has the time of the first scan that found it waiting. A scan
that does not let a thread be forgets its time, and so does one that finds it
not waiting.

So a thread that a scan finds waiting and interrupts has been found waiting a
grace period before, and by every scan since that met it (`graced_sight`).

Key definitions: `Sighting`, `ConnectionThreadTracker.forceThreadStop`,
`ConnectionThreadTracker.reclaimWaiting`, `ConnectionThreadTracker.Explains`.
Key theorems: `explains_sight`, `graced_sight`.
-/
import Plethora.Common.Java
import Plethora.Lib.Effects

namespace Plethora

/-- What a scan meets of a thread: its state each time it is read, the clock each
time it is read, and how the calls of the thread come out. -/
structure Sighting where
  threadId : Int64
  className : Text
  waiting : Bool
  /-- When the wait is put into `TIME_KEEPER`. -/
  put : Int64
  /-- The clock of the two calls of `trackedWaitingTimeSecs`. -/
  first : Int64
  second : Int64
  stillWaiting : Bool
  interrupt : Except JavaError Unit
  waitingAfter : Bool
  stop : Except JavaError Unit

namespace ConnectionThreadTracker

/-- `TIME_KEEPER`, and the threads that were interrupted and stopped. -/
structure Tracking where
  timeKeeper : Int64 → Option Int64 := fun _ => none
  interrupted : List Int64 := []
  stopped : List Int64 := []

abbrev Track := Eff JavaError Tracking

def trackedWaitingTimeSecs (threadId put now : Int64) : Track Int64 := do
  let s ← Eff.get
  match s.timeKeeper threadId with
  | some since => return (now - since) / 1000
  | none => do
    Eff.modify fun s => { s with timeKeeper := Function.update s.timeKeeper threadId (some put) }
    return 0

def resetTrackedWaitingTime (threadId : Int64) : Track Unit :=
  Eff.modify fun s => { s with timeKeeper := Function.update s.timeKeeper threadId none }

/-- The thread is within its grace period. -/
def allowed (allowedWaitSecs : Int32) (x : Sighting) : Track Bool :=
  if x.waiting && 0 < allowedWaitSecs then do
    let _ ← trackedWaitingTimeSecs x.threadId x.put x.first
    let waitingTimeSecs ← trackedWaitingTimeSecs x.threadId x.put x.second
    return waitingTimeSecs < allowedWaitSecs.toInt64
  else return false

def endThread (x : Sighting) : Track Unit := do
  if x.stillWaiting then do
    Eff.modify fun s => { s with interrupted := s.interrupted ++ [x.threadId] }
    Eff.lift x.interrupt
  if x.waitingAfter then do
    Eff.modify fun s => { s with stopped := s.stopped ++ [x.threadId] }
    Eff.lift x.stop

def forceThreadStop (allowedWaitSecs : Int32) (x : Sighting) : Track Unit := do
  if ← allowed allowedWaitSecs x then
    return ()
  else do
    endThread x
    resetTrackedWaitingTime x.threadId

/-- The class of the threads that are collected. -/
def jobExecutor : Text := "com.sun.jmx.remote.opt.util.JobExecutor".toList

/-- One turn of the loop of `reclaimWaiting`. What is thrown is caught. -/
def sight (allowedWaitSecs : Int32) (x : Sighting) (s : Tracking) : Tracking :=
  if x.className = jobExecutor then (forceThreadStop allowedWaitSecs x).left s else s

def reclaimWaiting (allowedWaitSecs : Int32) (threads : List Sighting) (s : Tracking) : Tracking :=
  threads.foldl (fun s x => sight allowedWaitSecs x s) s

/-! ### What a scan does to a thread -/

section Sights

variable (allowedWaitSecs : Int32) (x : Sighting) (s : Tracking)

/-- The scan finds the thread waiting, and there is a grace period. -/
def Waits (e : Int32 × Sighting) : Prop := e.2.className = jobExecutor ∧ (e.2.waiting && 0 < e.1) = true

/-- Ending the thread throws. -/
def fails : Bool := (x.stillWaiting && !x.interrupt.isOk) || (x.waitingAfter && !x.stop.isOk)

/-- Since when the thread has waited, as far as the scans know. -/
def since : Int64 := (s.timeKeeper x.threadId).getD x.put

/-- The wait is in `TIME_KEEPER`. -/
def noted : Tracking :=
  { s with timeKeeper := Function.update s.timeKeeper x.threadId (some (since x s)) }

/-- The thread is let be. -/
def Graced : Prop :=
  (x.waiting && 0 < allowedWaitSecs) = true ∧ (x.second - since x s) / 1000 < allowedWaitSecs.toInt64

instance : Decidable (Graced allowedWaitSecs x s) := inferInstanceAs (Decidable (_ ∧ _))

/-- The times that are known before a thread is ended. -/
def known : Tracking := if x.waiting && 0 < allowedWaitSecs then noted x s else s

/-- The thread, if it is interrupted. -/
def ended : List Int64 := if x.stillWaiting then [x.threadId] else []

theorem noted_self : (noted x s).timeKeeper x.threadId = some (since x s) := by simp [noted]

theorem tracked_noted (now : Int64) : trackedWaitingTimeSecs x.threadId x.put now (noted x s) =
    .returned ((now - since x s) / 1000) (noted x s) := by
  rw [trackedWaitingTimeSecs, Eff.bind_apply, Eff.get]
  simp only [noted_self]
  rfl

theorem tracked_eq (now : Int64) : ∃ secs, trackedWaitingTimeSecs x.threadId x.put now s = .returned secs (noted x s) := by
  rw [trackedWaitingTimeSecs, Eff.bind_apply, Eff.get]
  cases hs : s.timeKeeper x.threadId with
  | none =>
    have hnoted : noted x s = { s with timeKeeper := Function.update s.timeKeeper x.threadId (some x.put) } := by
      simp [noted, since, hs]
    exact ⟨0, by simp only [hs, hnoted]; rfl⟩
  | some c =>
    have hnoted : noted x s = s := by
      rw [noted, since, hs, Option.getD_some, ← hs, Function.update_eq_self]
    exact ⟨(now - c) / 1000, by simp only [hs, hnoted]; rfl⟩

theorem allowed_eq : allowed allowedWaitSecs x s =
    .returned (decide (Graced allowedWaitSecs x s)) (known allowedWaitSecs x s) := by
  unfold allowed known
  by_cases h : (x.waiting && 0 < allowedWaitSecs) = true
  · obtain ⟨secs, hfirst⟩ := tracked_eq x s x.first
    rw [if_pos h, if_pos h, Eff.bind_apply, hfirst]
    simp only [Eff.bind_apply, tracked_noted]
    have hgraced : Graced allowedWaitSecs x s ↔ (x.second - since x s) / 1000 < allowedWaitSecs.toInt64 := by
      simp [Graced, h]
    simp only [hgraced]
    rfl
  · have hgraced : ¬ Graced allowedWaitSecs x s := fun hg => h hg.1
    rw [if_neg h, if_neg h]
    simp only [hgraced]
    rfl

theorem endThread_eq : ∃ stopped e, endThread x s =
    if fails x then .thrown e { s with interrupted := s.interrupted ++ ended x, stopped }
    else .returned () { s with interrupted := s.interrupted ++ ended x, stopped } := by
  obtain ⟨threadId, className, waiting, put, first, second, stillWaiting, interrupt, waitingAfter, stop⟩ := x
  have hnone : s.interrupted ++ [] = s.interrupted := List.append_nil _
  cases stillWaiting with
  | true =>
    cases interrupt with
    | error e => exact ⟨s.stopped, e, rfl⟩
    | ok u =>
      cases waitingAfter with
      | false => exact ⟨s.stopped, .nullPointer, rfl⟩
      | true =>
        cases stop with
        | error e => exact ⟨_, e, rfl⟩
        | ok u => exact ⟨_, .nullPointer, rfl⟩
  | false =>
    simp only [ended, Bool.false_eq_true, if_false, hnone]
    cases waitingAfter with
    | false => exact ⟨s.stopped, .nullPointer, rfl⟩
    | true =>
      cases stop with
      | error e => exact ⟨_, e, rfl⟩
      | ok u => exact ⟨_, .nullPointer, rfl⟩

/-- **What a scan does to a thread** of the client: it lets it be, or interrupts
it if it still waits, and forgets its time unless ending it has failed. -/
theorem sight_eq (hclass : x.className = jobExecutor) : ∃ stopped, sight allowedWaitSecs x s =
    if Graced allowedWaitSecs x s then known allowedWaitSecs x s
    else
      { timeKeeper :=
          if fails x then (known allowedWaitSecs x s).timeKeeper
          else Function.update (known allowedWaitSecs x s).timeKeeper x.threadId none
        interrupted := s.interrupted ++ ended x, stopped } := by
  have hknown : (known allowedWaitSecs x s).interrupted = s.interrupted := by
    unfold known
    split <;> rfl
  rw [sight, if_pos hclass, Eff.left, forceThreadStop, Eff.bind_apply, allowed_eq]
  by_cases hgraced : Graced allowedWaitSecs x s
  · refine ⟨[], ?_⟩
    simp only [hgraced, decide_true, if_true]
    rfl
  · obtain ⟨stopped, e, hend⟩ := endThread_eq x (known allowedWaitSecs x s)
    refine ⟨stopped, ?_⟩
    simp only [hgraced, decide_false, if_false, Bool.false_eq_true, Eff.bind_apply, hend, hknown]
    cases fails x <;> rfl

end Sights

/-! ### What the known times mean -/

/-- The scan of another thread, or one that does not forget. -/
def Passes (t : Int64) (e : Int32 × Sighting) : Prop :=
  e.2.threadId = t → e.2.className = jobExecutor → Waits e ∨ fails e.2 = true

/-- The sighting of this thread that began its wait, and what the scans have met
since. -/
def Began (history : List (Int32 × Sighting)) (t : Int64) (c : Int64) : Prop :=
  ∃ before e after, history = before ++ e :: after ∧ e.2.threadId = t ∧ Waits e ∧ e.2.put = c ∧ ∀ e' ∈ after, Passes t e'

/-- Each time in `TIME_KEEPER` is that of a wait. -/
def Explains (history : List (Int32 × Sighting)) (s : Tracking) : Prop :=
  ∀ t c, s.timeKeeper t = some c → Began history t c

theorem Began.append {history : List (Int32 × Sighting)} {t c : Int64} {e : Int32 × Sighting} (h : Began history t c)
    (he : Passes t e) : Began (history ++ [e]) t c := by
  obtain ⟨before, e₀, after, rfl, hid, hwaits, hput, hafter⟩ := h
  refine ⟨before, e₀, after ++ [e], by simp, hid, hwaits, hput, fun e' he' => ?_⟩
  rcases List.mem_append.mp he' with he' | he'
  · exact hafter e' he'
  · exact List.mem_singleton.mp he' ▸ he

variable {history : List (Int32 × Sighting)} {s : Tracking} {allowedWaitSecs : Int32} {x : Sighting}

/-- What is known of a thread that waits. -/
theorem began_since (h : Explains history s) (hwaits : Waits (allowedWaitSecs, x)) :
    Began (history ++ [(allowedWaitSecs, x)]) x.threadId (since x s) := by
  cases hs : s.timeKeeper x.threadId with
  | none =>
    refine ⟨history, (allowedWaitSecs, x), [], rfl, rfl, hwaits, ?_, by simp⟩
    simp [since, hs]
  | some c =>
    have hsince : since x s = c := by simp [since, hs]
    rw [hsince]
    exact (h _ _ hs).append fun _ _ => Or.inl hwaits

/-- **The times stay those of waits.** -/
theorem explains_sight (h : Explains history s) : Explains (history ++ [(allowedWaitSecs, x)]) (sight allowedWaitSecs x s) := by
  intro t c ht
  by_cases hclass : x.className = jobExecutor
  · obtain ⟨stopped, hsight⟩ := sight_eq allowedWaitSecs x s hclass
    by_cases hid : x.threadId = t
    · subst hid
      have hcase : (known allowedWaitSecs x s).timeKeeper x.threadId = some c ∧
          (Graced allowedWaitSecs x s ∨ fails x = true) := by
        rw [hsight] at ht
        by_cases hgraced : Graced allowedWaitSecs x s
        · exact ⟨by simpa [hgraced] using ht, Or.inl hgraced⟩
        · cases hfails : fails x with
          | true => exact ⟨by simpa [hgraced, hfails] using ht, Or.inr rfl⟩
          | false => simp [hgraced, hfails] at ht
      obtain ⟨hknown, hkept⟩ := hcase
      by_cases hwait : (x.waiting && 0 < allowedWaitSecs) = true
      · rw [known, if_pos hwait, noted_self] at hknown
        rw [← Option.some.inj hknown]
        exact began_since h ⟨hclass, hwait⟩
      · rw [known, if_neg hwait] at hknown
        refine (h _ _ hknown).append fun _ _ => ?_
        rcases hkept with hgraced | hfails
        · exact absurd hgraced.1 hwait
        · exact Or.inr hfails
    · have hsame : (sight allowedWaitSecs x s).timeKeeper t = s.timeKeeper t := by
        have hother : (known allowedWaitSecs x s).timeKeeper t = s.timeKeeper t := by
          unfold known
          split
          · simp [noted, Function.update_of_ne (Ne.symm hid)]
          · rfl
        rw [hsight]
        split
        · exact hother
        · dsimp only
          split
          · exact hother
          · rw [Function.update_of_ne (Ne.symm hid), hother]
      exact (h t c (hsame ▸ ht)).append fun he => absurd he hid
  · rw [sight, if_neg hclass] at ht
    exact (h t c ht).append fun _ he => absurd he hclass

theorem explains_reclaimWaiting (threads : List Sighting) : ∀ {history : List (Int32 × Sighting)} {s : Tracking},
    Explains history s →
      Explains (history ++ threads.map (allowedWaitSecs, ·)) (reclaimWaiting allowedWaitSecs threads s) := by
  induction threads with
  | nil => simp [reclaimWaiting]
  | cons x threads ih =>
    intro history s h
    have hfirst : Explains (history ++ [(allowedWaitSecs, x)]) (sight allowedWaitSecs x s) := explains_sight h
    simpa [reclaimWaiting] using ih hfirst

/-- **Grace**: a thread that is found waiting and interrupted has been found
waiting that long before, and by every scan since that met it, but for those
that failed to end it. -/
theorem graced_sight (h : Explains history s) (hwaits : Waits (allowedWaitSecs, x))
    (hinterrupted : (sight allowedWaitSecs x s).interrupted ≠ s.interrupted) :
    ∃ c, Began (history ++ [(allowedWaitSecs, x)]) x.threadId c ∧ allowedWaitSecs.toInt64 ≤ (x.second - c) / 1000 := by
  refine ⟨since x s, began_since h hwaits, ?_⟩
  obtain ⟨stopped, hsight⟩ := sight_eq allowedWaitSecs x s hwaits.1
  by_contra hlt
  have hgraced : Graced allowedWaitSecs x s := ⟨hwaits.2, Int64.not_le.mp hlt⟩
  rw [hsight, if_pos hgraced] at hinterrupted
  apply hinterrupted
  unfold known
  split <;> rfl

end ConnectionThreadTracker

end Plethora
