/-
# Initializing a C++ agent

`Plethora::initPlethora` looks at `channel` without the mutex and again with it,
and makes a channel of the given file if there is none. What it returns is
whether there is a channel, which says nothing of the file.

So threads that call it, each with a file of its own and as often as it likes,
get one channel, and the metrics are those of the file that was read first:
every other file is left unread (`initPlethora_once`). The accesses to `channel`
are taken to be atomic.

Key definitions: `Cpp.Initializing`, `Cpp.InitStep`, `Cpp.channelsMade`.
Key theorems: `initOnce`, `initPlethora_once`.
-/
import Plethora.Agents.CppDeclared
import Plethora.Lib.Once

namespace Plethora

namespace Cpp

/-- The fields of `Plethora`, the metrics of the program, and where each thread
stands in `initPlethora`. -/
structure Initializing (ι : Type) where
  channel : Option ChannelState
  metrics : Store
  mutex : Option ι
  place : ι → Once.Place

inductive InitAction
  | look
  | lock
  | lookAgain
  /-- With what `readFile` gives for the thread's file. -/
  | create (config : Option Autil.Block)
  | unlock
  | answer (initialized : Bool)

def InitAction.isCreate : InitAction → Bool
  | .create _ => true
  | _ => false

section Steps

variable {ι : Type} [DecidableEq ι]

def Initializing.move (s : Initializing ι) (i : ι) (p : Once.Place) : Initializing ι :=
  { s with place := Function.update s.place i p }

/-- What one thread does next. -/
inductive InitStep : Initializing ι → ι × InitAction → Initializing ι → Prop
  | look {s : Initializing ι} {i : ι} (hi : s.place i = .away) :
      InitStep s (i, .look) (s.move i (if s.channel.isSome then .past else .waiting))
  | lock {s : Initializing ι} {i : ι} (hi : s.place i = .waiting) (hfree : s.mutex = none) :
      InitStep s (i, .lock) { s.move i .inside with mutex := some i }
  | lookAgain {s : Initializing ι} {i : ι} (hi : s.place i = .inside) :
      InitStep s (i, .lookAgain) (s.move i (if s.channel.isSome then .leaving else .filling))
  | create {s : Initializing ι} {i : ι} {config : Option Autil.Block} {c : ChannelState} (hi : s.place i = .filling)
      (hc : newChannel config s.metrics = some c) :
      InitStep s (i, .create config) { s.move i .leaving with channel := some c, metrics := c.metrics }
  | unlock {s : Initializing ι} {i : ι} (hi : s.place i = .leaving) :
      InitStep s (i, .unlock) { s.move i .past with mutex := none }
  | answer {s : Initializing ι} {i : ι} (hi : s.place i = .past) :
      InitStep s (i, .answer s.channel.isSome) (s.move i .away)

def initStart (metrics : Store) : Initializing ι :=
  { channel := none, metrics, mutex := none, place := fun _ => .away }

/-! ### The channel is a slot that is filled once -/

def Initializing.once (s : Initializing ι) : Once.State ι :=
  { filled := s.channel.isSome, lock := s.mutex, place := s.place }

def InitAction.once : InitAction → Once.Action
  | .look => .look
  | .lock => .acquire
  | .lookAgain => .recheck
  | .create _ => .fill
  | .unlock => .release
  | .answer _ => .back

theorem initOnce : Simulates (InitStep (ι := ι)) Once.Step Initializing.once fun e => some (e.1, e.2.once) := by
  intro s e t hstep
  cases hstep with
  | look hi => exact Once.Step.look (s := s.once) hi
  | lock hi hfree => exact Once.Step.acquire (s := s.once) hi hfree
  | lookAgain hi => exact Once.Step.recheck (s := s.once) hi
  | create hi hc => exact Once.Step.fill (s := s.once) hi
  | unlock hi => exact Once.Step.release (s := s.once) hi
  | answer hi => exact Once.Step.back (s := s.once) hi

/-- How many channels are made in a run. -/
def channelsMade (steps : List (Initializing ι × ι × InitAction)) : ℕ := steps.countP (·.2.2.isCreate)

omit [DecidableEq ι] in
theorem channelsMade_eq (steps : List (Initializing ι × ι × InitAction)) :
    channelsMade steps = Once.fills (seen Initializing.once (fun e => some (e.1, e.2.once)) steps) := by
  rw [Once.fills, seen, List.countP_filterMap, channelsMade]
  refine List.countP_congr fun p _ => ?_
  obtain ⟨s, i, action⟩ := p
  cases action <;> simp [InitAction.isCreate, InitAction.once]

/-! ### Runs -/

/-- Without a channel the metrics are those of the start, and with one its own. -/
structure InitInv (metrics : Store) (s : Initializing ι) : Prop where
  once : Once.Inv s.once
  untouched : s.channel = none → s.metrics = metrics
  channel : ∀ c, s.channel = some c → s.metrics = c.metrics

omit [DecidableEq ι] in
theorem initInv_start (metrics : Store) : InitInv metrics (initStart metrics : Initializing ι) where
  once := Once.inv_start
  untouched _ := rfl
  channel _ h := by cases h

theorem initInv_step {metrics : Store} {s t : Initializing ι} {e : ι × InitAction} (hstep : InitStep s e t)
    (h : InitInv metrics s) : InitInv metrics t := by
  have honce : Once.Inv t.once := Once.inv_step (initOnce _ _ _ hstep) h.once
  cases hstep with
  | create hi hc => exact ⟨honce, fun hnone => (by cases hnone), fun c hc => by cases hc; rfl⟩
  | _ => exact ⟨honce, h.untouched, h.channel⟩

theorem answered {s t : Initializing ι} {i : ι} {b : Bool} (hstep : InitStep s (i, .answer b) t) :
    s.place i = .past ∧ b = s.channel.isSome := by
  cases hstep with
  | answer hi => exact ⟨hi, rfl⟩

/-- A channel that is there stays. -/
theorem channel_of_run {metrics : Store} {s u : Initializing ι} {steps : List (Initializing ι × ι × InitAction)}
    (hrun : Run InitStep s steps u) {c : ChannelState} : InitInv metrics s → s.channel = some c → u.channel = some c := by
  induction hrun with
  | nil => exact fun _ hc => hc
  | @cons s t u e steps step rest ih =>
    intro h hc
    refine ih (initInv_step step h) ?_
    cases step with
    | @create i config c' hi hc' =>
      -- a thread that is making a channel has found none
      have hempty : s.channel.isSome = false := h.once.empty i hi
      rw [hc] at hempty
      cases hempty
    | _ => exact hc

/-- **One channel**: however many threads initialize the agent, however often
and with whatever files, at most one channel is made, every call is told that
there is one, and the agent is left as the first file that was read makes it. -/
theorem initPlethora_once {metrics : Store} {u : Initializing ι} {steps : List (Initializing ι × ι × InitAction)}
    (hrun : Run InitStep (initStart metrics) steps u) :
    channelsMade steps ≤ 1 ∧ (∀ p ∈ steps, ∀ b, p.2.2 = .answer b → b = true) ∧
      ∀ p ∈ steps, ∀ config, p.2.2 = .create config →
        u.channel = newChannel config metrics ∧ ∀ c, u.channel = some c → u.metrics = c.metrics := by
  have hinv : Throughout (InitInv metrics) steps u :=
    hrun.throughout (fun _ _ _ step hi => initInv_step step hi) (initInv_start metrics)
  refine ⟨?_, ?_, ?_⟩
  · rw [channelsMade_eq]
    exact Once.fills_le_one (hrun.simulates initOnce) Once.inv_start
  · rintro ⟨s, i, action⟩ hp b hb
    obtain ⟨t, hstep⟩ := hrun.step_of_mem hp
    obtain rfl : action = .answer b := hb
    obtain ⟨hi, hb⟩ := answered hstep
    exact hb.trans ((hinv.1 _ hp).once.full i (.inr hi))
  · rintro ⟨s, i, action⟩ hp config rfl
    obtain ⟨before, after, rfl⟩ := List.append_of_mem hp
    obtain ⟨s', -, hrest⟩ := hrun.exists_of_append
    cases hrest with
    | cons step rest =>
      have hs := hinv.1 _ hp
      cases step with
      | @create i _ c hi hc =>
        have hempty : s.channel = none := Option.not_isSome_iff_eq_none.mp (by simp [← hs.once.empty i hi, Initializing.once])
        have hmetrics : s.metrics = metrics := hs.untouched hempty
        have hu := channel_of_run rest (initInv_step (.create hi hc) hs) rfl
        rw [hmetrics] at hc
        exact ⟨hu.trans hc.symm, hinv.2.channel⟩

/-- A thread without a file comes first, and the one after it waits: its file is
not read. -/
theorem initPlethora_once_two : ∃ u steps, Run (InitStep (ι := Bool)) (initStart ⟨[], .nil⟩) steps u ∧
    channelsMade steps ≤ 1 ∧ (∃ p ∈ steps, p.2 = (false, .answer true)) ∧ u.channel = newChannel none ⟨[], .nil⟩ := by
  have hrun : ∃ u steps, Run (InitStep (ι := Bool)) (initStart ⟨[], .nil⟩) steps u ∧
      (∃ p ∈ steps, p.2 = (true, .create none)) ∧ ∃ p ∈ steps, p.2 = (false, .answer true) := by
    refine ⟨_, _, .cons (.look (i := true) rfl) (.cons (.look (i := false) rfl) (.cons (.lock (i := true) rfl rfl)
      (.cons (.lookAgain (i := true) rfl)
        (.cons (.create (i := true) rfl (show newChannel none _ = some _ from rfl)) (.cons (.unlock (i := true) rfl)
        (.cons (.lock (i := false) rfl rfl) (.cons (.lookAgain (i := false) rfl) (.cons (.unlock (i := false) rfl)
          (.cons (.answer (i := false) rfl) (.nil _)))))))))), ?_, ?_⟩
    · exact ⟨_, .tail _ (.tail _ (.tail _ (.tail _ (.head _)))), rfl⟩
    · exact ⟨_, .tail _ (.tail _ (.tail _ (.tail _ (.tail _ (.tail _ (.tail _ (.tail _ (.tail _ (.head _))))))))), rfl⟩
  obtain ⟨u, steps, hrun, ⟨p, hp, hpe⟩, hanswer⟩ := hrun
  obtain ⟨hmade, -, hchannel⟩ := initPlethora_once hrun
  exact ⟨u, steps, hrun, hmade, hanswer, (hchannel p hp _ (by rw [hpe])).1⟩

end Steps

end Cpp

end Plethora
