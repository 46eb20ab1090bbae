/-
# Runs of a labelled transition system

A run is a chain of steps from a state, kept as the events with the states
they happened in. An invariant is checked step by step: if steps that meet a
condition keep it, it holds throughout a run whose steps all do
(`Run.invariant`); and where a step keeps it exactly if it meets the
condition, the invariant holds throughout exactly if every step does
(`Run.invariant_iff`).

A system simulates another one if each step of the first is a step of the
second or changes nothing there; its runs are then runs of the second
(`Run.simulates`), also if each step does so only while an invariant holds
(`Run.simulates_of_inv`).

Where an event happens only as long as few others have, it happens as often at
most (`countP_le_of_lt`).

Key definitions: `Run`, `Throughout`, `stepsOf`, `Matched`, `Simulates`, `seen`, `total`.
Key theorems: `Run.of_next`, `Run.invariant`, `Run.throughout`, `Run.invariant_iff`, `Run.exists_of_append`,
`Run.total_eq`, `Run.simulates`, `Run.simulates_of_inv`, `countP_le_of_lt`.
-/
import Mathlib.Data.List.Induction
import Mathlib.Tactic.Common

variable {σ ε : Type}

/-- A run, with the state before each step. -/
inductive Run (Step : σ → ε → σ → Prop) : σ → List (σ × ε) → σ → Prop
  | nil (s : σ) : Run Step s [] s
  | cons {s t u : σ} {e : ε} {steps : List (σ × ε)} (step : Step s e t) (rest : Run Step t steps u) :
      Run Step s ((s, e) :: steps) u

/-- In every state a run comes to, the first and the last included. -/
def Throughout (Inv : σ → Prop) (steps : List (σ × ε)) (last : σ) : Prop :=
  (∀ p ∈ steps, Inv p.1) ∧ Inv last

/-- The events with the state before each, where `next` is the state after one. -/
def stepsOf (next : σ → ε → σ) : σ → List ε → List (σ × ε)
  | _, [] => []
  | s, e :: events => (s, e) :: stepsOf next (next s e) events

theorem stepsOf_concat (next : σ → ε → σ) (e : ε) : ∀ (s : σ) (events : List ε),
    stepsOf next s (events ++ [e]) = stepsOf next s events ++ [(events.foldl next s, e)]
  | _, [] => rfl
  | s, e' :: events => congrArg ((s, e') :: ·) (stepsOf_concat next e (next s e') events)

/-- The step is one of the system seen through `view`, or none there. -/
def Matched {σ' ε' : Type} (Step' : σ' → ε' → σ' → Prop) (view : σ → σ') (event : ε → Option ε') (s : σ) (e : ε)
    (t : σ) : Prop :=
  match event e with
  | none => view t = view s
  | some e' => Step' (view s) e' (view t)

/-- Each step is matched in the other system. -/
def Simulates {σ' ε' : Type} (Step : σ → ε → σ → Prop) (Step' : σ' → ε' → σ' → Prop) (view : σ → σ')
    (event : ε → Option ε') : Prop :=
  ∀ s e t, Step s e t → Matched Step' view event s e t

/-- The steps of a run that are seen in the other system. -/
def seen {σ' ε' : Type} (view : σ → σ') (event : ε → Option ε') (steps : List (σ × ε)) : List (σ' × ε') :=
  steps.filterMap fun p => (event p.2).map (view p.1, ·)

/-- What the events of a run come to, each counted as `w` says. -/
def total (w : ε → Int) : List (σ × ε) → Int
  | [] => 0
  | p :: steps => w p.2 + total w steps

namespace Run

/-- A run of these events, one after the other. -/
theorem of_next {Step : σ → ε → σ → Prop} {next : σ → ε → σ} (h : ∀ s e, Step s e (next s e)) :
    ∀ (s : σ) (events : List ε), Run Step s (stepsOf next s events) (events.foldl next s)
  | s, [] => .nil s
  | s, e :: events => .cons (h s e) (of_next h (next s e) events)

variable {Step : σ → ε → σ → Prop} {Inv : σ → Prop} {Good : σ → ε → Prop} {s u : σ} {steps : List (σ × ε)}

/-- The invariant at the last state of a run, or before the first of its steps. -/
theorem first (h : Run Step s steps u) (hall : Throughout Inv steps u) : Inv s := by
  cases h with
  | nil => exact hall.2
  | cons step rest => exact hall.1 _ (List.mem_cons_self ..)

/-- Every step of a run is one. -/
theorem step_of_mem (h : Run Step s steps u) {p : σ × ε} (hp : p ∈ steps) : ∃ t, Step p.1 p.2 t := by
  induction h with
  | nil s => exact absurd hp List.not_mem_nil
  | cons step rest ih =>
    rcases List.mem_cons.mp hp with rfl | hp
    · exact ⟨_, step⟩
    · exact ih hp

/-- A run and one step more. -/
theorem concat {e : ε} {v : σ} (h : Run Step s steps u) (step : Step u e v) : Run Step s (steps ++ [(u, e)]) v := by
  induction h with
  | nil s => exact .cons step (.nil v)
  | cons first rest ih => exact .cons first (ih step)

/-- A run in two parts. -/
theorem exists_of_append : ∀ {first rest : List (σ × ε)} {s : σ}, Run Step s (first ++ rest) u →
    ∃ t, Run Step s first t ∧ Run Step t rest u
  | [], _, s, h => ⟨s, .nil s, h⟩
  | _ :: _, _, _, .cons step h => by
    obtain ⟨t, hfirst, hrest⟩ := exists_of_append h
    exact ⟨t, .cons step hfirst, hrest⟩

/-- The rest of a run from one of its steps on. -/
theorem exists_rest (h : Run Step s steps u) {p : σ × ε} (hp : p ∈ steps) : ∃ rest, Run Step p.1 rest u := by
  obtain ⟨first, rest, rfl⟩ := List.append_of_mem hp
  obtain ⟨t, -, hrest⟩ := h.exists_of_append
  cases hrest with
  | cons step hrest => exact ⟨_, .cons step hrest⟩

theorem invariant (hstep : ∀ s e t, Step s e t → Inv s → Good s e → Inv t) (h : Run Step s steps u)
    (h0 : Inv s) (hg : ∀ p ∈ steps, Good p.1 p.2) : Throughout Inv steps u := by
  induction h with
  | nil s => exact ⟨fun p hp => absurd hp List.not_mem_nil, h0⟩
  | cons step rest ih =>
    obtain ⟨hsteps, hlast⟩ := ih (hstep _ _ _ step h0 (hg _ (List.mem_cons_self ..)))
      fun p hp => hg p (List.mem_cons_of_mem _ hp)
    refine ⟨fun p hp => ?_, hlast⟩
    rcases List.mem_cons.mp hp with rfl | hp
    · exact h0
    · exact hsteps p hp

/-- An invariant that every step keeps. -/
theorem throughout (hstep : ∀ s e t, Step s e t → Inv s → Inv t) (h : Run Step s steps u) (h0 : Inv s) :
    Throughout Inv steps u :=
  invariant (fun s e t hst hi (_ : True) => hstep s e t hst hi) h h0 fun _ _ => trivial

theorem invariant_iff (hstep : ∀ s e t, Step s e t → Inv s → (Inv t ↔ Good s e)) (h : Run Step s steps u)
    (h0 : Inv s) : Throughout Inv steps u ↔ ∀ p ∈ steps, Good p.1 p.2 := by
  refine ⟨fun hall => ?_, invariant (fun s e t hst hi => (hstep s e t hst hi).mpr) h h0⟩
  induction h with
  | nil s => exact fun p hp => absurd hp List.not_mem_nil
  | cons step rest ih =>
    have hrest := And.intro (fun p hp => hall.1 p (List.mem_cons_of_mem _ hp)) hall.2
    have hinv := rest.first hrest
    intro p hp
    rcases List.mem_cons.mp hp with rfl | hp
    · exact (hstep _ _ _ step h0).mp hinv
    · exact ih hinv hrest p hp

/-- What each step adds is added up over a run. -/
theorem total_eq {f : σ → Int} {w : ε → Int} (hstep : ∀ s e t, Step s e t → Inv s → f t = f s + w e)
    (h : Run Step s steps u) (hall : Throughout Inv steps u) : f u = f s + total w steps := by
  induction h with
  | nil s => simp [total]
  | @cons s t u e steps step rest ih =>
    have hfirst := hstep _ _ _ step (hall.1 _ (List.mem_cons_self ..))
    rw [ih ⟨fun p hp => hall.1 p (List.mem_cons_of_mem _ hp), hall.2⟩, hfirst, total, Int.add_assoc]

/-- A system that simulates another one as long as an invariant holds. -/
theorem simulates_of_inv {σ' ε' : Type} {Step' : σ' → ε' → σ' → Prop} {view : σ → σ'} {event : ε → Option ε'}
    (hsim : ∀ s e t, Step s e t → Inv s → Matched Step' view event s e t) (h : Run Step s steps u)
    (hall : Throughout Inv steps u) : Run Step' (view s) (seen view event steps) (view u) := by
  induction h with
  | nil s => exact .nil _
  | @cons s t u e steps step rest ih =>
    have hstep := hsim _ _ _ step (hall.1 _ List.mem_cons_self)
    have hrest := ih ⟨fun p hp => hall.1 p (List.mem_cons_of_mem _ hp), hall.2⟩
    rw [Matched] at hstep
    cases he : event e with
    | none =>
      rw [he] at hstep
      simpa only [seen, List.filterMap_cons, he, Option.map_none, ← hstep] using hrest
    | some e' =>
      rw [he] at hstep
      simpa only [seen, List.filterMap_cons, he, Option.map_some] using Run.cons hstep hrest

theorem simulates {σ' ε' : Type} {Step' : σ' → ε' → σ' → Prop} {view : σ → σ'} {event : ε → Option ε'}
    (hsim : Simulates Step Step' view event) (h : Run Step s steps u) :
    Run Step' (view s) (seen view event steps) (view u) :=
  h.simulates_of_inv (fun s e t hstep (_ : True) => hsim s e t hstep) ⟨fun _ _ => trivial, trivial⟩

end Run

/-- **A limit**: what happens only after less than `n` events, and is one, happens
`n` times at most. -/
theorem countP_le_of_lt {α : Type} {limited counted : α → Bool} {n : ℕ} (hcounted : ∀ x, limited x = true → counted x = true)
    (l : List α) (h : ∀ before x after, l = before ++ x :: after → limited x = true → before.countP counted < n) :
    l.countP limited ≤ n := by
  induction l using List.reverseRecOn with
  | nil => simp
  | append_singleton l x ih =>
    have hl : l.countP limited ≤ n := ih fun before y after he => h before y (after ++ [x]) (by simp [he])
    by_cases hx : limited x = true
    · have hlt := h l x [] rfl hx
      have hle : l.countP limited ≤ l.countP counted := List.countP_mono_left fun y _ => hcounted y
      simp only [List.countP_append, List.countP_singleton, hx, if_true]
      omega
    · simpa [hx] using hl
