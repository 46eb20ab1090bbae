/-
# Jobs that share an object

Threads work on the fields of one object. A job is what a thread has still to
do there: each look at the fields and each assignment is a step, and the steps
of the threads come in any order. `Job.alone` is what a job comes to without
other threads.

`Shared` is an object with a page, for which there are requests. A thread that
takes up a request first assigns the request's page to the object, then does
the request's job, and prints the reply on the page that the object has by
then. So a request that is taken up while another one is being worked on takes
that one's page away for good: the first such request is left with an empty
page (`Shared.Lost`). Where no request is taken up so, each finds the fields as
it has left them itself (`Shared.Orderly`), and its page gets its own reply.

Key definitions: `Job`, `Job.alone`, `Shared.State`, `Shared.Step`, `Shared.Apart`.
Key theorems: `Job.alone_bind`, `Shared.orderly_step`, `Shared.lost_step`, `Shared.answered_iff`.
-/
import Plethora.Lib.Runs
import Mathlib.Logic.Function.Basic

/-! ### Jobs -/

/-- A job on fields `σ` that gives an `α`, or raises an exception. -/
inductive Job (σ α : Type)
  | raise
  | done (a : α)
  | look (next : σ → Job σ α)
  | assign (change : σ → σ) (next : Job σ α)

namespace Job

variable {σ α β : Type}

def bind : Job σ α → (α → Job σ β) → Job σ β
  | raise, _ => raise
  | done a, k => k a
  | look next, k => look fun x => (next x).bind k
  | assign change next, k => assign change (next.bind k)

instance : Monad (Job σ) where
  pure := done
  bind := bind

/-- The value of an expression on the fields. -/
def get (f : σ → α) : Job σ α := look fun x => done (f x)

def set (change : σ → σ) : Job σ Unit := assign change (done ())

/-- The result and the fields after it, `none` for an exception. -/
def alone : Job σ α → σ → Option (α × σ)
  | raise, _ => none
  | done a, x => some (a, x)
  | look next, x => (next x).alone x
  | assign change next, x => next.alone (change x)

@[simp] theorem alone_pure (a : α) (x : σ) : (pure a : Job σ α).alone x = some (a, x) := rfl

@[simp] theorem alone_get (f : σ → α) (x : σ) : (get f).alone x = some (f x, x) := rfl

@[simp] theorem alone_set (change : σ → σ) (x : σ) : (set change).alone x = some ((), change x) := rfl

@[simp] theorem alone_raise (x : σ) : (raise : Job σ α).alone x = none := rfl

@[simp] theorem alone_bind (t : Job σ α) (k : α → Job σ β) (x : σ) :
    (t >>= k).alone x = (t.alone x).bind fun r => (k r.1).alone r.2 := by
  show (t.bind k).alone x = _
  induction t generalizing x with
  | raise => rfl
  | done a => rfl
  | look next ih => exact ih x x
  | assign change next ih => exact ih (change x)

end Job

/-! ### An object with a page -/

namespace Shared

/-- Where a request stands. -/
inductive Place (ι σ ρ : Type)
  | away
  | working (rest : Job σ ρ)
  | printing (page : ι) (reply : ρ)
  | ended

structure State (ι σ ρ : Type) where
  /-- The request whose page the object has. -/
  page : Option ι
  fields : σ
  place : ι → Place ι σ ρ
  /-- What is on the pages. -/
  pages : ι → List ρ

variable {ι σ ρ : Type}

/-- No request has been taken up yet. -/
def start (x : σ) : State ι σ ρ where
  page := none
  fields := x
  place _ := .away
  pages _ := []

variable [DecidableEq ι]

def State.move (s : State ι σ ρ) (i : ι) (p : Place ι σ ρ) : State ι σ ρ :=
  { s with place := Function.update s.place i p }

/-- The next step of a request, whose job is that of `handler`. -/
inductive Step (handler : ι → Job σ ρ) : State ι σ ρ → ι → State ι σ ρ → Prop
  | take {s : State ι σ ρ} {i : ι} (hi : s.place i = .away) :
      Step handler s i { s.move i (.working (handler i)) with page := some i }
  | raise {s : State ι σ ρ} {i : ι} (hi : s.place i = .working .raise) : Step handler s i (s.move i .ended)
  | look {s : State ι σ ρ} {i : ι} {next : σ → Job σ ρ} (hi : s.place i = .working (.look next)) :
      Step handler s i (s.move i (.working (next s.fields)))
  | assign {s : State ι σ ρ} {i : ι} {change : σ → σ} {next : Job σ ρ}
      (hi : s.place i = .working (.assign change next)) :
      Step handler s i { s.move i (.working next) with fields := change s.fields }
  | done {s : State ι σ ρ} {i j : ι} {reply : ρ} (hi : s.place i = .working (.done reply)) (hj : s.page = some j) :
      Step handler s i (s.move i (.printing j reply))
  | print {s : State ι σ ρ} {i j : ι} {reply : ρ} (hi : s.place i = .printing j reply) :
      Step handler s i { s.move i .ended with pages := Function.update s.pages j (s.pages j ++ [reply]) }

/-- Nobody works on a request. -/
def State.Free (s : State ι σ ρ) : Prop := ∀ j rest, s.place j ≠ .working rest

/-- No request is taken up while somebody works on one. -/
def Apart (steps : List (State ι σ ρ × ι)) : Prop := ∀ p ∈ steps, p.1.place p.2 = .away → p.1.Free

/-- Who works has the page and is going to give the reply of the request, and
every other request that was taken up has got its reply, or is about to. -/
structure Orderly (reply : ι → ρ) (s : State ι σ ρ) : Prop where
  working : ∀ i rest, s.place i = .working rest →
    s.page = some i ∧ s.pages i = [] ∧ (rest.alone s.fields).map (·.1) = some (reply i)
  printing : ∀ i j r, s.place i = .printing j r → j = i ∧ r = reply i ∧ s.pages i = []
  ended : ∀ i, s.place i = .ended → s.pages i = [reply i]
  away : ∀ i, s.place i = .away → s.pages i = []

/-- The page of a request that was taken up is empty, and nobody will print on
it. -/
structure Lost (j : ι) (s : State ι σ ρ) : Prop where
  taken : s.place j ≠ .away
  page : s.page ≠ some j
  printing : ∀ i r, s.place i ≠ .printing j r
  pages : s.pages j = []

variable {handler : ι → Job σ ρ} {reply : ι → ρ} {s t : State ι σ ρ} {i j : ι}

@[simp] theorem place_move (s : State ι σ ρ) (i j : ι) (p : Place ι σ ρ) :
    (s.move i p).place j = if j = i then p else s.place j := Function.update_apply ..

omit [DecidableEq ι] in
theorem orderly_start (x : σ) : Orderly reply (start x : State ι σ ρ) where
  working i rest h := by cases h
  printing i j r h := by cases h
  ended i h := by cases h
  away i _ := rfl

omit [DecidableEq ι] in
/-- Only one request is being worked on. -/
theorem Orderly.unique (h : Orderly reply s) {rest rest' : Job σ ρ} (hi : s.place i = .working rest)
    (hj : s.place j = .working rest') : i = j :=
  Option.some.inj ((h.working i rest hi).1.symm.trans (h.working j rest' hj).1)

/-- What a step of the request that is being worked on keeps, if the fields and
what is left of its job come to its reply. -/
theorem Orderly.work (h : Orderly reply s) {rest rest' : Job σ ρ} {x : σ} (hi : s.place i = .working rest)
    (hrest : (rest'.alone x).map (·.1) = some (reply i)) :
    Orderly reply { s.move i (.working rest') with fields := x } where
  working k r hk := by
    simp only [place_move] at hk
    by_cases hki : k = i
    · subst hki
      rw [if_pos rfl] at hk
      cases hk
      exact ⟨(h.working k rest hi).1, (h.working k rest hi).2.1, hrest⟩
    · rw [if_neg hki] at hk
      exact absurd (h.unique hk hi) hki
  printing k j r hk := by
    simp only [place_move] at hk
    split at hk
    · cases hk
    · exact h.printing k j r hk
  ended k hk := by
    simp only [place_move] at hk
    split at hk
    · cases hk
    · exact h.ended k hk
  away k hk := by
    simp only [place_move] at hk
    split at hk
    · cases hk
    · exact h.away k hk

/-- **While requests are apart.** -/
theorem orderly_step (hreply : ∀ i x, ((handler i).alone x).map (·.1) = some (reply i)) (hstep : Step handler s i t)
    (h : Orderly reply s) (hfree : s.place i = .away → s.Free) : Orderly reply t := by
  cases hstep with
  | take hi =>
    have hnot := hfree hi
    refine ⟨fun k r hk => ?_, fun k j r hk => ?_, fun k hk => ?_, fun k hk => ?_⟩ <;>
      simp only [place_move] at hk <;> split at hk
    next heq =>
      cases hk
      subst heq
      exact ⟨rfl, h.away k hi, hreply k s.fields⟩
    next => exact absurd hk (hnot k r)
    next => cases hk
    next => exact h.printing k j r hk
    next => cases hk
    next => exact h.ended k hk
    next => cases hk
    next => exact h.away k hk
  | raise hi =>
    have hnone := (h.working i _ hi).2.2
    cases hnone
  | look hi => exact h.work hi (h.working i _ hi).2.2
  | assign hi => exact h.work hi (h.working i _ hi).2.2
  | @done j r hi hj =>
    obtain ⟨hpage, hpages, hresult⟩ := h.working i _ hi
    obtain rfl : j = i := Option.some.inj (hj.symm.trans hpage)
    obtain rfl : r = reply j := Option.some.inj hresult
    refine ⟨fun k rest hk => ?_, fun k l r hk => ?_, fun k hk => ?_, fun k hk => ?_⟩ <;>
      simp only [place_move] at hk <;> split at hk
    next => cases hk
    next => exact h.working k rest hk
    next heq =>
      cases hk
      exact ⟨heq.symm, by rw [heq], by rw [heq]; exact hpages⟩
    next => exact h.printing k l r hk
    next => cases hk
    next => exact h.ended k hk
    next => cases hk
    next => exact h.away k hk
  | @print j r hi =>
    obtain ⟨rfl, rfl, hpages⟩ := h.printing i j r hi
    have hother : ∀ k, k ≠ j → Function.update s.pages j (s.pages j ++ [reply j]) k = s.pages k :=
      fun k hk => Function.update_of_ne hk ..
    refine ⟨fun k rest hk => ?_, fun k l r hk => ?_, fun k hk => ?_, fun k hk => ?_⟩ <;>
      simp only [place_move] at hk <;> split at hk
    next => cases hk
    next hne =>
      obtain ⟨hpage, hempty, hresult⟩ := h.working k rest hk
      exact ⟨hpage, (hother k hne).trans hempty, hresult⟩
    next => cases hk
    next hne =>
      obtain ⟨hl, hr, hempty⟩ := h.printing k l r hk
      exact ⟨hl, hr, (hother k hne).trans hempty⟩
    next heq =>
      subst heq
      simp [hpages]
    next hne => exact (hother k hne).trans (h.ended k hk)
    next => cases hk
    next hne => exact (hother k hne).trans (h.away k hk)

/-- Nobody gives a request its page back. -/
theorem lost_step (hstep : Step handler s i t) (h : Lost j s) : Lost j t := by
  have htaken : ∀ p : Place ι σ ρ, p ≠ .away → (s.move i p).place j ≠ .away := by
    intro p hp
    rw [place_move]
    split
    · exact hp
    · exact h.taken
  have hprinting : ∀ p : Place ι σ ρ, (∀ r, p ≠ .printing j r) → ∀ k r, (s.move i p).place k ≠ .printing j r := by
    intro p hp k r
    rw [place_move]
    split
    · exact hp r
    · exact h.printing k r
  cases hstep with
  | take hi =>
    refine ⟨htaken _ nofun, fun he => ?_, hprinting _ nofun, h.pages⟩
    obtain rfl := Option.some.inj he
    exact h.taken hi
  | raise hi => exact ⟨htaken _ nofun, h.page, hprinting _ nofun, h.pages⟩
  | look hi => exact ⟨htaken _ nofun, h.page, hprinting _ nofun, h.pages⟩
  | assign hi => exact ⟨htaken _ nofun, h.page, hprinting _ nofun, h.pages⟩
  | @done k r hi hk =>
    refine ⟨htaken _ nofun, h.page, hprinting _ fun r' he => ?_, h.pages⟩
    cases he
    exact h.page hk
  | @print k r hi =>
    refine ⟨htaken _ nofun, h.page, hprinting _ nofun, ?_⟩
    have hne : j ≠ k := by
      rintro rfl
      exact h.printing i r hi
    show Function.update s.pages k _ j = []
    rw [Function.update_of_ne hne, h.pages]

/-- **The first request that is taken up too early** leaves the one that is
being worked on without a page. -/
theorem lost_of_take {rest : Job σ ρ} (hstep : Step handler s i t) (h : Orderly reply s) (hi : s.place i = .away)
    (hj : s.place j = .working rest) : Lost j t := by
  have hne : j ≠ i := by
    rintro rfl
    cases hi.symm.trans hj
  cases hstep with
  | take _ =>
    refine ⟨?_, fun he => hne (Option.some.inj he).symm, fun k r hk => ?_, (h.working j rest hj).2.1⟩
    · rw [place_move, if_neg hne, hj]
      nofun
    · rw [place_move] at hk
      split at hk
      · cases hk
      · obtain rfl := (h.printing k j r hk).1
        cases hj.symm.trans hk
  | raise hi' => cases hi.symm.trans hi'
  | look hi' => cases hi.symm.trans hi'
  | assign hi' => cases hi.symm.trans hi'
  | done hi' => cases hi.symm.trans hi'
  | print hi' => cases hi.symm.trans hi'

theorem lost_run {steps : List (State ι σ ρ × ι)} (hrun : Run (Step handler) s steps t) (h : Lost j s) : Lost j t :=
  (hrun.throughout (fun _ _ _ hstep h => lost_step hstep h) h).2

/-- **A run is orderly to its end, or a request has lost its page.** -/
theorem orderly_or_lost (hreply : ∀ i x, ((handler i).alone x).map (·.1) = some (reply i))
    {steps : List (State ι σ ρ × ι)} (hrun : Run (Step handler) s steps t) (h : Orderly reply s) :
    (Apart steps ∧ Orderly reply t) ∨ (¬ Apart steps ∧ ∃ j, Lost j t) := by
  induction hrun with
  | nil s => exact .inl ⟨fun p hp => absurd hp List.not_mem_nil, h⟩
  | @cons s t u i steps step rest ih =>
    have hsplit : Apart ((s, i) :: steps) ↔ (s.place i = .away → s.Free) ∧ Apart steps := List.forall_mem_cons
    by_cases hfree : s.place i = .away → s.Free
    · rcases ih (orderly_step hreply step h hfree) with ⟨hapart, hu⟩ | ⟨hapart, hu⟩
      · exact .inl ⟨hsplit.mpr ⟨hfree, hapart⟩, hu⟩
      · exact .inr ⟨fun ha => hapart (hsplit.mp ha).2, hu⟩
    · refine .inr ⟨fun ha => hfree (hsplit.mp ha).1, ?_⟩
      simp only [State.Free, Classical.not_imp, not_forall, not_not] at hfree
      obtain ⟨hi, j, rest', hj⟩ := hfree
      exact ⟨j, lost_run rest (lost_of_take step h hi hj)⟩

/-- **Every request that was taken up has something on its page in the end
exactly if the requests are apart**, and then it is its own reply. -/
theorem answered_iff (hreply : ∀ i x, ((handler i).alone x).map (·.1) = some (reply i)) {x : σ}
    {steps : List (State ι σ ρ × ι)} (hrun : Run (Step handler) (start x) steps t)
    (hended : ∀ i, t.place i = .away ∨ t.place i = .ended) :
    ((∀ i, t.place i = .ended → t.pages i ≠ []) ↔ Apart steps) ∧
      (Apart steps → ∀ i, t.place i = .ended → t.pages i = [reply i]) := by
  rcases orderly_or_lost hreply hrun (orderly_start x) with ⟨hapart, hu⟩ | ⟨hapart, j, hu⟩
  · refine ⟨iff_of_true (fun i hi => ?_) hapart, fun _ => hu.ended⟩
    rw [hu.ended i hi]
    exact List.cons_ne_nil _ _
  · refine ⟨iff_of_false (fun hall => ?_) hapart, fun ha => absurd ha hapart⟩
    exact hall j ((hended j).resolve_left hu.taken) hu.pages

end Shared
