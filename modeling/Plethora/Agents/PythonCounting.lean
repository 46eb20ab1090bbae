/-
# A Python agent's metrics, counted by several threads

The getters and setters of `Plethora` work without a lock: `incrMetric` and
`decrMetric` look the metric up, calculate, and store the result, and every
dictionary and set is shared. Here each access to one of them is a step, and
the steps of the calls come in any order. Without others between, the steps of
a call are the call (`iterate_access`).

A call on a number metric never fails, whatever comes between. But it stores
what it has looked up and its amount, so a metric comes to all the amounts if
no call stores between another one's look and its storing; and if amounts are
positive, then only if (`counts_apart`).

Key definitions: `Plethoralib.Threads.Change`, `Plethoralib.Threads.access`, `Plethoralib.Threads.Step`,
`Plethoralib.Threads.Apart`.
Key theorems: `Plethoralib.Threads.iterate_access`, `Plethoralib.Threads.sound_step`,
`Plethoralib.Threads.counts_apart`.
-/
import Plethora.Agents.NumberMetrics
import Plethora.Lib.Additions
import Mathlib.Algebra.Order.Ring.Int

namespace Plethora

namespace Plethoralib

namespace Threads

variable {F : Floats}

/-! ### The steps of a call -/

/-- A call of `incrMetric` or `decrMetric` with a name. -/
structure Change (F : Floats) where
  op : PyObject F → PyObject F → Option (PyObject F)
  /-- What a metric without a value gets. -/
  first : PyObject F
  name : Basestring
  delta : Option (PyObject F)

def Change.incrMetric (name : Basestring) (delta : Option (PyObject F)) : Change F :=
  ⟨PyObject.add, delta.getD (.int 0), name, delta⟩

def Change.decrMetric (name : Basestring) (delta : Option (PyObject F)) : Change F :=
  ⟨PyObject.sub, .int 0, name, delta⟩

/-- Which access a call makes next. -/
inductive Place (F : Floats)
  /-- `getMetric`: is the store ready? -/
  | away
  /-- `__getStoreValue` -/
  | getting
  /-- `__isNumberTypeMetric`: is the name in `numbertype_lookup`? -/
  | found (value : PyObject F)
  /-- Is it in `__notnumbertype_lookup`? -/
  | unlisted (value : PyObject F)
  /-- It is added to one of the two. -/
  | unknown (value : PyObject F)
  /-- `setMetric`: is the store ready? -/
  | setting (v : PyObject F)
  /-- `__getType` -/
  | typing (v : PyObject F)
  /-- `__setStoreValue` -/
  | storing (v : PyObject F)
  | ended (returned : Except PythonError Bool)

section Access

variable (c : Change F)

/-- Once the type check has said whether it is a number's metric. -/
def checked (value : PyObject F) (number : Bool) : Place F :=
  match c.delta with
  | none => .ended (Store.failed (some c.name))
  | some d =>
    if number && d.isNumber then
      match c.op value d with
      | some v => .setting v
      | none => .ended (Store.failed (some c.name))
    else .ended (Store.failed (some c.name))

/-- The next access of a call, and where it stands then. -/
def access : Store F × Place F → Store F × Place F
  | (s, .away) => (s, if s.isReady then .getting else .setting c.first)
  | (s, .getting) =>
    match s.metrics.lookup c.name with
    | none => (s, .setting c.first)
    | some value => (s, if c.delta.isSome then .found value else .ended (Store.failed (some c.name)))
  | (s, .found value) => (s, if c.name ∈ s.numbertypeLookup then checked c value true else .unlisted value)
  | (s, .unlisted value) => (s, if c.name ∈ s.notnumbertypeLookup then checked c value false else .unknown value)
  | (s, .unknown value) =>
    if value.isNumber && decide (value.isBoolean = .ok false) then
      ({ s with numbertypeLookup := c.name :: s.numbertypeLookup }, checked c value true)
    else ({ s with notnumbertypeLookup := c.name :: s.notnumbertypeLookup }, checked c value false)
  | (s, .setting v) => (s, if s.isReady then .typing v else .ended (.ok false))
  | (s, .typing v) => (s, if s.accepts c.name v then .storing v else .ended (.ok false))
  | (s, .storing v) => (s.setStoreValue c.name v, .ended (.ok true))
  | (s, .ended returned) => (s, .ended returned)

end Access

variable {c : Change F} {s : Store F} {value v : PyObject F}

theorem access_ended (r : Except PythonError Bool) (k : ℕ) : (access c)^[k] (s, .ended r) = (s, .ended r) := by
  apply Function.iterate_fixed
  rfl

/-- A call that sets the metric. -/
theorem access_setting (v : PyObject F) (k : ℕ) :
    (access c)^[k + 3] (s, .setting v) =
      ((s.setMetric (some c.name) (some v)).1, .ended (.ok (s.setMetric (some c.name) (some v)).2)) := by
  rw [Function.iterate_add_apply]
  by_cases hr : s.isReady = true
  · by_cases ha : s.accepts c.name v = true
    · simp [Function.iterate_succ_apply, access, hr, ha, access_ended, Store.setMetric_of_accepts hr ha]
    · simp [Function.iterate_succ_apply, access, hr, ha, access_ended, Store.setMetric]
  · simp [Function.iterate_succ_apply, access, hr, access_ended, Store.setMetric]

/-- The end of `changeBy`, once the metric has been looked up and its type checked. -/
theorem access_checked {d : PyObject F} (hd : c.delta = some d) (b : Bool) (k : ℕ) :
    (access c)^[k + 3] (s, checked c value b) =
      if b && d.isNumber then
        match c.op value d with
        | some v => ((s.setMetric (some c.name) (some v)).1, .ended (.ok (s.setMetric (some c.name) (some v)).2))
        | none => (s, .ended (Store.failed (some c.name)))
      else (s, .ended (Store.failed (some c.name))) := by
  unfold checked
  rw [hd]
  by_cases hb : (b && d.isNumber) = true
  · simp only [if_pos hb]
    cases c.op value d with
    | none => exact access_ended _ _
    | some v => exact access_setting v k
  · simp only [if_neg hb]
    exact access_ended _ _

/-- The type check takes one access, two or three. -/
theorem access_found (value : PyObject F) : ∃ k, (access c)^[6] (s, .found value) =
    (access c)^[k + 3] ((s.isNumberTypeMetric c.name value).1, checked c value (s.isNumberTypeMetric c.name value).2) := by
  unfold Store.isNumberTypeMetric
  by_cases hlisted : c.name ∈ s.numbertypeLookup
  · refine ⟨2, ?_⟩
    rw [Function.iterate_succ_apply]
    simp only [access, if_pos hlisted]
  · by_cases hnot : c.name ∈ s.notnumbertypeLookup
    · refine ⟨1, ?_⟩
      rw [Function.iterate_succ_apply, Function.iterate_succ_apply]
      simp only [access, if_neg hlisted, if_pos hnot]
    · refine ⟨0, ?_⟩
      rw [Function.iterate_succ_apply, Function.iterate_succ_apply, Function.iterate_succ_apply]
      simp only [access, if_neg hlisted, if_neg hnot]
      by_cases hnumber : (value.isNumber && decide (value.isBoolean = .ok false)) = true
      · simp only [if_pos hnumber]
      · simp only [if_neg hnumber]

/-- **The steps of a call, without others between, are the call.** -/
theorem iterate_access (c : Change F) (s : Store F) :
    (access c)^[8] (s, .away) =
      ((s.changeBy c.op (some c.first) (some c.name) c.delta).1,
        .ended (s.changeBy c.op (some c.first) (some c.name) c.delta).2) := by
  unfold Store.changeBy
  rw [Function.iterate_succ_apply]
  cases hr : s.isReady with
  | false =>
    have hget : s.getMetric (some c.name) = none := by simp [Store.getMetric, hr]
    simp only [access, hr, hget]
    exact access_setting c.first 4
  | true =>
    simp only [access, hr, if_true]
    rw [Function.iterate_succ_apply]
    cases hlookup : s.metrics.lookup c.name with
    | none =>
      have hget : s.getMetric (some c.name) = none := by simp [Store.getMetric, hlookup]
      simp only [access, hlookup, hget]
      exact access_setting c.first 3
    | some value =>
      have hget : s.getMetric (some c.name) = some value := Store.getMetric_eq_some.mpr ⟨hr, hlookup⟩
      simp only [access, hlookup, hget]
      cases hd : c.delta with
      | none => exact access_ended _ _
      | some d =>
        obtain ⟨k, hk⟩ := @access_found F c s value
        simp only [Option.isSome_some, if_true]
        rw [hk, access_checked hd]
        by_cases hb : ((s.isNumberTypeMetric c.name value).2 && d.isNumber) = true
        · simp only [if_pos hb]
          cases c.op value d <;> rfl
        · simp only [if_neg hb]

/-! ### Calls on number metrics -/

/-- The call adds an integer amount to a metric. -/
structure Change.Adds (c : Change F) (n : Basestring) (amount : ℤ) : Prop where
  name : c.name = n
  delta : ∃ d : ℤ, c.delta = some (.int d) ∧ ∀ k : ℤ, c.op (.int k) (.int d) = some (.int (k + amount))

theorem adds_incrMetric (n : Basestring) (d : ℤ) :
    (Change.incrMetric n (some (.int d)) : Change F).Adds n d :=
  ⟨rfl, d, rfl, fun _ => rfl⟩

theorem adds_decrMetric (n : Basestring) (d : ℤ) :
    (Change.decrMetric n (some (.int d)) : Change F).Adds n (-d) :=
  ⟨rfl, d, rfl, fun _ => rfl⟩

/-- The store is ready, its number metrics hold integers, and none of them is
remembered as no number. -/
structure Steady (s : Store F) : Prop where
  ready : s.isReady = true
  number : ∀ n, s.getType n = some .number → ∃ k : ℤ, s.metrics.lookup n = some (.int k)
  unbarred : s.Unbarred

/-- Where a call on a number metric can stand. -/
def Place.Sound : Place F → Prop
  | .away | .getting => True
  | .found v | .unlisted v | .unknown v | .setting v | .typing v | .storing v => ∃ k : ℤ, v = .int k
  | .ended r => r = .ok true

/-- The integer that a call which adds `amount` is going to store. -/
def Place.held (amount : ℤ) : Place F → Option ℤ
  | .found v | .unlisted v | .unknown v => v.asInt.map (· + amount)
  | .setting v | .typing v | .storing v => v.asInt
  | _ => none

def Place.isEnded : Place F → Bool
  | .ended _ => true
  | _ => false

/-- What an access is to the metric's value. -/
def Place.action : Place F → Option Additions.Action
  | .getting => some .look
  | .storing _ => some .store
  | _ => none

/-- What an access does to a steady store: it looks the metric up, or stores it,
or is neither and changes only what is remembered. -/
inductive Accessed (n : Basestring) (amount : ℤ) (s : Store F) : Place F → Store F × Place F → Prop
  | look (k : ℤ) (stored : s.metrics.lookup n = some (.int k)) : Accessed n amount s .getting (s, .found (.int k))
  | store (k : ℤ) : Accessed n amount s (.storing (.int k)) (s.setStoreValue n (.int k), .ended (.ok true))
  | other {p q : Place F} {t : Store F} (metrics : t.metrics = s.metrics) (props : t.metricprops = s.metricprops)
      (unbarred : t.Unbarred) (sound : q.Sound) (held : q.held amount = p.held amount) (goes : q.isEnded = false)
      (silent : p.action = none) : Accessed n amount s p (t, q)

theorem steady_of_eq {t : Store F} (h : Steady s) (hm : t.metrics = s.metrics) (hp : t.metricprops = s.metricprops)
    (hu : t.Unbarred) : Steady t where
  ready := by rw [← h.ready, Store.isReady, hm, Store.isReady]
  number n hn := by
    rw [hm]
    rw [Store.getType, hp] at hn
    exact h.number n hn
  unbarred := hu

/-- A store that is ready does not declare its version a number. -/
theorem Steady.ne_version (h : Steady s) {n : Basestring} (hn : s.getType n = some .number) : n ≠ versionName := by
  rintro rfl
  obtain ⟨k, hk⟩ := h.number _ hn
  rw [Store.isReady_iff.mp h.ready] at hk
  cases hk

theorem steady_setStoreValue (h : Steady s) {n : Basestring} (hn : s.getType n = some .number) (k : ℤ) :
    Steady (s.setStoreValue n (.int k)) where
  ready := by
    rw [Store.isReady_iff, Store.lookup_setStoreValue, if_neg (h.ne_version hn).symm, ← Store.isReady_iff]
    exact h.ready
  number m hm := by
    rw [Store.lookup_setStoreValue]
    split
    · exact ⟨k, rfl⟩
    · exact h.number m hm
  unbarred := h.unbarred

theorem isNumber_int (k : ℤ) : (PyObject.int k : PyObject F).isNumber = true := PyObject.isNumber_of_numeric trivial

/-- **What an access of a call on a number metric does.** -/
theorem accessed {n : Basestring} {amount : ℤ} {p : Place F} (hc : c.Adds n amount) (h : Steady s)
    (hn : s.getType n = some .number) (hp : p.Sound) (hended : p.isEnded = false) :
    Accessed n amount s p (access c (s, p)) := by
  obtain ⟨rfl, d, hd, hop⟩ := hc
  have hchecked : ∀ k : ℤ, checked c (.int k) true = .setting (.int (k + amount)) := by
    intro k
    simp [checked, hd, hop, isNumber_int]
  have hnot := h.unbarred _ hn
  cases p with
  | away =>
    refine .other rfl rfl h.unbarred ?_ ?_ ?_ rfl <;> simp [h.ready, Place.Sound, Place.held, Place.isEnded]
  | getting =>
    obtain ⟨k, hk⟩ := h.number _ hn
    simp only [access, hk, hd, Option.isSome_some, if_true]
    exact .look k hk
  | found value =>
    obtain ⟨k, rfl⟩ := hp
    by_cases hlisted : c.name ∈ s.numbertypeLookup
    · simp only [access, if_pos hlisted, hchecked]
      exact .other rfl rfl h.unbarred ⟨_, rfl⟩ rfl rfl rfl
    · simp only [access, if_neg hlisted]
      exact .other rfl rfl h.unbarred ⟨_, rfl⟩ rfl rfl rfl
  | unlisted value =>
    obtain ⟨k, rfl⟩ := hp
    simp only [access, if_neg hnot]
    exact .other rfl rfl h.unbarred ⟨_, rfl⟩ rfl rfl rfl
  | unknown value =>
    obtain ⟨k, rfl⟩ := hp
    have hboolean : (PyObject.int k : PyObject F).isBoolean = .ok false := PyObject.isBoolean_of_numeric trivial
    simp only [access, isNumber_int, hboolean, decide_true, Bool.and_self, if_true, hchecked]
    exact .other rfl rfl h.unbarred ⟨_, rfl⟩ rfl rfl rfl
  | setting v =>
    obtain ⟨k, rfl⟩ := hp
    simp only [access, h.ready, if_true]
    exact .other rfl rfl h.unbarred ⟨_, rfl⟩ rfl rfl rfl
  | typing v =>
    obtain ⟨k, rfl⟩ := hp
    have haccepts : s.accepts c.name (.int k) = true := Store.accepts_numeric hn trivial
    simp only [access, haccepts, if_true]
    exact .other rfl rfl h.unbarred ⟨_, rfl⟩ rfl rfl rfl
  | storing v =>
    obtain ⟨k, rfl⟩ := hp
    exact .store k
  | ended r => exact absurd hended.symm Bool.false_ne_true

/-! ### Calls of several threads -/

section Calls

variable {ι : Type} [DecidableEq ι]

/-- The store, and where each call stands. -/
structure State (F : Floats) (ι : Type) where
  store : Store F
  place : ι → Place F

/-- A call makes its next access. The event says where it stood. -/
inductive Step (calls : ι → Change F) : State F ι → ι × Place F → State F ι → Prop
  | access {s : State F ι} {i : ι} {p : Place F} (stands : s.place i = p) (goes : p.isEnded = false) :
      Step calls s (i, p)
        ⟨(access (calls i) (s.store, p)).1, Function.update s.place i (access (calls i) (s.store, p)).2⟩

def start (s : Store F) : State F ι := ⟨s, fun _ => .away⟩

/-- A call has looked its metric up, and not stored it. -/
def Place.isBetween : Place F → Bool
  | .away | .getting | .ended _ => false
  | _ => true

/-- No call stores the metric while another one has looked it up and not stored
it. -/
def Apart (calls : ι → Change F) (n : Basestring) (steps : List (State F ι × ι × Place F)) : Prop :=
  ∀ p ∈ steps, (calls p.2.1).name = n → p.2.2.action = some .store →
    ∀ j, j ≠ p.2.1 → (calls j).name = n → (p.1.place j).isBetween = false

variable (calls : ι → Change F) (amount : ι → ℤ)

/-- Every call adds an integer to a number metric, and stands where such a call
can stand. -/
structure Sound (s : State F ι) : Prop where
  steady : Steady s.store
  number : ∀ i, s.store.getType (calls i).name = some .number
  places : ∀ i, (s.place i).Sound

/-- The metric as a cell that the calls on it add to. -/
def view [Fintype ι] (n : Basestring) (s : State F ι) : Additions.State ι ℤ where
  cell := ((s.store.metrics.lookup n).bind PyObject.asInt).getD 0
  held i := if (calls i).name = n then (s.place i).held (amount i) else none
  stored := Finset.univ.filter fun i => (calls i).name = n ∧ (s.place i).isEnded = true

def event (n : Basestring) (e : ι × Place F) : Option (ι × Additions.Action) :=
  if (calls e.1).name = n then e.2.action.map (e.1, ·) else none

/-- The metric after an access of a call. -/
theorem view_update [Fintype ι] (n : Basestring) (s : State F ι) (u : Store F) (i : ι) (q : Place F) :
    view calls amount n ⟨u, Function.update s.place i q⟩ =
      { cell := ((u.metrics.lookup n).bind PyObject.asInt).getD 0
        held := Function.update (view calls amount n s).held i
          (if (calls i).name = n then q.held (amount i) else none)
        stored := if (calls i).name = n ∧ q.isEnded = true then insert i (view calls amount n s).stored
          else (view calls amount n s).stored.erase i } := by
  have hheld : (fun j => if (calls j).name = n then ((Function.update s.place i q) j).held (amount j) else none) =
      Function.update (fun j => if (calls j).name = n then (s.place j).held (amount j) else none) i
        (if (calls i).name = n then q.held (amount i) else none) := by
    funext j
    by_cases hj : j = i
    · subst hj
      simp
    · simp [hj]
  have hstored : (Finset.univ.filter fun j => (calls j).name = n ∧ ((Function.update s.place i q) j).isEnded = true) =
      if (calls i).name = n ∧ q.isEnded = true then
        insert i (Finset.univ.filter fun j => (calls j).name = n ∧ (s.place j).isEnded = true)
      else (Finset.univ.filter fun j => (calls j).name = n ∧ (s.place j).isEnded = true).erase i := by
    ext j
    by_cases hj : j = i
    · subst hj
      by_cases hq : (calls j).name = n ∧ q.isEnded = true
      · simp [hq]
      · simp [hq]
    · by_cases hq : (calls i).name = n ∧ q.isEnded = true
      · simp [hq, hj]
      · simp [hq, hj]
  simp only [view, hheld, hstored]

/-- An access that leaves the metric, and what its call is going to store. -/
theorem view_eq [Fintype ι] {n : Basestring} {s : State F ι} {u : Store F} {i : ι} {q : Place F}
    (hmetric : u.metrics.lookup n = s.store.metrics.lookup n)
    (hheld : (calls i).name = n → q.held (amount i) = (s.place i).held (amount i))
    (hgoes : (calls i).name = n → (s.place i).isEnded = false ∧ q.isEnded = false) :
    view calls amount n ⟨u, Function.update s.place i q⟩ = view calls amount n s := by
  have hsame : (if (calls i).name = n then q.held (amount i) else none) = (view calls amount n s).held i := by
    by_cases hi : (calls i).name = n
    · simp [view, hi, hheld hi]
    · simp [view, hi]
  have hnot : i ∉ (view calls amount n s).stored := by
    intro hmem
    obtain ⟨hi, hended⟩ := (Finset.mem_filter.mp hmem).2
    rw [(hgoes hi).1] at hended
    cases hended
  have hends : ¬((calls i).name = n ∧ q.isEnded = true) := fun h => by
    rw [(hgoes h.1).2] at h
    exact Bool.false_ne_true h.2
  rw [view_update, hmetric, hsame, if_neg hends, Function.update_eq_self, Finset.erase_eq_of_notMem hnot]
  rfl

variable {calls amount} (hc : ∀ i, (calls i).Adds (calls i).name (amount i))
include hc

theorem sound_step {s t : State F ι} {e : ι × Place F} (hstep : Step calls s e t) (h : Sound calls s) : Sound calls t := by
  obtain ⟨hp, hgoes⟩ := hstep
  rename_i i p
  have hsound : p.Sound := hp ▸ h.places i
  have hplaces : ∀ {q : Place F}, q.Sound → ∀ j, (Function.update s.place i q j).Sound := by
    intro q hq j
    by_cases hj : j = i
    · subst hj
      rwa [Function.update_self]
    · rw [Function.update_of_ne hj]
      exact h.places j
  have haccessed := accessed (hc i) h.steady (h.number i) hsound hgoes
  generalize access (calls i) (s.store, p) = r at haccessed
  cases haccessed with
  | look k stored => exact ⟨h.steady, h.number, hplaces ⟨k, rfl⟩⟩
  | store k => exact ⟨steady_setStoreValue h.steady (h.number i) k, h.number, hplaces rfl⟩
  | @other _ q u metrics props unbarred sound held goes silent =>
    refine ⟨steady_of_eq h.steady metrics props unbarred, fun j => ?_, hplaces sound⟩
    show u.getType (calls j).name = some .number
    rw [Store.getType, props]
    exact h.number j

/-- **A call is an addition that is not atomic**: it looks the metric up in one
step and stores it in another; its other steps are none. -/
theorem view_step [Fintype ι] (n : Basestring) {s t : State F ι} {e : ι × Place F} (hstep : Step calls s e t)
    (h : Sound calls s) :
    Matched (Additions.Step amount) (view calls amount n) (event calls n) s e t := by
  obtain ⟨hp, hgoes⟩ := hstep
  rename_i i p
  have haccessed := accessed (hc i) h.steady (h.number i) (hp ▸ h.places i) hgoes
  generalize access (calls i) (s.store, p) = r at haccessed
  by_cases hi : (calls i).name = n
  · subst hi
    have hnot : i ∉ (view calls amount (calls i).name s).stored := by simp [view, hp, hgoes]
    cases haccessed with
    | look k stored =>
      have hevent : event calls (calls i).name (i, (.getting : Place F)) = some (i, .look) := by
        simp [event, Place.action]
      have hcell : (view calls amount (calls i).name s).cell = k := by simp [view, stored, PyObject.asInt]
      have hstep : Additions.Step amount (view calls amount (calls i).name s) (i, .look) _ :=
        .look (by simp [view, hp, Place.held]) hnot
      rw [Matched, hevent, view_update]
      simpa [stored, Place.held, Place.isEnded, PyObject.asInt, hcell, Finset.erase_eq_of_notMem hnot] using hstep
    | store k =>
      have hevent : event calls (calls i).name (i, (.storing (.int k) : Place F)) = some (i, .store) := by
        simp [event, Place.action]
      have hheld : (view calls amount (calls i).name s).held i = some k := by
        simp [view, hp, Place.held, PyObject.asInt]
      have hstep : Additions.Step amount (view calls amount (calls i).name s) (i, .store) _ := .store hheld
      rw [Matched, hevent, view_update]
      simpa [Place.held, Place.isEnded, PyObject.asInt] using hstep
    | @other _ q u metrics props unbarred sound held goes silent =>
      have hevent : event calls (calls i).name (i, p) = none := by simp [event, silent]
      rw [Matched, hevent]
      exact view_eq calls amount (by rw [metrics]) (fun _ => hp ▸ held) fun _ => ⟨hp ▸ hgoes, goes⟩
  · have hevent : event calls n (i, p) = none := by simp [event, hi]
    rw [Matched, hevent]
    cases haccessed with
    | look k stored => exact view_eq calls amount rfl (fun h => absurd h hi) fun h => absurd h hi
    | store k =>
      have hother : (s.store.setStoreValue (calls i).name (.int k)).metrics.lookup n = s.store.metrics.lookup n := by
        rw [Store.lookup_setStoreValue, if_neg (Ne.symm hi)]
      exact view_eq calls amount hother (fun h => absurd h hi) fun h => absurd h hi
    | @other _ q u metrics props unbarred sound held goes silent =>
      exact view_eq calls amount (by rw [metrics]) (fun h => absurd h hi) fun h => absurd h hi

omit [DecidableEq ι] hc in
theorem Place.held_eq_none {p : Place F} (h : p.Sound) (a : ℤ) : p.held a = none ↔ p.isBetween = false := by
  cases p with
  | away | getting | ended r => simp [Place.held, Place.isBetween]
  | found v | unlisted v | unknown v | setting v | typing v | storing v =>
    obtain ⟨k, rfl⟩ := h
    simp [Place.held, Place.isBetween, PyObject.asInt]

omit [DecidableEq ι] hc in
/-- Calls are apart exactly if they are as additions. -/
theorem apart_seen_iff [Fintype ι] {n : Basestring} {steps : List (State F ι × ι × Place F)}
    (hall : ∀ p ∈ steps, Sound calls p.1) :
    Additions.Apart (seen (view calls amount n) (event calls n) steps) ↔ Apart calls n steps := by
  have hheld : ∀ p ∈ steps, ∀ j, (view calls amount n p.1).held j = none ↔
      ((calls j).name = n → (p.1.place j).isBetween = false) := by
    intro p hp j
    by_cases hj : (calls j).name = n
    · simp [view, hj, Place.held_eq_none ((hall p hp).places j)]
    · simp [view, hj]
  constructor
  · intro h p hp hname haction j hj hjname
    have hevent : event calls n p.2 = some (p.2.1, .store) := by simp [event, hname, haction]
    have hmem : (view calls amount n p.1, (p.2.1, Additions.Action.store)) ∈
        seen (view calls amount n) (event calls n) steps :=
      List.mem_filterMap.mpr ⟨p, hp, by rw [hevent, Option.map_some]⟩
    exact (hheld p hp j).mp (h _ hmem rfl j hj) hjname
  · intro h q hq hstore j hj
    obtain ⟨p, hp, hpq⟩ := List.mem_filterMap.mp hq
    obtain ⟨e, he, rfl⟩ := Option.map_eq_some_iff.mp hpq
    have hname : (calls p.2.1).name = n := by
      by_contra hne
      simp [event, hne] at he
    rw [event, if_pos hname] at he
    obtain ⟨action, haction, rfl⟩ := Option.map_eq_some_iff.mp he
    obtain rfl : action = .store := hstore
    exact (hheld p hp j).mpr (h p hp hname haction j hj)

omit [DecidableEq ι] hc in
theorem sound_start (hs : Steady s) (hn : ∀ i, s.getType (calls i).name = some .number) : Sound calls (start s) :=
  ⟨hs, hn, fun _ => trivial⟩

omit [DecidableEq ι] hc in
theorem view_start [Fintype ι] {n : Basestring} {k : ℤ} (hk : s.metrics.lookup n = some (.int k)) :
    view calls amount n (start s) = Additions.start k := by
  simp [view, start, Additions.start, hk, PyObject.asInt, Place.held, Place.isEnded]

/-- **Calls at one time count if they are apart.** Once all have ended, none has
failed, and each metric has all the amounts of its calls if no call stored it
while another one had looked it up and not stored it. Where the amounts are
positive, it has less otherwise. -/
theorem counts_apart [Fintype ι] (hs : Steady s) (hn : ∀ i, s.getType (calls i).name = some .number)
    {steps : List (State F ι × ι × Place F)} {t : State F ι} (hrun : Run (Step calls) (start s) steps t)
    (hended : ∀ i, (t.place i).isEnded = true) :
    (∀ i, t.place i = .ended (.ok true)) ∧
    ∀ m, ∃ k k' : ℤ, s.metrics.lookup (calls m).name = some (.int k) ∧
      t.store.metrics.lookup (calls m).name = some (.int k') ∧
      (Apart calls (calls m).name steps →
        k' = k + ∑ i ∈ Finset.univ.filter fun i => (calls i).name = (calls m).name, amount i) ∧
      ((∀ i, (calls i).name = (calls m).name → 0 < amount i) → ¬ Apart calls (calls m).name steps →
        k' < k + ∑ i ∈ Finset.univ.filter fun i => (calls i).name = (calls m).name, amount i) := by
  have hall : Throughout (Sound calls) steps t :=
    hrun.throughout (fun _ _ _ hstep h => sound_step hc hstep h) (sound_start hs hn)
  refine ⟨fun i => ?_, fun m => ?_⟩
  · have hsound := hall.2.places i
    have hend := hended i
    revert hsound hend
    cases t.place i with
    | ended r =>
      rintro rfl -
      rfl
    | _ => exact fun _ h => absurd h Bool.false_ne_true
  · obtain ⟨k, hk⟩ := hs.number _ (hn m)
    obtain ⟨k', hk'⟩ := hall.2.steady.number _ (hall.2.number m)
    have hadds : Run (Additions.Step amount) (view calls amount (calls m).name (start s))
        (seen (view calls amount (calls m).name) (event calls (calls m).name) steps)
        (view calls amount (calls m).name t) :=
      hrun.simulates_of_inv (fun s _ _ hstep (h : Sound calls s) => view_step hc (calls m).name hstep h) hall
    rw [view_start hk] at hadds
    have hcell : (view calls amount (calls m).name t).cell = k' := by simp [view, hk', PyObject.asInt]
    have hstored : (view calls amount (calls m).name t).stored =
        Finset.univ.filter fun i => (calls i).name = (calls m).name := by simp [view, hended]
    have hheld : ∀ i, (view calls amount (calls m).name t).held i = none := by
      intro i
      have hbetween : (t.place i).isBetween = false := by
        have hend := hended i
        revert hend
        cases t.place i <;> simp [Place.isEnded, Place.isBetween]
      simp [view, (Place.held_eq_none (hall.2.places i) _).mpr hbetween]
    have hapart : Additions.Apart (seen (view calls amount (calls m).name) (event calls (calls m).name) steps) ↔
        Apart calls (calls m).name steps := apart_seen_iff hall.1
    refine ⟨k, k', hk, hk', fun h => ?_, fun hpos h => ?_⟩
    · rw [← hcell, ← hstored]
      exact Additions.cell_eq hadds (hapart.mpr h)
    · rw [← hcell, ← hstored]
      refine Additions.cell_lt hadds (fun ha => h (hapart.mp ha)) hheld fun i hi => hpos i ?_
      rw [hstored] at hi
      exact (Finset.mem_filter.mp hi).2

end Calls

open Store (halves rateName counter)

/-- Two calls that increment the rate, one by 2 and the other one by 1. -/
def twoCalls (second : Bool) : Change halves := Change.incrMetric rateName (some (.int (if second then 1 else 2)))

/-- A rate of 5, which is known to be a number. -/
def counted : Store halves := { counter with numbertypeLookup := [rateName] }

theorem steady_counted : Steady counted where
  ready := rfl
  number n hn := by
    obtain ⟨p, hp, -⟩ := Option.map_eq_some_iff.mp hn
    obtain rfl : n = rateName := by
      have hmem := mem_of_lookup hp
      simpa [counted, counter] using (Prod.mk.inj (List.mem_singleton.mp hmem)).1
    exact ⟨5, rfl⟩
  unbarred _ _ := List.not_mem_nil

/-- Both look up the rate before one stores it. -/
theorem exists_overlapping : ∃ steps t, Run (Step twoCalls) (start counted) steps t ∧
    (∀ i, (t.place i).isEnded = true) ∧ t.store.metrics.lookup rateName = some (.int 6) := by
  refine ⟨_, _, .cons (.access (i := false) rfl rfl) <| .cons (.access (i := false) rfl rfl) <|
    .cons (.access (i := true) rfl rfl) <| .cons (.access (i := true) rfl rfl) <|
    .cons (.access (i := false) rfl rfl) <| .cons (.access (i := false) rfl rfl) <|
    .cons (.access (i := false) rfl rfl) <| .cons (.access (i := false) rfl rfl) <|
    .cons (.access (i := true) rfl rfl) <| .cons (.access (i := true) rfl rfl) <|
    .cons (.access (i := true) rfl rfl) <| .cons (.access (i := true) rfl rfl) <| .nil _, ?_, ?_⟩
  · rintro (_ | _) <;> rfl
  · rfl

/-- None of the two fails, and the rate is 6 and not 8. -/
theorem counts_apart_overlapping : ∃ steps t, Run (Step twoCalls) (start counted) steps t ∧
    (∀ i, t.place i = .ended (.ok true)) ∧ ¬ Apart twoCalls rateName steps ∧
    t.store.metrics.lookup rateName = some (.int 6) := by
  obtain ⟨steps, t, hrun, hended, hrate⟩ := exists_overlapping
  have hadds : ∀ i, (twoCalls i).Adds (twoCalls i).name (if i then 1 else 2) := fun i => adds_incrMetric rateName _
  obtain ⟨hok, hcounts⟩ := counts_apart hadds steady_counted (fun _ => rfl) hrun hended
  refine ⟨steps, t, hrun, hok, fun hapart => ?_, hrate⟩
  obtain ⟨k, k', hk, hk', hsum, -⟩ := hcounts false
  obtain rfl : 5 = k := PyObject.int.inj (Option.some.inj hk)
  obtain rfl : 6 = k' := PyObject.int.inj (Option.some.inj (hrate.symm.trans hk'))
  exact absurd (hsum hapart) (by decide)

end Threads

end Plethoralib

end Plethora
