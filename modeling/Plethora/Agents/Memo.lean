/-
# The remembered types of a Python agent's metrics

Whether a metric counts as a number is looked at once, when it is first
incremented or decremented, and remembered under its name. A text metric may
hold a number then and another text later, or the other way round, and so may
a metric that is added again; a text can also be made longer by an increment
until it is no number. The remembered answer agrees with the value's own
throughout a run exactly if no call puts a value of the other kind for a
metric that was looked at (`memoAgrees_iff`).

Key definitions: `Plethoralib.PyObject.countsAsNumber`, `Plethoralib.Store.remembered`,
`Plethoralib.Store.MemoAgrees`, `Plethoralib.Store.KeepsKinds`.
Key theorems: `Plethoralib.Store.isNumberTypeMetric_eq`, `Plethoralib.Store.memoAgrees_iff`.
-/
import Plethora.Agents.Readiness

namespace Plethora

namespace Plethoralib

/-- `isNumber(value) and not isBoolean(value)`. -/
def PyObject.countsAsNumber {F : Floats} (value : PyObject F) : Bool :=
  value.isNumber && decide (value.isBoolean = .ok false)

namespace Store

variable {F : Floats}

/-- The answer that is remembered for a name. -/
def remembered (s : Store F) (name : Basestring) : Option Bool :=
  if name ∈ s.numbertypeLookup then some true
  else if name ∈ s.notnumbertypeLookup then some false
  else none

/-- The check of a metric's present value says what the value itself does. -/
def MemoAgrees (s : Store F) : Prop :=
  ∀ n v, s.metrics.lookup n = some v → (s.isNumberTypeMetric n v).2 = v.countsAsNumber

/-! ### The condition on a step -/

/-- The value is of the kind of the present one, if that was looked at. -/
def KeepsKind (s : Store F) (n : Basestring) (v : PyObject F) : Prop :=
  s.remembered n ≠ none → ∀ value, s.metrics.lookup n = some value → v.countsAsNumber = value.countsAsNumber

/-- The result of an operation that is stored is a number still. -/
def KeepsNumber (op : PyObject F → PyObject F → Option (PyObject F)) (s : Store F) (name : Option Basestring)
    (delta : Option (PyObject F)) : Prop :=
  ∀ n d value v, name = some n → delta = some d → s.getMetric (some n) = some value → value.countsAsNumber = true →
    d.isNumber = true → op value d = some v → s.accepts n v = true → v.countsAsNumber = true

def KeepsKinds (s : Store F) : Call F → Prop
  | .addMetric name value _ => ∀ n v, name = some n → value = some v → s.isReady = true → s.KeepsKind n v
  | .write (.setMetric name value) =>
    ∀ n v, name = some n → value = some v → s.isReady = true → s.accepts n v = true → s.KeepsKind n v
  | .write (.incrMetric name delta) => s.KeepsNumber PyObject.add name delta
  | .write (.decrMetric name delta) => s.KeepsNumber PyObject.sub name delta

/-! ### What is remembered -/

variable {s t : Store F} {n m : Basestring} {value v : PyObject F}

/-- **The check** says what is remembered, and otherwise what the value does. -/
theorem isNumberTypeMetric_eq (s : Store F) (n : Basestring) (v : PyObject F) :
    (s.isNumberTypeMetric n v).2 = (s.remembered n).getD v.countsAsNumber := by
  unfold isNumberTypeMetric remembered
  by_cases h : n ∈ s.numbertypeLookup
  · rw [if_pos h, if_pos h, Option.getD_some]
  · by_cases h' : n ∈ s.notnumbertypeLookup
    · rw [if_neg h, if_pos h', if_neg h, if_pos h', Option.getD_some]
    · rw [if_neg h, if_neg h', if_neg h, if_neg h', Option.getD_none, PyObject.countsAsNumber]
      split
      · rename_i hc
        exact hc.symm
      · rename_i hc
        exact (Bool.not_eq_true _ ▸ hc).symm

/-- It is remembered from then on. -/
theorem remembered_isNumberTypeMetric : (s.isNumberTypeMetric n value).1.remembered m =
    if m = n then some (s.isNumberTypeMetric n value).2 else s.remembered m := by
  unfold isNumberTypeMetric remembered
  by_cases hmn : m = n
  · subst hmn
    rw [if_pos rfl]
    by_cases h : m ∈ s.numbertypeLookup
    · simp [h]
    · by_cases h' : m ∈ s.notnumbertypeLookup
      · simp [h, h']
      · simp only [h, h', if_false]
        split
        · simp
        · rw [if_pos List.mem_cons_self]
  · rw [if_neg hmn]
    by_cases h : n ∈ s.numbertypeLookup
    · simp [h]
    · by_cases h' : n ∈ s.notnumbertypeLookup
      · simp [h, h']
      · simp only [h, h', if_false]
        split
        · simp [hmn]
        · simp [hmn]

theorem memoAgrees_iff_remembered :
    s.MemoAgrees ↔ ∀ n v, s.metrics.lookup n = some v → ∀ b, s.remembered n = some b → b = v.countsAsNumber := by
  refine forall₃_congr fun n v _ => ?_
  rw [isNumberTypeMetric_eq]
  cases s.remembered n with
  | none => exact iff_of_true rfl nofun
  | some b => exact ⟨fun h _ hb => Option.some.inj hb ▸ h, fun h => h b rfl⟩

/-- The properties of metrics make no difference. -/
theorem memoAgrees_congr (hm : t.metrics = s.metrics) (hr : ∀ n, t.remembered n = s.remembered n) :
    t.MemoAgrees ↔ s.MemoAgrees := by
  simp only [memoAgrees_iff_remembered, hm, hr]

/-- Only a metric with a value is looked at. -/
def Backed (s : Store F) : Prop := ∀ n, s.remembered n ≠ none → (s.metrics.lookup n).isSome = true

theorem backed_setStoreValue (h : s.Backed) : (s.setStoreValue n v).Backed := by
  intro m hm
  rw [lookup_setStoreValue]
  by_cases hmn : m = n
  · rw [if_pos hmn, Option.isSome_some]
  · rw [if_neg hmn]
    exact h m hm

theorem backed_isNumberTypeMetric (h : s.Backed) (hv : s.metrics.lookup n = some value) :
    (s.isNumberTypeMetric n value).1.Backed := by
  intro m hm
  rw [metrics_isNumberTypeMetric]
  rw [remembered_isNumberTypeMetric] at hm
  by_cases hmn : m = n
  · rw [hmn, hv, Option.isSome_some]
  · rw [if_neg hmn] at hm
    exact h m hm

/-! ### What a call leaves of the agreement -/

theorem memoAgrees_isNumberTypeMetric (h : s.MemoAgrees) (hv : s.metrics.lookup n = some value) :
    (s.isNumberTypeMetric n value).1.MemoAgrees := by
  rw [memoAgrees_iff_remembered]
  intro m w hw b hb
  rw [metrics_isNumberTypeMetric] at hw
  rw [remembered_isNumberTypeMetric] at hb
  by_cases hmn : m = n
  · subst hmn
    rw [if_pos rfl] at hb
    rw [← Option.some.inj hb, h m value hv, ← Option.some.inj (hv.symm.trans hw)]
  · rw [if_neg hmn] at hb
    exact memoAgrees_iff_remembered.mp h m w hw b hb

/-- A value that is stored has to be what is remembered of its name. -/
theorem memoAgrees_setStoreValue (h : s.MemoAgrees) :
    (s.setStoreValue n v).MemoAgrees ↔ ∀ b, s.remembered n = some b → b = v.countsAsNumber := by
  rw [memoAgrees_iff_remembered]
  constructor
  · intro h' b hb
    exact h' n v (by rw [lookup_setStoreValue, if_pos rfl]) b hb
  · intro hv m w hw b hb
    rw [lookup_setStoreValue] at hw
    by_cases hmn : m = n
    · subst hmn
      rw [if_pos rfl] at hw
      rw [← Option.some.inj hw]
      exact hv b hb
    · rw [if_neg hmn] at hw
      exact memoAgrees_iff_remembered.mp h m w hw b hb

theorem keepsKind_iff (h : s.MemoAgrees) (hb : s.Backed) :
    (s.setStoreValue n v).MemoAgrees ↔ s.KeepsKind n v := by
  rw [memoAgrees_setStoreValue h]
  constructor
  · intro hv hn value hvalue
    obtain ⟨b, hb'⟩ := Option.ne_none_iff_exists'.mp hn
    rw [← hv b hb']
    exact memoAgrees_iff_remembered.mp h n value hvalue b hb'
  · intro hv b hb'
    have hn : s.remembered n ≠ none := by
      rw [hb']
      exact Option.some_ne_none b
    obtain ⟨value, hvalue⟩ := Option.isSome_iff_exists.mp (hb n hn)
    rw [hv hn value hvalue]
    exact memoAgrees_iff_remembered.mp h n value hvalue b hb'

theorem keepsKinds_setMetric_iff (h : s.MemoAgrees) (hb : s.Backed) (name : Option Basestring)
    (value : Option (PyObject F)) :
    (s.setMetric name value).1.MemoAgrees ↔ s.KeepsKinds (.write (.setMetric name value)) := by
  rcases setMetric_cases s name value with he | ⟨n, v, rfl, rfl, hr, ha, he⟩
  · rw [he]
    refine iff_of_true h fun n v hn hv hr ha => ?_
    subst hn hv
    rw [setMetric_of_accepts hr ha] at he
    cases (Prod.mk.inj he).2
  · rw [he, keepsKind_iff h hb]
    constructor
    · intro hk n' v' hn hv _ _
      cases hn
      cases hv
      exact hk
    · exact fun hk => hk n v rfl rfl hr ha

/-- The first value of a metric was never looked at. -/
theorem keepsKind_of_missing (hb : s.Backed) (hr : s.isReady = true) (hget : s.getMetric (some n) = none) :
    s.KeepsKind n v := by
  intro hn
  obtain ⟨value, hvalue⟩ := Option.isSome_iff_exists.mp (hb n hn)
  rw [getMetric_eq_some.mpr ⟨hr, hvalue⟩] at hget
  cases hget

section Changes

variable {op : PyObject F → PyObject F → Option (PyObject F)} {d : PyObject F} (h : s.MemoAgrees)
  (first : Option (PyObject F)) (hget : s.getMetric (some n) = some value)
include h hget

/-- The number that a change comes to is stored. -/
theorem keepsNumber_of_result (hcounts : value.countsAsNumber = true) (hd : d.isNumber = true) (hop : op value d = some v)
    (ha : s.accepts n v = true) :
    (s.changeBy op first (some n) (some d)).1.MemoAgrees ↔ s.KeepsNumber op (some n) (some d) := by
  have hlookup := (getMetric_eq_some.mp hget).2
  have hchecked : (s.isNumberTypeMetric n value).2 = true := (h n value hlookup).trans hcounts
  rw [changeBy_of_result first hget hchecked hd hop ha, memoAgrees_setStoreValue (memoAgrees_isNumberTypeMetric h hlookup),
    remembered_isNumberTypeMetric, if_pos rfl, hchecked]
  constructor
  · intro hb n' d' value' v' hn hd' hget' _ _ hop' _
    cases hn
    cases hd'
    cases hget.symm.trans hget'
    cases hop.symm.trans hop'
    exact (hb true rfl).symm
  · rintro hk b hb
    rw [← Option.some.inj hb]
    exact (hk n d value v rfl rfl hget hcounts hd hop ha).symm

/-- Where a change comes to no number that is accepted, nothing is stored. -/
theorem changeBy_of_refused
    (hc : ¬ (value.countsAsNumber = true ∧ d.isNumber = true ∧ ∃ v, op value d = some v ∧ s.accepts n v = true)) :
    (s.changeBy op first (some n) (some d)).1 = (s.isNumberTypeMetric n value).1 := by
  have hlookup := (getMetric_eq_some.mp hget).2
  by_cases hcd : ((s.isNumberTypeMetric n value).2 && d.isNumber) = true
  · obtain ⟨hcounts, hd⟩ := (Bool.and_eq_true _ _).mp hcd
    simp only [changeBy, hget, if_pos hcd]
    cases hop : op value d with
    | none => rfl
    | some v =>
      have hrefused : ¬ s.accepts n v = true := fun ha =>
        hc ⟨(h n value hlookup).symm.trans hcounts, hd, v, hop, ha⟩
      simp [setMetric, hrefused]
  · simp only [changeBy, hget, if_neg hcd]

end Changes

theorem keepsNumber_iff (h : s.MemoAgrees) (hb : s.Backed) (op : PyObject F → PyObject F → Option (PyObject F))
    (first : Option (PyObject F)) (name : Option Basestring) (delta : Option (PyObject F)) :
    (s.changeBy op first name delta).1.MemoAgrees ↔ s.KeepsNumber op name delta := by
  cases name with
  | none => exact iff_of_true (by cases first <;> exact h) fun _ _ _ _ hn => by cases hn
  | some n =>
    cases hget : s.getMetric (some n) with
    | none =>
      have he : (s.changeBy op first (some n) delta).1 = (s.setMetric (some n) first).1 := by
        simp only [changeBy, hget]
      rw [he, keepsKinds_setMetric_iff h hb]
      refine iff_of_true (fun n' v hn _ hr _ => ?_) fun n' d value v hn _ hvalue => ?_
      · cases hn
        exact keepsKind_of_missing hb hr hget
      · cases hn
        rw [hget] at hvalue
        cases hvalue
    | some value =>
      cases delta with
      | none =>
        have he : (s.changeBy op first (some n) none).1 = s := by simp only [changeBy, hget]
        rw [he]
        exact iff_of_true h fun _ _ _ _ _ hd => by cases hd
      | some d =>
        by_cases hc : value.countsAsNumber = true ∧ d.isNumber = true ∧ ∃ v, op value d = some v ∧ s.accepts n v = true
        · obtain ⟨hcounts, hd, v, hop, ha⟩ := hc
          exact keepsNumber_of_result h first hget hcounts hd hop ha
        · rw [changeBy_of_refused h first hget hc]
          refine iff_of_true (memoAgrees_isNumberTypeMetric h (getMetric_eq_some.mp hget).2)
            fun n' d' value' v hn hd' hget' hv hd hop ha => ?_
          cases hn
          cases hd'
          cases hget.symm.trans hget'
          exact absurd ⟨hv, hd, v, hop, ha⟩ hc

/-- **What a call leaves of the agreement.** -/
theorem memoAgrees_afterCall_iff (h : s.MemoAgrees) (hb : s.Backed) (c : Call F) :
    (s.afterCall c).MemoAgrees ↔ s.KeepsKinds c := by
  cases c with
  | addMetric name value properties =>
    cases hr : s.isReady with
    | false =>
      rw [afterCall, addMetric_of_not_ready hr]
      exact iff_of_true h fun n v _ _ hr' => absurd (hr.symm.trans hr') Bool.false_ne_true
    | true =>
      cases name with
      | none => exact iff_of_true h fun _ _ hn => by cases hn
      | some n =>
        cases value with
        | none => exact iff_of_true h fun _ _ _ hv => by cases hv
        | some v =>
          obtain ⟨metricprops, he⟩ := addMetric_of_ready hr n v properties
          have hstored := @memoAgrees_congr _ (s.setStoreValue n v)
            { s with metrics := put n v s.metrics, metricprops } rfl fun _ => rfl
          rw [afterCall, he, hstored, keepsKind_iff h hb]
          constructor
          · intro hk n' v' hn hv _
            cases hn
            cases hv
            exact hk
          · exact fun hk => hk n v rfl rfl hr
  | write w =>
    cases w with
    | setMetric name value => exact keepsKinds_setMetric_iff h hb name value
    | incrMetric name delta => exact keepsNumber_iff h hb PyObject.add _ name delta
    | decrMetric name delta => exact keepsNumber_iff h hb PyObject.sub _ name delta

theorem backed_of_changed {op : PyObject F → PyObject F → Option (PyObject F)} (h : s.Backed) (hc : Changed op s t) :
    t.Backed := by
  cases hc with
  | none => exact h
  | checked n value stored => exact backed_isNumberTypeMetric h (getMetric_eq_some.mp stored).2
  | changed n value d v stored number result accepted =>
    exact backed_setStoreValue (backed_isNumberTypeMetric h (getMetric_eq_some.mp stored).2)
  | first n v missing ready accepted => exact backed_setStoreValue h

theorem backed_afterCall (h : s.Backed) (c : Call F) : (s.afterCall c).Backed := by
  cases c with
  | addMetric name value properties =>
    cases hr : s.isReady with
    | false =>
      rw [afterCall, addMetric_of_not_ready hr]
      exact h
    | true =>
      cases name with
      | none => exact h
      | some n =>
        cases value with
        | none => exact h
        | some v =>
          obtain ⟨metricprops, he⟩ := addMetric_of_ready hr n v properties
          rw [afterCall, he]
          exact backed_setStoreValue (n := n) (v := v) h
  | write w =>
    cases w with
    | setMetric name value =>
      rcases setMetric_cases s name value with he | ⟨n, v, -, -, -, -, he⟩
      · rw [afterCall, after, he]
        exact h
      · rw [afterCall, after, he]
        exact backed_setStoreValue h
    | incrMetric name delta => exact backed_of_changed h (changeBy_cases ..)
    | decrMetric name delta => exact backed_of_changed h (changeBy_cases ..)

/-- **The check agrees with the values throughout, exactly if no call puts a
value of the other kind for a metric that was looked at.** -/
theorem memoAgrees_iff {steps : List (Store F × Call F)} (h : Run Calls s steps t)
    (hnew : ∀ n, s.remembered n = none) : Throughout MemoAgrees steps t ↔ ∀ p ∈ steps, KeepsKinds p.1 p.2 := by
  have hagrees : s.MemoAgrees := memoAgrees_iff_remembered.mpr fun n v _ b hb => by
    rw [hnew n] at hb
    cases hb
  have hbacked : s.Backed := fun n hn => absurd (hnew n) hn
  have hkept : ∀ (s : Store F) (c : Call F) (t : Store F), Calls s c t → s.Backed → True → t.Backed := by
    rintro s c t rfl hb -
    exact backed_afterCall hb c
  have hall := @Run.invariant _ _ Calls Backed (fun _ _ => True) _ _ _ hkept h hbacked fun _ _ => trivial
  have hstep : ∀ (s : Store F) (c : Call F) (t : Store F), Calls s c t → (s.MemoAgrees ∧ s.Backed) →
      ((t.MemoAgrees ∧ t.Backed) ↔ s.KeepsKinds c) := by
    rintro s c t rfl ⟨hs, hb⟩
    rw [and_iff_left (backed_afterCall hb c), memoAgrees_afterCall_iff hs hb]
  rw [← Run.invariant_iff hstep h ⟨hagrees, hbacked⟩]
  exact ⟨fun ha => ⟨fun p hp => ⟨ha.1 p hp, hall.1 p hp⟩, ha.2, hall.2⟩,
    fun ha => ⟨fun p hp => (ha.1 p hp).1, ha.2.1⟩⟩

/-! ### A text metric -/

/-- A store that is initialised from a file with a text metric that shows 5. -/
def noted : Store halves where
  storename := .unicode "plethora".toList
  metrics := [(versionName, .text version), (rateName, .text (.unicode "5".toList))]
  metricprops := [(rateName, { displayname := "rate".toList, type := .text })]

/-- It is incremented by a text, and set to another. -/
def incrAndSet (d v : Text) : List (Call halves) :=
  [.write (.incrMetric (some rateName) (some (.text (.unicode d)))),
    .write (.setMetric (some rateName) (some (.text (.unicode v))))]

theorem memoAgrees_iff_noted :
    Throughout MemoAgrees (stepsOf afterCall noted (incrAndSet "1".toList "7".toList))
      ((incrAndSet "1".toList "7".toList).foldl afterCall noted) := by
  refine (memoAgrees_iff (Run.of_next calls_afterCall noted _) fun n => rfl).mpr fun p hp => ?_
  rcases List.mem_cons.mp hp with rfl | hp
  · intro n d value v hn hd hget _ _ hop _
    cases hn
    cases hd
    cases hget
    cases hop
    decide
  · rw [List.mem_singleton.mp hp]
    intro n v hn hv _ _ _ value hvalue
    cases hn
    cases hv
    cases hvalue
    decide

/-- Set to a word, the metric still counts as a number. -/
theorem not_memoAgrees_word :
    ¬ (∀ (F : Floats) (s t : Store F) (steps : List (Store F × Call F)), (∀ n, s.remembered n = none) →
      Run Calls s steps t → Throughout MemoAgrees steps t) ∧
    (((incrAndSet "1".toList "idle".toList).foldl afterCall noted).isNumberTypeMetric rateName
      (.text (.unicode "idle".toList))).2 = true := by
  have hmemo : (((incrAndSet "1".toList "idle".toList).foldl afterCall noted).isNumberTypeMetric rateName
      (.text (.unicode "idle".toList))).2 = true := by decide
  refine ⟨fun h => ?_, hmemo⟩
  have hlast := (h halves noted _ _ (fun n => rfl)
    (Run.of_next calls_afterCall noted (incrAndSet "1".toList "idle".toList))).2
  have hcounts := hlast rateName (.text (.unicode "idle".toList)) rfl
  rw [hmemo] at hcounts
  exact absurd hcounts (by decide)

end Store

end Plethoralib

end Plethora
