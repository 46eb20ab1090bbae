/-
# Writing metrics through JMX

`PlethoraMBean.setAttribute` and `setAttributes`, and `PlethoraServerMBean`,
which reads and writes through the metric service: in immediate mode its
`getMetric` first asks the metric's module and keeps the answer.

`setAttribute` takes a name for a metric's if `getMetric` returns a value,
`setAttributes` if the registry has it, and reports each attribute whatever
`setMetricValue` returned. Neither asks `canWrite`, though the MBean describes
every attribute as one that cannot be written.

So writes are guarded, that is, leave the metrics that are not writable alone,
report what they changed and treat the same attributes alike, exactly if they
are harmless of themselves: `guarded_iff`.

Key definitions: `PlethoraMBean`, `PlethoraMBean.setAttribute`,
`PlethoraMBean.setAttributes`, `Bean.methods`, `ExternalWrite.Guarded`,
`ExternalWrite.Harmless`.
Key theorems: `step_iff`, `guarded_iff`.
-/
import Plethora.Common.Registry
import Plethora.Lib.Runs

namespace Plethora

/-- `javax.management.Attribute`; its constructor refuses the null name. -/
structure Attribute where
  name : Text
  value : Option JavaObject
  deriving DecidableEq

/-- What `setAttribute` throws. -/
inductive BeanException
  | attributeNotFound
  | runtime (e : JavaError)
  deriving DecidableEq

/-- A `PlethoraMBean`, as the methods that a subclass overrides. Each returns
with the registry after it. -/
structure PlethoraMBean where
  getMetric : Metrics → Text → Except BeanException (Option JavaObject) × Metrics
  setMetricValue : Metrics → Text → Option JavaObject → Bool × Metrics

/-- `modules.getValue(moduleName, metricName)`, of modules as they are at the time. -/
abbrev LiveValue := Option Text → Option Text → Except JavaError (Option JavaObject)

/-- `MetricService.getMetric(name)`; with a live value in immediate mode. -/
def PlethoraServerMBean.getMetric (immediateAccess : Option LiveValue) (metrics : Metrics) (name : Text) :
    Except BeanException (Option JavaObject) × Metrics :=
  match metrics.get name with
  | none => (.ok none, metrics)
  | some metric =>
    match immediateAccess with
    | none => (.ok metric.value, metrics)
    | some live =>
      match live metric.moduleName metric.metricName with
      | .error e => (.error (.runtime e), metrics)
      | .ok value => (.ok value, metrics.put name (metric.setValueAsObject value))

/-- The MBeans there are. -/
inductive Bean
  | client
  | server (immediateAccess : Option LiveValue)

def Bean.methods : Bean → PlethoraMBean
  | .client =>
    { getMetric := fun metrics name => (.ok (metrics.getValue name), metrics), setMetricValue := Metrics.setValue }
  | .server immediateAccess =>
    { getMetric := PlethoraServerMBean.getMetric immediateAccess, setMetricValue := Metrics.setValue }

namespace PlethoraMBean

variable (bean : PlethoraMBean)

def setAttribute (metrics : Metrics) (a : Attribute) : Except BeanException Unit × Metrics :=
  match bean.getMetric metrics a.name with
  | (.error e, metrics) => (.error e, metrics)
  | (.ok none, metrics) => (.error .attributeNotFound, metrics)
  | (.ok (some _), metrics) => (.ok (), (bean.setMetricValue metrics a.name a.value).2)

/-- `setAttributes`, with the list it returns. -/
def setAttributes (metrics : Metrics) : List Attribute → List Attribute × Metrics
  | [] => ([], metrics)
  | a :: attributes =>
    -- `hasMetric`, which no subclass overrides
    if (metrics.get a.name).isSome then
      let (_, metrics) := bean.setMetricValue metrics a.name a.value
      let (resultlist, metrics) := setAttributes metrics attributes
      (a :: resultlist, metrics)
    else setAttributes metrics attributes

end PlethoraMBean

/-! ### External writes -/

inductive BeanCall
  | setAttribute (a : Attribute)
  | setAttributes (attributes : List Attribute)

/-- A call of an MBean, as the MBean is at the time. -/
structure ExternalWrite where
  bean : Bean
  call : BeanCall

namespace ExternalWrite

/-- The registry after a write. -/
def after (s : Metrics) (w : ExternalWrite) : Metrics :=
  match w.call with
  | .setAttribute a => (w.bean.methods.setAttribute s a).2
  | .setAttributes attributes => (w.bean.methods.setAttributes s attributes).2

/-- The value of a metric that is not writable. -/
def readOnlyValue (s : Metrics) (name : Text) : Option (Option JavaObject) :=
  ((s.get name).filter fun m => !m.properties.writable).map (·.value)

/-- The metrics that are not writable have the values they had. -/
def Unchanged (s t : Metrics) : Prop := ∀ name, readOnlyValue t name = readOnlyValue s name

/-- The attributes reported are those whose metric's value changed to the one given. -/
def Reports (s : Metrics) (w : ExternalWrite) : Prop :=
  match w.call with
  | .setAttribute _ => True
  | .setAttributes attributes =>
    (w.bean.methods.setAttributes s attributes).1 =
      attributes.filter fun a => s.getValue a.name ≠ a.value ∧ (after s w).getValue a.name = a.value

/-- What one entry point takes, the other takes too. -/
def Agrees (s : Metrics) (bean : Bean) : Prop :=
  ∀ a, (bean.methods.setAttribute s a).1 = .ok () ↔ (bean.methods.setAttributes s [a]).1 = [a]

/-- The metric has a value to be read. -/
def Readable (bean : Bean) (m : Metric) : Prop :=
  match bean with
  | .client => m.value ≠ none
  | .server none => m.value ≠ none
  | .server (some live) => ∃ v, live m.moduleName m.metricName = .ok (some v)

/-- A write that every metric allows: each has a value to be read; a metric
that is not writable is given the value it has, by `setAttribute`, and none by
`setAttributes`, which gives each metric it names one value, and a new one. -/
def Harmless (s : Metrics) (w : ExternalWrite) : Prop :=
  (∀ n m, s.get n = some m → Readable w.bean m) ∧
  match w.call with
  | .setAttribute a => ∀ m, s.get a.name = some m → m.properties.writable = false → a.value = m.value
  | .setAttributes attributes => ∀ a ∈ attributes, ∀ m, s.get a.name = some m →
    m.properties.writable = true ∧ a.value ≠ m.value ∧ ∀ b ∈ attributes, b.name = a.name → b.value = a.value

/-! ### One write -/

variable {s t : Metrics} {bean : Bean} {a : Attribute} {attributes : List Attribute} {name : Text}

theorem setMetricValue_eq : ∀ bean : Bean, bean.methods.setMetricValue = Metrics.setValue
  | .client => rfl
  | .server _ => rfl

theorem readOnlyValue_eq_none : readOnlyValue s name = none ↔ ∀ m, s.get name = some m → m.properties.writable = true := by
  unfold readOnlyValue
  cases s.get name with
  | none => simp
  | some m => simp [Option.filter]

theorem readOnlyValue_eq_some {v : Option JavaObject} (h : readOnlyValue s name = some v) : s.getValue name = v := by
  unfold readOnlyValue at h
  unfold Metrics.getValue
  cases hm : s.get name with
  | none =>
    rw [hm] at h
    cases h
  | some m =>
    rw [hm] at h
    obtain ⟨m', hm', rfl⟩ := Option.map_eq_some_iff.mp h
    cases (Option.filter_eq_some_iff.mp hm').1
    rfl

theorem readOnlyValue_update (s : Metrics) (k name : Text) (v : Option JavaObject) :
    readOnlyValue (s.update k v) name =
      if name = k then (readOnlyValue s name).map fun _ => v else readOnlyValue s name := by
  unfold readOnlyValue
  by_cases h : name = k
  · subst h
    rw [Metrics.get_update_self, if_pos rfl]
    cases s.get name with
    | none => rfl
    | some m => cases hw : m.properties.writable <;> simp [Option.filter, Metric.setValueAsObject, hw]
  · rw [Metrics.get_update_ne s v h, if_neg h]

/-- `setAttribute` on a metric that is not there. -/
theorem setAttribute_missing (h : s.get a.name = none) :
    bean.methods.setAttribute s a = (.error .attributeNotFound, s) := by
  unfold PlethoraMBean.setAttribute
  cases bean with
  | client => simp only [Bean.methods, Metrics.getValue, h, Option.bind_none]
  | server immediateAccess => simp only [Bean.methods, PlethoraServerMBean.getMetric, h]

/-- `setAttribute` on a metric that is there takes the value if there is one to
be read; in immediate mode that one is kept first. -/
theorem setAttribute_registered {m : Metric} (hm : s.get a.name = some m) :
    (Readable bean m ∧ (bean.methods.setAttribute s a).1 = .ok () ∧
      ∃ r, (r = s ∨ ∃ v, r = s.update a.name v) ∧ (bean.methods.setAttribute s a).2 = r.update a.name a.value) ∨
    (¬ Readable bean m ∧ (bean.methods.setAttribute s a).1 ≠ .ok ()) := by
  have hstored : ∀ r : Metrics, (r.setValue a.name a.value).2 = r.update a.name a.value :=
    fun r => Metrics.setValue_snd r a.name a.value
  unfold PlethoraMBean.setAttribute
  rw [setMetricValue_eq]
  cases bean with
  | client =>
    simp only [Bean.methods, Metrics.getValue, hm, Option.bind_some, Readable]
    cases hv : m.value with
    | none => exact Or.inr ⟨fun h => h rfl, nofun⟩
    | some v => exact Or.inl ⟨Option.some_ne_none v, rfl, s, Or.inl rfl, hstored s⟩
  | server immediateAccess =>
    cases immediateAccess with
    | none =>
      simp only [Bean.methods, PlethoraServerMBean.getMetric, hm, Readable]
      cases hv : m.value with
      | none => exact Or.inr ⟨fun h => h rfl, nofun⟩
      | some v => exact Or.inl ⟨Option.some_ne_none v, rfl, s, Or.inl rfl, hstored s⟩
    | some live =>
      simp only [Bean.methods, PlethoraServerMBean.getMetric, hm, Readable]
      cases hv : live m.moduleName m.metricName with
      | error e =>
        refine Or.inr ⟨?_, nofun⟩
        rintro ⟨v, h⟩
        cases h
      | ok value =>
        cases value with
        | none =>
          refine Or.inr ⟨?_, nofun⟩
          rintro ⟨v, h⟩
          cases h
        | some v =>
          refine Or.inl ⟨⟨v, rfl⟩, rfl, s.update a.name (some v), Or.inr ⟨some v, rfl⟩, ?_⟩
          rw [Metrics.update_eq hm]
          exact hstored _

/-- What `setAttributes` reports: the attributes of metrics that are there. -/
theorem setAttributes_reported : ∀ (attributes : List Attribute) (s : Metrics),
    (bean.methods.setAttributes s attributes).1 = attributes.filter fun a => (s.get a.name).isSome
  | [], _ => rfl
  | a :: attributes, s => by
    unfold PlethoraMBean.setAttributes
    rw [setMetricValue_eq]
    by_cases h : (s.get a.name).isSome = true
    · rw [if_pos h, List.filter_cons, if_pos h]
      show a :: (bean.methods.setAttributes (s.setValue a.name a.value).2 attributes).1 = _
      rw [setAttributes_reported attributes, Metrics.setValue_snd]
      simp only [Metrics.isSome_get_update]
    · rw [if_neg h, List.filter_cons, if_neg h]
      exact setAttributes_reported attributes s

/-- What it leaves: each attribute in turn. A metric that is not there stays so. -/
theorem setAttributes_leaves : ∀ (attributes : List Attribute) (s : Metrics),
    (bean.methods.setAttributes s attributes).2 = attributes.foldl (fun s a => s.update a.name a.value) s
  | [], _ => rfl
  | a :: attributes, s => by
    unfold PlethoraMBean.setAttributes
    rw [setMetricValue_eq, List.foldl_cons]
    by_cases h : (s.get a.name).isSome = true
    · rw [if_pos h]
      show (bean.methods.setAttributes (s.setValue a.name a.value).2 attributes).2 = _
      rw [setAttributes_leaves attributes, Metrics.setValue_snd]
    · rw [if_neg h, setAttributes_leaves attributes s, Metrics.update_of_missing (by simpa using h)]

/-- Both entry points take the same attributes if every metric has a value to
be read. -/
theorem agrees_iff : Agrees s bean ↔ ∀ n m, s.get n = some m → Readable bean m := by
  have hone : ∀ a : Attribute, (bean.methods.setAttributes s [a]).1 = [a] ↔ (s.get a.name).isSome = true := by
    intro a
    rw [setAttributes_reported, List.filter_eq_self]
    simp
  constructor
  · intro h n m hm
    have hset := (h ⟨n, none⟩).mpr ((hone ⟨n, none⟩).mpr (by rw [hm]; rfl))
    rcases @setAttribute_registered s bean ⟨n, none⟩ m hm with ⟨hr, -⟩ | ⟨-, hne⟩
    · exact hr
    · exact absurd hset hne
  · intro h a
    rw [hone]
    cases hm : s.get a.name with
    | none =>
      rw [setAttribute_missing hm]
      exact iff_of_false nofun Bool.false_ne_true
    | some m =>
      rcases @setAttribute_registered s bean a m hm with ⟨-, hok, -⟩ | ⟨hr, -⟩
      · exact iff_of_true hok rfl
      · exact absurd (h _ m hm) hr

theorem isSome_get_foldl_update : ∀ (attributes : List Attribute) (s : Metrics) (name : Text),
    ((attributes.foldl (fun s a => s.update a.name a.value) s).get name).isSome = (s.get name).isSome
  | [], _, _ => rfl
  | a :: attributes, s, name => by
    rw [List.foldl_cons, isSome_get_foldl_update attributes, Metrics.isSome_get_update]

/-- The values the attributes leave. -/
theorem getValue_foldl_update : ∀ (attributes : List Attribute) {s : Metrics}, (s.get name).isSome = true →
    (∃ a ∈ attributes, a.name = name ∧
      (attributes.foldl (fun s a => s.update a.name a.value) s).getValue name = a.value) ∨
    ((∀ a ∈ attributes, a.name ≠ name) ∧
      (attributes.foldl (fun s a => s.update a.name a.value) s).getValue name = s.getValue name)
  | [], _, _ => Or.inr ⟨fun _ h => absurd h List.not_mem_nil, rfl⟩
  | a :: attributes, s, hs => by
    have hstill : ((s.update a.name a.value).get name).isSome = true := by rwa [Metrics.isSome_get_update]
    rw [List.foldl_cons]
    rcases getValue_foldl_update attributes hstill with ⟨b, hb, hn, hv⟩ | ⟨hne, hv⟩
    · exact Or.inl ⟨b, List.mem_cons_of_mem _ hb, hn, hv⟩
    · by_cases hn : a.name = name
      · refine Or.inl ⟨a, List.mem_cons_self .., hn, ?_⟩
        obtain ⟨m, hm⟩ := Option.isSome_iff_exists.mp hs
        rw [hv, Metrics.getValue, ← hn, Metrics.get_update_self, hn, hm]
        rfl
      · refine Or.inr ⟨fun b hb => ?_, ?_⟩
        · rcases List.mem_cons.mp hb with rfl | hb
          · exact hn
          · exact hne b hb
        · rw [hv, Metrics.getValue, Metrics.get_update_ne s _ (Ne.symm hn)]
          rfl

/-- Attributes of writable metrics leave the others alone. -/
theorem readOnlyValue_foldl_update : ∀ (attributes : List Attribute) {s : Metrics},
    (∀ a ∈ attributes, readOnlyValue s a.name = none) →
    readOnlyValue (attributes.foldl (fun s a => s.update a.name a.value) s) name = readOnlyValue s name
  | [], _, _ => rfl
  | a :: attributes, s, h => by
    have hstep : ∀ k, readOnlyValue (s.update a.name a.value) k = readOnlyValue s k := by
      intro k
      rw [readOnlyValue_update]
      by_cases hk : k = a.name
      · rw [if_pos hk, hk, h a (List.mem_cons_self ..)]
        rfl
      · exact if_neg hk
    rw [List.foldl_cons, readOnlyValue_foldl_update attributes fun b hb => by
      rw [hstep]
      exact h b (List.mem_cons_of_mem _ hb), hstep]

/-- A missing metric has no value. -/
theorem getValue_missing (h : s.get name = none) : s.getValue name = none := by
  rw [Metrics.getValue, h]
  rfl

/-- The reports are right for each attribute. -/
theorem reports_iff_each : Reports s ⟨bean, .setAttributes attributes⟩ ↔
    ∀ a ∈ attributes, (s.get a.name).isSome = true ↔
      s.getValue a.name ≠ a.value ∧ (after s ⟨bean, .setAttributes attributes⟩).getValue a.name = a.value := by
  show (bean.methods.setAttributes s attributes).1 = _ ↔ _
  rw [setAttributes_reported]
  constructor
  · intro h a ha
    have hmem : a ∈ attributes.filter (fun a => (s.get a.name).isSome) ↔ a ∈ attributes.filter fun a =>
        s.getValue a.name ≠ a.value ∧ (after s ⟨bean, .setAttributes attributes⟩).getValue a.name = a.value := by rw [h]
    simpa only [List.mem_filter, ha, true_and, decide_eq_true_eq] using hmem
  · intro h
    apply List.filter_congr
    intro a ha
    rw [Bool.eq_iff_iff, decide_eq_true_eq]
    exact h a ha

theorem setAttributes_iff :
    Unchanged s (after s ⟨bean, .setAttributes attributes⟩) ∧ Reports s ⟨bean, .setAttributes attributes⟩ ↔
    ∀ a ∈ attributes, ∀ m, s.get a.name = some m →
      m.properties.writable = true ∧ a.value ≠ m.value ∧ ∀ b ∈ attributes, b.name = a.name → b.value = a.value := by
  have hafter : after s ⟨bean, .setAttributes attributes⟩ =
      attributes.foldl (fun s a => s.update a.name a.value) s := setAttributes_leaves attributes s
  rw [reports_iff_each, hafter]
  constructor
  · rintro ⟨hkept, hreports⟩ a ha m hm
    have hthere : (s.get a.name).isSome = true := by rw [hm]; rfl
    have hvalue : s.getValue a.name = m.value := by
      rw [Metrics.getValue, hm]
      rfl
    obtain ⟨hne, hnew⟩ := (hreports a ha).mp hthere
    refine ⟨?_, fun he => hne (hvalue.trans he.symm), fun b hb hn => ?_⟩
    · -- a metric that is not writable would have kept its value
      by_contra hw
      have hold : readOnlyValue s a.name = some m.value := by
        simp [readOnlyValue, hm, Option.filter, hw]
      have hsame := readOnlyValue_eq_some ((hkept a.name).trans hold)
      exact hne (hvalue.trans (hsame.symm.trans hnew))
    · have hb' := (hreports b hb).mp (by rw [hn]; exact hthere)
      rw [hn] at hb'
      exact hb'.2.symm.trans hnew
  · intro h
    refine ⟨fun name => readOnlyValue_foldl_update attributes fun a ha => ?_, fun a ha => ⟨fun hthere => ?_, ?_⟩⟩
    · exact readOnlyValue_eq_none.mpr fun m hm => (h a ha m hm).1
    · obtain ⟨m, hm⟩ := Option.isSome_iff_exists.mp hthere
      obtain ⟨-, hne, hall⟩ := h a ha m hm
      refine ⟨fun he => hne ?_, ?_⟩
      · rw [← he, Metrics.getValue, hm]
        rfl
      · rcases getValue_foldl_update attributes hthere with ⟨b, hb, hn, hv⟩ | ⟨hnone, -⟩
        · rw [hv, hall b hb hn]
        · exact absurd rfl (hnone a ha)
    · rintro ⟨hne, hnew⟩
      by_contra hmissing
      have hnone : s.get a.name = none := by simpa using hmissing
      have hstill : (attributes.foldl (fun s a => s.update a.name a.value) s).get a.name = none := by
        have hsome := isSome_get_foldl_update attributes s a.name
        rw [hnone] at hsome
        simpa using hsome
      rw [getValue_missing hnone] at hne
      rw [getValue_missing hstill] at hnew
      exact hne hnew

/-- `setAttribute` on a metric that is not writable leaves it the value given. -/
theorem readOnlyValue_setAttribute {m : Metric} (hm : s.get a.name = some m) (hr : Readable bean m) :
    readOnlyValue (after s ⟨bean, .setAttribute a⟩) name =
      if name = a.name then (readOnlyValue s name).map fun _ => a.value else readOnlyValue s name := by
  rcases @setAttribute_registered s bean a m hm with ⟨-, -, r, hkept, hafter⟩ | ⟨hnot, -⟩
  · show readOnlyValue (bean.methods.setAttribute s a).2 name = _
    rw [hafter, readOnlyValue_update]
    rcases hkept with rfl | ⟨v, rfl⟩
    · rfl
    · rw [readOnlyValue_update]
      by_cases hn : name = a.name
      · simp only [if_pos hn, Option.map_map]
        rfl
      · simp only [if_neg hn]
  · exact absurd hr hnot

theorem setAttribute_iff (hr : ∀ n m, s.get n = some m → Readable bean m) :
    Unchanged s (after s ⟨bean, .setAttribute a⟩) ↔
      ∀ m, s.get a.name = some m → m.properties.writable = false → a.value = m.value := by
  cases hm : s.get a.name with
  | none =>
    have hafter : after s ⟨bean, .setAttribute a⟩ = s := congrArg Prod.snd (setAttribute_missing hm)
    rw [hafter]
    exact iff_of_true (fun _ => rfl) fun m h => absurd h (Option.some_ne_none m).symm
  | some m =>
    have hset : ∀ name, _ := fun name => @readOnlyValue_setAttribute s bean a name m hm (hr _ m hm)
    have hold : m.properties.writable = false → readOnlyValue s a.name = some m.value := by
      intro hw
      simp [readOnlyValue, hm, Option.filter, hw]
    constructor
    · intro h m' hm' hw
      cases hm'
      have hkept := h a.name
      rw [hset, if_pos rfl, hold hw] at hkept
      exact Option.some.inj hkept
    · intro h name
      rw [hset]
      by_cases hn : name = a.name
      · subst hn
        rw [if_pos rfl]
        cases hw : m.properties.writable with
        | true =>
          have hnone : readOnlyValue s a.name = none := readOnlyValue_eq_none.mpr fun m' hm' => by
            rw [hm] at hm'
            cases hm'
            exact hw
          rw [hnone]
          rfl
        | false => rw [hold hw, Option.map_some, h m rfl hw]
      · exact if_neg hn

theorem step_iff (s : Metrics) (w : ExternalWrite) :
    (Unchanged s (after s w) ∧ Reports s w ∧ Agrees s w.bean) ↔ Harmless s w := by
  obtain ⟨bean, call⟩ := w
  cases call with
  | setAttribute a =>
    constructor
    · rintro ⟨hkept, -, hagrees⟩
      have hr := agrees_iff.mp hagrees
      exact ⟨hr, (setAttribute_iff hr).mp hkept⟩
    · rintro ⟨hr, h⟩
      exact ⟨(setAttribute_iff hr).mpr h, trivial, agrees_iff.mpr hr⟩
  | setAttributes attributes =>
    constructor
    · rintro ⟨hkept, hreports, hagrees⟩
      exact ⟨agrees_iff.mp hagrees, setAttributes_iff.mp ⟨hkept, hreports⟩⟩
    · rintro ⟨hr, h⟩
      obtain ⟨hkept, hreports⟩ := setAttributes_iff.mpr h
      exact ⟨hkept, hreports, agrees_iff.mpr hr⟩

/-! ### Sequences of writes -/

/-- The writes of a sequence, one after the other. -/
def Step (s : Metrics) (w : ExternalWrite) (t : Metrics) : Prop := after s w = t

/-- What the guard of the attributes should come to, for a sequence of writes
from `s` to `u`: no metric that is not writable has another value at any time,
every report is right and both entry points take the same. -/
structure Guarded (s : Metrics) (steps : List (Metrics × ExternalWrite)) (u : Metrics) : Prop where
  unchanged : Throughout (Unchanged s) steps u
  reports : ∀ p ∈ steps, Reports p.1 p.2
  agrees : ∀ p ∈ steps, Agrees p.1 p.2.bean

/-- **Sequences of JMX writes are guarded exactly if every write is harmless.** -/
theorem guarded_iff {s u : Metrics} {steps : List (Metrics × ExternalWrite)} (h : Run Step s steps u) :
    Guarded s steps u ↔ ∀ p ∈ steps, Harmless p.1 p.2 := by
  have hstep : ∀ t w t', Step t w t' → Unchanged s t → (Unchanged s t' ↔ Unchanged t (after t w)) := by
    intro t w t' hst ht
    cases hst
    exact forall_congr' fun name => by rw [ht name]
  have hrun : Throughout (Unchanged s) steps u ↔ ∀ p ∈ steps, Unchanged p.1 (after p.1 p.2) :=
    @Run.invariant_iff _ _ Step (Unchanged s) (fun t w => Unchanged t (after t w)) _ _ _ hstep h fun _ => rfl
  constructor
  · intro hg p hp
    exact (step_iff p.1 p.2).mp ⟨hrun.mp hg.unchanged p hp, hg.reports p hp, hg.agrees p hp⟩
  · intro hall
    have hgood := fun p hp => (step_iff p.1 p.2).mpr (hall p hp)
    exact ⟨hrun.mpr fun p hp => (hgood p hp).1, fun p hp => (hgood p hp).2.1, fun p hp => (hgood p hp).2.2⟩

/-- A registry with one metric, which holds 0. -/
def oneRate (writable : Bool) : Metrics := ({} : Metrics).put "rate".toList (.init "rate".toList (.long 0) { writable } rfl)

/-- The client's MBean is asked to set it to 5, alone or in a list. -/
def setRate : ExternalWrite := ⟨.client, .setAttribute ⟨"rate".toList, some (.long 5)⟩⟩

def setRates : ExternalWrite := ⟨.client, .setAttributes [⟨"rate".toList, some (.long 5)⟩]⟩

theorem get_oneRate {writable : Bool} {n : Text} {m : Metric} (h : (oneRate writable).get n = some m) :
    n = "rate".toList ∧ m = .init "rate".toList (.long 0) { writable } rfl := by
  have hmem := mem_of_lookup h
  cases List.mem_singleton.mp hmem
  exact ⟨rfl, rfl⟩

theorem guarded_iff_setRates : Guarded (oneRate true) [(oneRate true, setRates)] (after (oneRate true) setRates) := by
  refine (guarded_iff (.cons rfl (.nil _))).mpr fun p hp => ?_
  cases List.mem_singleton.mp hp
  refine ⟨fun n m hm => ?_, fun a ha m hm => ?_⟩
  · obtain ⟨-, rfl⟩ := get_oneRate hm
    exact Option.some_ne_none _
  · obtain ⟨-, rfl⟩ := get_oneRate hm
    cases List.mem_singleton.mp ha
    refine ⟨rfl, by decide, fun b hb _ => ?_⟩
    cases List.mem_singleton.mp hb
    rfl

/-- A metric that is not writable is set. -/
theorem oneRate_written : ¬ Guarded (oneRate false) [(oneRate false, setRate)] (after (oneRate false) setRate) := by
  intro h
  have hlast := h.unchanged.2 "rate".toList
  revert hlast
  decide

end ExternalWrite

end Plethora
