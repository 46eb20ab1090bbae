/-
# The writers of a metric's value

A metric's value is written by the three `setMetric` of a channel, by the
attributes of an MBean and by the server, which stores what a module returns.
All of them come down to `Metric.setValue` or `setValueAsObject`, whose type
parameter is erased: a `Metrics.setValue` casts the metric to one of objects.
Either stores an object of any class and returns true unless it is null, while
the type of the metric stays what it was.

So the values match their types throughout, and what does not match is
rejected, exactly if every object that is written is null or of the class of
its metric's type: `writers_iff`.

Key definitions: `Writer`, `Writer.after`, `Writer.stores`, `Admitted`,
`Writer.Rejecting`.
Key theorems: `Writer.after_eq`, `Writer.rejecting_iff`, `writers_iff`.
-/
import Plethora.Channel.Channel
import Plethora.Jmx.Attributes

namespace Plethora

/-- `MetricService.refreshMetric(name)`. -/
def MetricService.refreshMetric (live : LiveValue) (metrics : Metrics) (name : Text) : Except JavaError Bool × Metrics :=
  match metrics.get name with
  | none => (.ok false, metrics)
  | some metric =>
    match live metric.moduleName metric.metricName with
    | .error e => (.error e, metrics)
    | .ok value => (.ok value.isSome, metrics.put name (metric.setValueAsObject value))

/-- A metric that the factory builds is registered, or a value is written. -/
inductive Writer
  | addMetric (name textvalue : Option Text) (properties : MetricProperties)
  | setNumber (name : Text) (value : Int64)
  | setText (name : Text) (value : Option Text)
  | setBoolean (name : Text) (value : Bool)
  | external (w : ExternalWrite)
  | refreshMetric (live : LiveValue) (name : Text)

/-- The object may be written to the metric: it is null, or of the class of the
metric's type. -/
def Admitted (s : Metrics) (name : Text) (value : Option JavaObject) : Prop :=
  ∀ m, s.get name = some m → ∀ v, value = some v → Metrics.admits m.metricType v = true

instance (s : Metrics) (name : Text) (value : Option JavaObject) : Decidable (Admitted s name value) :=
  decidable_of_iff (((s.get name).all fun m => value.all fun v => Metrics.admits m.metricType v) = true) <| by
    simp [Admitted, Option.all_eq_true]

namespace Writer

/-- The registry after the call. -/
def after (s : Metrics) : Writer → Metrics
  | .addMetric name textvalue properties => s.addMetric (MetricFactory.getMetricOf name textvalue properties)
  | .setNumber name value => (Channel.setNumber s name value).2
  | .setText name value => (Channel.setText s name value).2
  | .setBoolean name value => (Channel.setBoolean s name value).2
  | .external w => w.after s
  | .refreshMetric live name => (MetricService.refreshMetric live s name).2

/-- The objects an MBean's `setAttribute` writes, of a metric that is there: in
immediate mode the one its module gave, and the value of the attribute, if
there was one to be read. -/
def attributeStores (bean : Bean) (m : Metric) (value : Option JavaObject) : List (Option JavaObject) :=
  match bean with
  | .client => if m.value = none then [] else [value]
  | .server none => if m.value = none then [] else [value]
  | .server (some live) =>
    match live m.moduleName m.metricName with
    | .error _ => []
    | .ok none => [none]
    | .ok (some v) => [some v, value]

/-- The objects a call writes, with the names of their metrics. -/
def stores (s : Metrics) : Writer → List (Text × Option JavaObject)
  | .addMetric _ _ _ => []
  | .setNumber name value => [(name, some (.long value))]
  | .setText name value => [(name, value.map .string)]
  | .setBoolean name value => [(name, some (.boolean value))]
  | .external ⟨bean, .setAttribute a⟩ =>
    ((s.get a.name).elim [] fun m => attributeStores bean m a.value).map fun value => (a.name, value)
  | .external ⟨_, .setAttributes attributes⟩ => attributes.map fun a => (a.name, a.value)
  | .refreshMetric live name =>
    ((s.get name).elim [] fun m => (live m.moduleName m.metricName).toOption.toList).map fun value => (name, value)

/-- Objects of a wrong class are rejected: a call that writes one returns false, or
throws, and leaves the registry as it was; `setAttributes`, of more than one
attribute, does what it would do without those. -/
def Rejecting (s : Metrics) : Writer → Prop
  | .addMetric _ _ _ => True
  | .setNumber name value => ¬ Admitted s name (some (.long value)) → Channel.setNumber s name value = (false, s)
  | .setText name value => ¬ Admitted s name (value.map .string) → Channel.setText s name value = (false, s)
  | .setBoolean name value => ¬ Admitted s name (some (.boolean value)) → Channel.setBoolean s name value = (false, s)
  | .external ⟨bean, .setAttribute a⟩ =>
    (∃ e ∈ stores s (.external ⟨bean, .setAttribute a⟩), ¬ Admitted s e.1 e.2) →
      (bean.methods.setAttribute s a).1 ≠ .ok () ∧ (bean.methods.setAttribute s a).2 = s
  | .external ⟨bean, .setAttributes attributes⟩ =>
    bean.methods.setAttributes s attributes =
      bean.methods.setAttributes s (attributes.filter fun a => Admitted s a.name a.value)
  | .refreshMetric live name =>
    (∃ e ∈ stores s (.refreshMetric live name), ¬ Admitted s e.1 e.2) →
      MetricService.refreshMetric live s name = (.ok false, s)

/-! ### One call -/

variable {s : Metrics}

/-- The registry with the objects stored. -/
def storeAll (s : Metrics) (stores : List (Text × Option JavaObject)) : Metrics :=
  stores.foldl (fun s e => s.update e.1 e.2) s

theorem after_setAttribute (s : Metrics) (bean : Bean) (a : Attribute) :
    (bean.methods.setAttribute s a).2 = storeAll s (stores s (.external ⟨bean, .setAttribute a⟩)) := by
  cases hm : s.get a.name with
  | none =>
    rw [ExternalWrite.setAttribute_missing hm]
    simp only [stores, hm]
    rfl
  | some m =>
    unfold PlethoraMBean.setAttribute
    simp only [stores, hm, Option.elim_some]
    cases bean with
    | client =>
      simp only [Bean.methods, Metrics.getValue, hm, Option.bind_some, attributeStores]
      cases hv : m.value with
      | none => rfl
      | some v => exact Metrics.setValue_snd s a.name a.value
    | server immediateAccess =>
      cases immediateAccess with
      | none =>
        simp only [Bean.methods, PlethoraServerMBean.getMetric, hm, attributeStores]
        cases hv : m.value with
        | none => rfl
        | some v => exact Metrics.setValue_snd s a.name a.value
      | some live =>
        simp only [Bean.methods, PlethoraServerMBean.getMetric, hm, attributeStores, ← Metrics.update_eq hm]
        cases live m.moduleName m.metricName with
        | error e => rfl
        | ok value =>
          cases value with
          | none => rfl
          | some v => exact Metrics.setValue_snd _ a.name a.value

theorem after_refreshMetric (s : Metrics) (live : LiveValue) (name : Text) :
    (MetricService.refreshMetric live s name).2 = storeAll s (stores s (.refreshMetric live name)) := by
  unfold MetricService.refreshMetric
  cases hm : s.get name with
  | none =>
    simp only [stores, hm]
    rfl
  | some m =>
    simp only [stores, hm, Option.elim_some, ← Metrics.update_eq hm]
    cases live m.moduleName m.metricName with
    | error e => rfl
    | ok value => rfl

/-- A call that adds no metric leaves the registry with the objects it writes. -/
theorem after_eq (s : Metrics) : ∀ w : Writer,
    (∃ name textvalue properties, w = .addMetric name textvalue properties) ∨ after s w = storeAll s (stores s w)
  | .addMetric name textvalue properties => Or.inl ⟨name, textvalue, properties, rfl⟩
  | .setNumber name value => Or.inr (Metrics.setValue_snd s name _)
  | .setText name value => Or.inr (Metrics.setValue_snd s name _)
  | .setBoolean name value => Or.inr (Metrics.setValue_snd s name _)
  | .external ⟨bean, .setAttribute a⟩ => Or.inr (after_setAttribute s bean a)
  | .external ⟨bean, .setAttributes attributes⟩ => Or.inr (by
    show (bean.methods.setAttributes s attributes).2 = _
    rw [ExternalWrite.setAttributes_leaves, storeAll, stores, List.foldl_map])
  | .refreshMetric live name => Or.inr (after_refreshMetric s live name)

/-- A metric keeps its type, whatever is written. -/
theorem admitted_update {name other : Text} {value v : Option JavaObject} :
    Admitted (s.update other v) name value ↔ Admitted s name value := by
  unfold Admitted
  by_cases h : name = other
  · subst h
    rw [Metrics.get_update_self]
    cases s.get name with
    | none => simp
    | some m => simp [Metric.setValueAsObject]
  · rw [Metrics.get_update_ne s v h]

/-- `setValue` returns true for an object of a wrong class. -/
theorem setValue_rejecting_iff {name : Text} {value : Option JavaObject} :
    (¬ Admitted s name value → s.setValue name value = (false, s)) ↔ Admitted s name value := by
  constructor
  · intro h
    by_contra hnot
    have hfalse := congrArg Prod.fst (h hnot)
    simp only [Admitted, not_forall] at hnot
    obtain ⟨m, hm, v, rfl, -⟩ := hnot
    rw [Metrics.setValue_fst, hm] at hfalse
    cases hfalse
  · exact fun h hnot => absurd h hnot

/-- A refresh that gives an object of a wrong class returns true. -/
theorem refreshed_of_not_admitted {live : LiveValue} {name : Text} {e : Text × Option JavaObject}
    (he : e ∈ stores s (.refreshMetric live name)) (h : ¬ Admitted s e.1 e.2) :
    (MetricService.refreshMetric live s name).1 = .ok true := by
  obtain ⟨value, hvalue, rfl⟩ := List.mem_map.mp he
  cases hm : s.get name with
  | none =>
    rw [hm] at hvalue
    exact absurd hvalue List.not_mem_nil
  | some m =>
    simp only [hm, Option.elim_some] at hvalue
    cases hlive : live m.moduleName m.metricName with
    | error e =>
      rw [hlive] at hvalue
      exact absurd hvalue List.not_mem_nil
    | ok value' =>
      rw [hlive] at hvalue
      obtain rfl : value = value' := List.mem_singleton.mp hvalue
      cases value with
      | none => exact absurd (fun _ _ _ hv => by cases hv) h
      | some v => simp [MetricService.refreshMetric, hm, hlive]

/-- An attribute, or a module's value, of a wrong class is taken. -/
theorem set_of_not_admitted {bean : Bean} {a : Attribute} {e : Text × Option JavaObject}
    (he : e ∈ stores s (.external ⟨bean, .setAttribute a⟩)) (h : ¬ Admitted s e.1 e.2) :
    (bean.methods.setAttribute s a).1 = .ok () := by
  obtain ⟨value, hvalue, rfl⟩ := List.mem_map.mp he
  cases hm : s.get a.name with
  | none =>
    rw [hm] at hvalue
    exact absurd hvalue List.not_mem_nil
  | some m =>
    simp only [hm, Option.elim_some] at hvalue
    have hreadable : ExternalWrite.Readable bean m := by
      cases bean with
      | client =>
        intro hnone
        simp [attributeStores, hnone] at hvalue
      | server immediateAccess =>
        cases immediateAccess with
        | none =>
          intro hnone
          simp [attributeStores, hnone] at hvalue
        | some live =>
          simp only [attributeStores] at hvalue
          cases hlive : live m.moduleName m.metricName with
          | error e =>
            rw [hlive] at hvalue
            exact absurd hvalue List.not_mem_nil
          | ok value' =>
            cases value' with
            | none =>
              rw [hlive] at hvalue
              obtain rfl : value = none := List.mem_singleton.mp hvalue
              exact absurd (fun _ _ _ hv => by cases hv) h
            | some v => exact ⟨v, hlive⟩
    rcases ExternalWrite.setAttribute_registered hm with ⟨-, hok, -⟩ | ⟨hnot, -⟩
    · exact hok
    · exact absurd hreadable hnot

/-- `setAttributes` reports an attribute of a wrong class. -/
theorem setAttributes_rejecting_iff {bean : Bean} {attributes : List Attribute} :
    bean.methods.setAttributes s attributes =
        bean.methods.setAttributes s (attributes.filter fun a => Admitted s a.name a.value) ↔
      ∀ a ∈ attributes, Admitted s a.name a.value := by
  constructor
  · intro heq a ha
    by_contra hnot
    have hthere : (s.get a.name).isSome = true := by
      simp only [Admitted, not_forall] at hnot
      obtain ⟨m, hm, -⟩ := hnot
      rw [hm]
      rfl
    have hreported := congrArg Prod.fst heq
    rw [ExternalWrite.setAttributes_reported, ExternalWrite.setAttributes_reported] at hreported
    have hmem : a ∈ attributes.filter fun a => (s.get a.name).isSome := List.mem_filter.mpr ⟨ha, hthere⟩
    rw [hreported] at hmem
    exact hnot (of_decide_eq_true (List.mem_filter.mp (List.mem_filter.mp hmem).1).2)
  · intro hall
    rw [List.filter_eq_self.mpr fun a ha => decide_eq_true (hall a ha)]

/-- A call rejects what is of a wrong class exactly if it writes nothing such. -/
theorem rejecting_iff (s : Metrics) : ∀ w : Writer, Rejecting s w ↔ ∀ e ∈ stores s w, Admitted s e.1 e.2
  | .addMetric _ _ _ => iff_of_true trivial fun _ he => absurd he List.not_mem_nil
  | .setNumber name value => by
    rw [stores, List.forall_mem_singleton]
    exact setValue_rejecting_iff
  | .setText name value => by
    rw [stores, List.forall_mem_singleton]
    exact setValue_rejecting_iff
  | .setBoolean name value => by
    rw [stores, List.forall_mem_singleton]
    exact setValue_rejecting_iff
  | .external ⟨bean, .setAttribute a⟩ => by
    constructor
    · intro h e he
      by_contra hnot
      exact (h ⟨e, he, hnot⟩).1 (set_of_not_admitted he hnot)
    · rintro hall ⟨e, he, hnot⟩
      exact absurd (hall e he) hnot
  | .external ⟨bean, .setAttributes attributes⟩ => by
    rw [Rejecting, setAttributes_rejecting_iff, stores, List.forall_mem_map]
  | .refreshMetric live name => by
    constructor
    · intro h e he
      by_contra hnot
      have hfalse := congrArg Prod.fst (h ⟨e, he, hnot⟩)
      rw [refreshed_of_not_admitted he hnot] at hfalse
      cases hfalse
    · rintro hall ⟨e, he, hnot⟩
      exact absurd (hall e he) hnot

theorem matching_update (h : s.Matching) {name : Text} {value : Option JavaObject} (ha : Admitted s name value) :
    (s.update name value).Matching := by
  unfold Metrics.update
  cases hm : s.get name with
  | none => exact h
  | some m => exact Metrics.matching_put h (ha m hm)

theorem matching_storeAll : ∀ {stores : List (Text × Option JavaObject)} {s : Metrics}, s.Matching →
    (∀ e ∈ stores, Admitted s e.1 e.2) → (storeAll s stores).Matching
  | [], _, h, _ => h
  | e :: rest, s, h, ha => by
    have hfirst := matching_update h (ha e (List.mem_cons_self ..))
    have hrest : ∀ e' ∈ rest, Admitted (s.update e.1 e.2) e'.1 e'.2 :=
      fun e' he' => admitted_update.mpr (ha e' (List.mem_cons_of_mem _ he'))
    show (storeAll (s.update e.1 e.2) rest).Matching
    exact matching_storeAll hfirst hrest

theorem matching_after (h : s.Matching) (w : Writer) (ha : ∀ e ∈ stores s w, Admitted s e.1 e.2) :
    (after s w).Matching := by
  rcases after_eq s w with ⟨name, textvalue, properties, rfl⟩ | heq
  · exact Metrics.matching_addMetric h name textvalue properties
  · rw [heq]
    exact matching_storeAll h ha

/-! ### Runs -/

def Step (s : Metrics) (w : Writer) (t : Metrics) : Prop := after s w = t

end Writer

/-- **The values match their types, and what does not is rejected, exactly if
nothing else is written.** A run starts with no metrics. -/
theorem writers_iff {steps : List (Metrics × Writer)} {u : Metrics} (h : Run Writer.Step {} steps u) :
    (Throughout Metrics.Matching steps u ∧ ∀ p ∈ steps, p.2.Rejecting p.1) ↔
      ∀ p ∈ steps, ∀ e ∈ p.2.stores p.1, Admitted p.1 e.1 e.2 := by
  constructor
  · rintro ⟨-, hrejecting⟩ p hp
    exact (Writer.rejecting_iff p.1 p.2).mp (hrejecting p hp)
  · intro hall
    refine ⟨?_, fun p hp => (Writer.rejecting_iff p.1 p.2).mpr (hall p hp)⟩
    have hstep : ∀ s w t, Writer.Step s w t → s.Matching → (∀ e ∈ w.stores s, Admitted s e.1 e.2) → t.Matching := by
      intro s w t hst hs hgood
      cases hst
      exact Writer.matching_after hs w hgood
    exact Run.invariant hstep h Metrics.matching_empty hall

/-- A registry with a number metric. -/
def oneCounter : Metrics := ({} : Metrics).addMetric (MetricFactory.getMetricOf (some "rate".toList) none {})

/-- The metric is registered, and a call is made. -/
def declared (w : Writer) : List (Metrics × Writer) := [({}, .addMetric (some "rate".toList) none {}), (oneCounter, w)]

theorem run_declared (w : Writer) : Run Writer.Step {} (declared w) (w.after oneCounter) :=
  .cons rfl (.cons rfl (.nil _))

theorem writers_iff_declared :
    Throughout Metrics.Matching (declared (.setNumber "rate".toList 5))
      (Writer.after oneCounter (.setNumber "rate".toList 5)) := by
  refine ((writers_iff (run_declared _)).mpr ?_).1
  simp only [declared, List.forall_mem_cons]
  refine ⟨fun e he => absurd he List.not_mem_nil, fun e he => ?_, fun p hp => absurd hp List.not_mem_nil⟩
  cases List.mem_singleton.mp he
  intro m hm v hv
  cases hv
  have hmem := mem_of_lookup hm
  cases List.mem_singleton.mp hmem
  rfl

/-- A text is written to the number, and `setMetric` returns true. -/
theorem text_written :
    Run Writer.Step {} (declared (.setText "rate".toList (some "fail".toList)))
      (Writer.after oneCounter (.setText "rate".toList (some "fail".toList))) ∧
    (Channel.setText oneCounter "rate".toList (some "fail".toList)).1 = true ∧
    ¬ Metrics.Matching (Writer.after oneCounter (.setText "rate".toList (some "fail".toList))) := by
  refine ⟨run_declared _, rfl, fun h => ?_⟩
  have hm := h "rate".toList _ rfl (.string "fail".toList) rfl
  cases hm

end Plethora
