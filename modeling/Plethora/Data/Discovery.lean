/-
# What a call discovers

What a module and the registry hold of its metrics is its `Catalog`: the
names it lists and the metrics registered. A discovery adds the metrics the
remote end describes, one after the other: the attributes of an `MBeanInfo`
until one cannot be decoded, or each metric whose properties a web agent
answered and that could be decoded.

Whatever a call is and however its retries nest, the catalog after it is the
one before with the metrics added that were described in its requests
(`discovers_connect`, `discovers_getValue`). What is registered under a name
is then the metric made of its last description the factory takes, or what
was there before (`get_addedAll`).

Key definitions: `Catalog`, `Catalog.addedAll`, `taken`, `RemoteModule.described`,
`RemoteModule.describes`, `Discovers`.
Key theorems: `mem_addedAll`, `get_addedAll`, `RemoteModule.discovers_connect`,
`RemoteModule.discovers_getValue`.
-/
import Plethora.Common.Names
import Plethora.Data.RemoteModule

namespace Plethora

open Eff

/-- A metric as it is described by its module. -/
abbrev Description := Text × MetricProperties

/-! ### The catalog -/

structure Catalog where
  moduleName : Text
  metricNames : TreeSet
  metrics : Metrics

namespace Catalog

/-- `addMetric`. -/
def added (s : Catalog) (d : Description) : Catalog :=
  { s with
    metricNames := s.metricNames.add d.1
    metrics := s.metrics.addMetric
      (MetricFactory.getMetric (NameResolver.resolveMetricName d.1 s.moduleName) d.2) }

def addedAll (s : Catalog) (descriptions : List Description) : Catalog := descriptions.foldl added s

theorem addedAll_append (s : Catalog) (l l' : List Description) :
    s.addedAll (l ++ l') = (s.addedAll l).addedAll l' := List.foldl_append

@[simp] theorem moduleName_addedAll : ∀ (l : List Description) (s : Catalog),
    (s.addedAll l).moduleName = s.moduleName
  | [], _ => rfl
  | d :: l, s => moduleName_addedAll l (s.added d)

/-- Every name described is listed. -/
theorem mem_addedAll {x : Text} : ∀ {l : List Description} {s : Catalog},
    x ∈ (s.addedAll l).metricNames ↔ x ∈ s.metricNames ∨ ∃ d ∈ l, d.1 = x
  | [], s => by simp [addedAll]
  | d :: l, s => by
    have ih := mem_addedAll (x := x) (l := l) (s := s.added d)
    show x ∈ ((s.added d).addedAll l).metricNames ↔ _
    rw [ih, List.exists_mem_cons_iff]
    have hadd : x ∈ (s.added d).metricNames ↔ x = d.1 ∨ x ∈ s.metricNames := TreeSet.mem_add
    rw [hadd]
    constructor
    · rintro ((rfl | h) | h)
      · exact Or.inr (Or.inl rfl)
      · exact Or.inl h
      · exact Or.inr (Or.inr h)
    · rintro (h | rfl | h)
      · exact Or.inl (Or.inr h)
      · exact Or.inl (Or.inl rfl)
      · exact Or.inr h

end Catalog

/-- The description is of the metric with this full name, and the factory
makes a metric of it. -/
def Takes (module name : Text) (d : Description) : Prop :=
  NameResolver.resolveMetricName d.1 module = some name ∧ (MetricFactory.initialValue d.2.type).isSome = true

instance (module name : Text) (d : Description) : Decidable (Takes module name d) :=
  inferInstanceAs (Decidable (_ ∧ _))

/-- The last description the factory takes for a full name. -/
def taken (module name : Text) : List Description → Option MetricProperties
  | [] => none
  | d :: l => (taken module name l).or (if Takes module name d then some d.2 else none)

theorem taken_eq_none {module name : Text} : ∀ {l : List Description},
    taken module name l = none ↔ ∀ d ∈ l, ¬ Takes module name d
  | [] => by simp [taken]
  | d :: l => by
    rw [taken, Option.or_eq_none_iff, taken_eq_none, List.forall_mem_cons, and_comm]
    simp

theorem exists_of_taken {module name : Text} {p : MetricProperties} : ∀ {l : List Description},
    taken module name l = some p → ∃ d ∈ l, Takes module name d ∧ d.2 = p
  | [], h => by cases h
  | d :: l, h => by
    rw [taken, Option.or_eq_some_iff] at h
    rcases h with h | ⟨-, h⟩
    · obtain ⟨d', hd, ht⟩ := exists_of_taken h
      exact ⟨d', List.mem_cons_of_mem _ hd, ht⟩
    · simp only [Option.ite_none_right_eq_some, Option.some.injEq] at h
      exact ⟨d, List.mem_cons_self .., h⟩

/-- What the factory makes of a description it takes. -/
theorem exists_getMetric {module name : Text} {d : Description} (h : Takes module name d) :
    ∃ v made, MetricFactory.initialValue d.2.type = some v ∧
      MetricFactory.getMetric (some name) d.2 = some (Metric.init name v d.2 made) := by
  obtain ⟨v, hv⟩ := Option.isSome_iff_exists.mp h.2
  exact ⟨v, h.2, hv, MetricFactory.getMetric_of_valid (NameResolver.fullName_ne_nil h.1) hv h.2⟩

/-- What is not taken leaves the registry as it is. -/
theorem getMetric_eq_none {module : Text} {d : Description} (h : ∀ name, ¬ Takes module name d) :
    MetricFactory.getMetric (NameResolver.resolveMetricName d.1 module) d.2 = none := by
  cases hname : NameResolver.resolveMetricName d.1 module with
  | none => rfl
  | some name =>
    have htype : MetricFactory.initialValue d.2.type = none := by
      have := h name
      simpa [Takes, hname] using this
    exact MetricFactory.getMetric_of_invalid htype

namespace Catalog

/-- What adding a metric does to the registry. -/
theorem metrics_added (s : Catalog) (d : Description) :
    (∃ name v made, Takes s.moduleName name d ∧ MetricFactory.initialValue d.2.type = some v ∧
      MetricFactory.getMetric (some name) d.2 = some (Metric.init name v d.2 made) ∧
      (s.added d).metrics = s.metrics.put name (Metric.init name v d.2 made)) ∨
    ((∀ name, ¬ Takes s.moduleName name d) ∧ (s.added d).metrics = s.metrics) := by
  by_cases ht : ∃ name, Takes s.moduleName name d
  · obtain ⟨name, h⟩ := ht
    obtain ⟨v, made, hv, hm⟩ := exists_getMetric h
    refine Or.inl ⟨name, v, made, h, hv, hm, ?_⟩
    simp only [added, h.1, hm, Metrics.addMetric, Metric.init_name]
  · have hall := not_exists.mp ht
    refine Or.inr ⟨hall, ?_⟩
    simp only [added, getMetric_eq_none hall, Metrics.addMetric]

theorem get_added (s : Catalog) (d : Description) (name : Text) : (s.added d).metrics.get name =
    if Takes s.moduleName name d then MetricFactory.getMetric (some name) d.2 else s.metrics.get name := by
  rcases s.metrics_added d with ⟨name', v, made, h', -, hm, hput⟩ | ⟨hall, hsame⟩
  · rw [hput]
    by_cases hn : name = name'
    · subst hn
      rw [if_pos h', Metrics.get_put_self, hm]
    · have hne : ¬ Takes s.moduleName name d := fun h => hn (Option.some.inj (h.1.symm.trans h'.1))
      rw [if_neg hne, Metrics.get_put_ne _ _ hn]
  · rw [hsame, if_neg (hall name)]

theorem get_addedAll (name : Text) : ∀ (l : List Description) (s : Catalog), (s.addedAll l).metrics.get name =
    match taken s.moduleName name l with
    | none => s.metrics.get name
    | some p => MetricFactory.getMetric (some name) p
  | [], _ => rfl
  | d :: l, s => by
    have ih := get_addedAll name l (s.added d)
    show ((s.added d).addedAll l).metrics.get name = _
    have hm : (s.added d).moduleName = s.moduleName := rfl
    rw [ih, hm, taken, get_added]
    cases taken s.moduleName name l with
    | some p => rfl
    | none =>
      by_cases h : Takes s.moduleName name d
      · rw [if_pos h, if_pos h]
        rfl
      · rw [if_neg h, if_neg h]
        rfl

/-- The registry after it does not depend on the names listed before. -/
theorem metrics_addedAll_names (module : Text) : ∀ (names names' : TreeSet) (l : List Description) (metrics : Metrics),
    (addedAll ⟨module, names, metrics⟩ l).metrics = (addedAll ⟨module, names', metrics⟩ l).metrics
  | _, _, [], _ => rfl
  | names, names', d :: l, metrics =>
    metrics_addedAll_names module (names.add d.1) (names'.add d.1) l (added ⟨module, names, metrics⟩ d).metrics

/-- Nothing is registered of what the factory does not take. -/
theorem metrics_addedAll_of_none : ∀ {l : List Description} {s : Catalog},
    (∀ name, taken s.moduleName name l = none) → (s.addedAll l).metrics = s.metrics
  | [], _, _ => rfl
  | d :: l, s, h => by
    have hall : ∀ name, ∀ d' ∈ d :: l, ¬ Takes s.moduleName name d' := fun name => taken_eq_none.mp (h name)
    have hrest : ∀ name, taken (s.added d).moduleName name l = none := fun name =>
      taken_eq_none.mpr fun d' hd => hall name d' (List.mem_cons_of_mem _ hd)
    have ih := metrics_addedAll_of_none hrest
    rcases s.metrics_added d with ⟨name, v, made, ht, -⟩ | ⟨-, hsame⟩
    · exact absurd ht (hall name d (List.mem_cons_self ..))
    · exact ih.trans hsame

end Catalog

/-! ### What the answers describe -/

/-- The descriptions an `MBeanInfo` gives before one cannot be decoded. -/
def JMXModule.describedBy (j : JMXModule) : List MBeanAttributeInfo → List Description
  | [] => []
  | attrib :: attribs =>
    match j.decodeToProperties attrib.description with
    | .error _ => []
    | .ok properties => (attrib.name, { properties with type := nameToType attrib.type }) :: describedBy j attribs

/-- The properties in the answer to a property request, if it can be decoded. -/
def WebModule.describedBy (w : WebModule) (metric : Text) : Except Unit (Option Text) → List Description
  | .ok (some body) =>
    match w.decodeProperties body with
    | .error _ => []
    | .ok properties => [(metric, properties)]
  | _ => []

namespace RemoteModule

variable (m : RemoteModule)

/-- What the answer to a request describes; `i` is its number. -/
def described (i : ℕ) (event : RemoteEvent) : List Description :=
  match m, event with
  | .web w, .property metric true =>
    w.describedBy metric (w.answered i (URLBuilder.buildMetricPropsRequest w.url metric))
  | .jmx j, .discovery (some _) => j.describedBy ((j.remote i).info.getD [])
  | _, _ => []

/-- What the answers to requests describe, of which the first has number `base`. -/
def describes (base : ℕ) : List RemoteEvent → List Description
  | [] => []
  | event :: requests => describes base requests ++ m.described (base + requests.length) event

end RemoteModule

def Running.catalog (s : Running) : Catalog := ⟨s.module.moduleName, s.module.metricNames, s.metrics⟩

/-- From `s` to `s'` requests `d` were made, and the metrics described in their
answers added. -/
structure Discovers (m : RemoteModule) (s : Running) (d : List RemoteEvent) (s' : Running) : Prop where
  requests : s'.module.requests = d ++ s.module.requests
  catalog : s'.catalog = s.catalog.addedAll (m.describes s.module.requests.length d)

/-- The state after some discoveries. -/
def Discovered (m : RemoteModule) (s s' : Running) : Prop := ∃ d, Discovers m s d s'

section Steps

variable {m : RemoteModule} {s s' : Running}

theorem Discovered.refl (s : Running) : Discovered m s s := ⟨[], rfl, rfl⟩

theorem Discovered.connected (h : Discovered m s s') (connected : Bool) :
    Discovered m s { s' with module := { s'.module with connected } } := by
  obtain ⟨d, hreq, hcat⟩ := h
  exact ⟨d, hreq, hcat⟩

/-- A request, and the metrics its answer describes. -/
theorem Discovered.described (h : Discovered m s s') {event : RemoteEvent} {t : Running}
    (hr : t.module.requests = event :: s'.module.requests)
    (hc : t.catalog = s'.catalog.addedAll (m.described s'.module.requests.length event)) : Discovered m s t := by
  obtain ⟨d, hreq, hcat⟩ := h
  refine ⟨event :: d, by rw [hr, hreq, List.cons_append], ?_⟩
  rw [hc, hcat, RemoteModule.describes, Catalog.addedAll_append, hreq, List.length_append, Nat.add_comm]

/-- A request whose answer describes nothing. -/
theorem Discovered.recorded (h : Discovered m s s') {event : RemoteEvent} (he : ∀ i, m.described i event = []) :
    Discovered m s (s'.recorded event) := by
  refine h.described (rfl : _ = event :: _) ?_
  rw [he]
  rfl

theorem keeps_record_discovered {event : RemoteEvent} (he : ∀ i, m.described i event = []) :
    Keeps (Discovered m s) (Module.record event) :=
  keeps_modify fun _ h => h.recorded he

theorem keeps_connect_discovered {connectionStatus : Java Bool} {discoverMetrics : Java Unit}
    (hc : Keeps (Discovered m s) connectionStatus) (hd : Keeps (Discovered m s) discoverMetrics) :
    Keeps (Discovered m s) (Module.connect connectionStatus discoverMetrics) := by
  unfold Module.connect
  have hset : ∀ b, Keeps (Discovered m s) (Module.setConnected b) := fun b =>
    keeps_modify fun _ h => h.connected b
  refine keeps_bind (hset false) fun _ => keeps_bind hc fun b => ?_
  cases b with
  | false => exact keeps_bind keeps_get fun _ => keeps_pure _
  | true =>
    refine keeps_bind hd fun _ => keeps_bind (hset true) fun _ => ?_
    exact keeps_bind keeps_get fun _ => keeps_pure _

end Steps

variable {s : Running}

namespace WebModule

variable (w : WebModule) {reconnect : Java Bool} (hr : Keeps (Discovered (.web w) s) reconnect)
include hr

/-- A request other than for properties. -/
theorem keeps_remoteRequest_discovered {describe : Option Text → RemoteEvent} (url : Text) (retry : Bool)
    (he : ∀ r i, (RemoteModule.web w).described i (describe r) = []) :
    Keeps (Discovered (.web w) s) (w.remoteRequest reconnect url retry describe) := by
  unfold remoteRequest
  refine keeps_bind keeps_get fun s' => ?_
  cases w.getResponse url s' with
  | ok response => exact keeps_bind (keeps_record_discovered (he _)) fun _ => keeps_pure _
  | error _ =>
    refine keeps_bind (keeps_record_discovered (he _)) fun _ => ?_
    cases retry with
    | true => exact keeps_bind hr fun _ => keeps_pure _
    | false => exact keeps_pure _

/-- What is added after the answer is what the answer describes. -/
theorem ensures_getMetricProperties_discovered {s' : Running} (metric : Text) (h : Discovered (.web w) s s') :
    (w.getMetricProperties reconnect metric).Ensures s'
      (fun p t => match p with
        | none => Discovered (.web w) s t
        | some p => Discovered (.web w) s (t.added metric p))
      (Discovered (.web w) s) := by
  unfold getMetricProperties remoteRequest
  refine ensures_bind (Q := fun r t =>
    (r = none ∧ Discovered (.web w) s t) ∨
    ∃ body, r = some body ∧ w.answered s'.module.requests.length (URLBuilder.buildMetricPropsRequest w.url metric) =
        .ok (some body) ∧ t = s'.recorded (.property metric true)) ?_ ?_
  · refine ensures_get_bind ?_
    cases hres : w.getResponse (URLBuilder.buildMetricPropsRequest w.url metric) s' with
    | ok response =>
      refine ensures_modify_bind (ensures_pure ?_)
      cases response with
      | none => exact Or.inl ⟨rfl, h.recorded fun _ => rfl⟩
      | some body => exact Or.inr ⟨body, rfl, hres, rfl⟩
    | error _ =>
      refine ensures_modify_bind ?_
      exact ensures_bind (hr _ (h.recorded fun _ => rfl)) fun _ t h' => ensures_pure (Or.inl ⟨rfl, h'⟩)
  · rintro r t (⟨rfl, ht⟩ | ⟨body, rfl, ha, rfl⟩)
    · exact ensures_pure ht
    · have hd : (RemoteModule.web w).described s'.module.requests.length (.property metric true) =
          w.describedBy metric (.ok (some body)) := congrArg (w.describedBy metric) ha
      refine ensures_bind (Q := fun p t => w.decodeProperties body = .ok p ∧ t = s'.recorded (.property metric true))
        (ensures_lift (fun p hp => ⟨hp, rfl⟩) fun e he => ?_) ?_
      · -- the reply says nothing of use, and an exception leaves the loop
        refine h.described (rfl : _ = RemoteEvent.property metric true :: _) ?_
        rw [hd, describedBy, he]
        rfl
      · rintro p t ⟨hp, rfl⟩
        refine ensures_pure (h.described (rfl : _ = RemoteEvent.property metric true :: _) ?_)
        rw [hd, describedBy, hp]
        rfl

theorem keeps_discoverAll_discovered : ∀ names : List Text,
    Keeps (Discovered (.web w) s) (w.discoverAll reconnect names)
  | [] => keeps_pure _
  | n :: names => by
    have ih := keeps_discoverAll_discovered names
    intro s' h
    unfold discoverAll
    refine ensures_bind (w.ensures_getMetricProperties_discovered hr n h) fun p t ht => ?_
    cases p with
    | none => exact ih t ht
    | some p => exact ensures_modify_bind (ih _ ht)

omit hr in
theorem keeps_connect_discovered : ∀ depth : ℕ, Keeps (Discovered (.web w) s) (w.connect depth)
  | 0 => keeps_overflow
  | depth + 1 => by
    have hr := keeps_connect_discovered depth
    refine Plethora.keeps_connect_discovered ?_ ?_
    · exact keeps_bind (w.keeps_remoteRequest_discovered hr _ _ fun _ _ => rfl) fun _ => keeps_pure _
    · refine keeps_bind (keeps_bind (w.keeps_remoteRequest_discovered hr _ _ fun _ _ => rfl) fun _ => keeps_pure _)
        fun names => ?_
      exact w.keeps_discoverAll_discovered hr names

end WebModule

namespace JMXModule

variable (j : JMXModule)

/-- The loop over the attributes adds what they describe, as far as it comes. -/
theorem ensures_discoverAll_discovered : ∀ (attribs : List MBeanAttributeInfo) (s' : Running),
    (j.discoverAll attribs).Ensures s'
      (fun _ t => t.module.requests = s'.module.requests ∧ t.catalog = s'.catalog.addedAll (j.describedBy attribs))
      fun t => t.module.requests = s'.module.requests ∧ t.catalog = s'.catalog.addedAll (j.describedBy attribs)
  | [], s' => ensures_pure ⟨rfl, rfl⟩
  | a :: attribs, s' => by
    unfold discoverAll
    refine ensures_bind (Q := fun p t => j.decodeToProperties a.description = .ok p ∧ t = s')
      (ensures_lift (fun p hp => ⟨hp, rfl⟩) fun e he => ?_) ?_
    · refine ⟨rfl, ?_⟩
      rw [describedBy, he]
      rfl
    · rintro p t ⟨hp, rfl⟩
      refine ensures_modify_bind ?_
      rw [describedBy, hp]
      exact ensures_discoverAll_discovered attribs _

theorem keeps_discoverMetrics_discovered : Keeps (Discovered (.jmx j) s) j.discoverMetrics := by
  intro s' h
  unfold discoverMetrics
  refine ensures_get_bind (ensures_modify_bind ?_)
  cases hi : (j.answer s').info with
  | none => exact ensures_pure (h.recorded fun _ => rfl)
  | some attribs =>
    have hd : ∀ names, (RemoteModule.jmx j).described s'.module.requests.length (.discovery (some names)) =
        j.describedBy attribs := fun names => by
      have hi : (j.remote s'.module.requests.length).info = some attribs := hi
      simp only [RemoteModule.described, hi, Option.getD_some]
    have hdone : ∀ t : Running, t.module.requests = .discovery (some (attribs.map (·.name))) :: s'.module.requests ∧
        t.catalog = s'.catalog.addedAll (j.describedBy attribs) → Discovered (.jmx j) s t := fun t ht =>
      h.described ht.1 (by rw [hd]; exact ht.2)
    exact ensures_mono (j.ensures_discoverAll_discovered attribs _) (fun _ t ht => hdone t ht) fun t ht => hdone t ht

theorem keeps_connect_discovered : Keeps (Discovered (.jmx j) s) j.connect := by
  refine Plethora.keeps_connect_discovered ?_ j.keeps_discoverMetrics_discovered
  exact keeps_bind keeps_get fun _ => keeps_bind (keeps_record_discovered fun _ => rfl) fun _ => keeps_pure _

theorem keeps_getRemoteGenericMetric_discovered (metric : Text) :
    Keeps (Discovered (.jmx j) s) (j.getRemoteGenericMetric metric) := by
  unfold getRemoteGenericMetric
  refine keeps_bind keeps_get fun s' => ?_
  have hrec : ∀ b, Keeps (Discovered (.jmx j) s) (Module.record (.value metric b)) :=
    fun b => keeps_record_discovered fun _ => rfl
  cases (j.answer s').getAttribute with
  | value v => exact keeps_bind (hrec true) fun _ => keeps_pure _
  | jmxException => exact keeps_bind (hrec false) fun _ => keeps_pure _
  | ioException => exact keeps_bind (hrec false) fun _ => keeps_bind j.keeps_connect_discovered fun _ => keeps_pure _

end JMXModule

namespace RemoteModule

theorem keeps_connect_discovered (depth : ℕ) (m : RemoteModule) : Keeps (Discovered m s) (m.connect depth) := by
  cases m with
  | web w => exact w.keeps_connect_discovered depth
  | jmx j => exact j.keeps_connect_discovered

theorem keeps_getValue_discovered (depth : ℕ) (m : RemoteModule) (metric : Text) :
    Keeps (Discovered m s) (m.getValue depth metric) := by
  apply keeps_getValue_of
  cases m with
  | web w =>
    exact keeps_bind (w.keeps_remoteRequest_discovered (w.keeps_connect_discovered depth) _ _ fun _ _ => rfl)
      fun _ => keeps_pure _
  | jmx j => exact j.keeps_getRemoteGenericMetric_discovered metric

/-- What a `connect` discovers. -/
theorem discovers_connect (depth : ℕ) (m : RemoteModule) (s : Running) :
    (m.connect depth).Ensures s (fun _ s' => Discovered m s s') (Discovered m s) :=
  m.keeps_connect_discovered depth s (Discovered.refl s)

/-- What a read discovers. -/
theorem discovers_getValue (depth : ℕ) (m : RemoteModule) (metric : Text) (s : Running) :
    (m.getValue depth metric).Ensures s (fun _ s' => Discovered m s s') (Discovered m s) :=
  m.keeps_getValue_discovered depth metric s (Discovered.refl s)

end RemoteModule

end Plethora
