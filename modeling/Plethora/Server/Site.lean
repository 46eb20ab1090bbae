/-
# Discoveries and refreshes

The modules and the registry they share, as the server's threads work on
them: a module discovers its metrics, when it is made and whenever it
connects; a metric is refreshed with the value its module gives, and a read of
a module that finds its connection gone connects and discovers first. A value
read goes into the metric that was looked up before, which the registry no
longer holds if the module discovered it again in between.

A step is one of these as a whole; it says which module acted, what was
described to it and the registry after that, and the value stored in the end.
What a step does to the names listed and to each registered metric is
`Step.effect`; everything proved about runs is proved from it.

Key definitions: `Hosted`, `Site`, `Site.Event`, `Site.Step`, `Site.Listed`,
`Site.Event.after`, `Site.Effect`.
Key theorems: `Site.Step.effect`.
-/
import Plethora.Data.Discovery
import Plethora.Data.LocalModule
import Plethora.Common.Registry
import Plethora.Lib.Runs

namespace Plethora

/-- What a module's metrics are read from. -/
inductive Behind
  | own (l : LocalModule)
  | remote (r : RemoteModule)

structure Hosted where
  state : Module
  behind : Behind

/-- The metrics a remote module was described in these requests. -/
def Hosted.describes (m : Hosted) (r : RemoteModule) (requests : List RemoteEvent) : List Description :=
  r.describes m.state.requests.length requests

/-- `MODULE_MAP` and the registry. -/
structure Site where
  modules : List Hosted
  metrics : Metrics
  keys : (modules.map (·.state.moduleName)).Nodup

namespace Site

/-- The module lists the metric. -/
def Listed (s : Site) (module metric : Text) : Prop :=
  ∃ m ∈ s.modules, m.state.moduleName = module ∧ metric ∈ m.state.metricNames

/-- No module has discovered anything yet. -/
def Fresh (s : Site) : Prop := s.metrics = {} ∧ ∀ m ∈ s.modules, m.state.metricNames = TreeSet.empty

structure Event where
  moduleName : Text
  /-- What was described to the module. -/
  described : List Description
  /-- The registry after the discovery. -/
  discovered : Metrics
  /-- The metric that is given a value in the end, by its full name. -/
  stored : Option (Text × Option JavaObject)

/-- In `s'` the module `m'` is in the place of `m`. -/
structure Replaces (s : Site) (m m' : Hosted) (metrics : Metrics) (s' : Site) : Prop where
  modules : ∃ l₁ l₂, s.modules = l₁ ++ m :: l₂ ∧ s'.modules = l₁ ++ m' :: l₂
  metrics : s'.metrics = metrics

/-- A value is stored in the registry, unless the metric it was read for is
there no more. -/
def store (metrics : Metrics) : Option (Text × Option JavaObject) → Metrics
  | none => metrics
  | some (name, value) => metrics.update name value

/-- The value read for a metric, if the metric was not described again. -/
def kept (module name : Text) (described : List Description) (value : Option JavaObject) :
    Option (Text × Option JavaObject) :=
  if taken module name described = none then some (name, value) else none

inductive Step : Site → Event → Site → Prop
  /-- A module of the server's own discovers its metrics. -/
  | discover {s s' : Site} {m : Hosted} {l : LocalModule} {c : Catalog} (own : m.behind = .own l)
      (catalog : c = Catalog.addedAll ⟨m.state.moduleName, m.state.metricNames, s.metrics⟩ l.described)
      (next : s.Replaces m ⟨{ m.state with metricNames := c.metricNames }, .own l.discovered⟩ c.metrics s') :
      Step s ⟨m.state.moduleName, l.described, c.metrics, none⟩ s'
  /-- The cluster or the processes change. -/
  | moves {s s' : Site} {m : Hosted} {l l' : LocalModule} (own : m.behind = .own l) (change : LocalModule.Moves l l')
      (next : s.Replaces m ⟨m.state, .own l'⟩ s.metrics s') :
      Step s ⟨m.state.moduleName, [], s.metrics, none⟩ s'
  /-- A remote module connects. -/
  | connect {s s' : Site} {m : Hosted} {r : RemoteModule} {depth : ℕ} {b : Bool} {t : Running}
      {requests : List RemoteEvent} (remote : m.behind = .remote r)
      (call : r.connect depth ⟨m.state, s.metrics⟩ = .returned b t)
      (asked : t.module.requests = requests ++ m.state.requests)
      (next : s.Replaces m ⟨t.module, m.behind⟩ t.metrics s') :
      Step s ⟨m.state.moduleName, m.describes r requests, t.metrics, none⟩ s'
  | connectThrows {s s' : Site} {m : Hosted} {r : RemoteModule} {depth : ℕ} {e : JavaError} {t : Running}
      {requests : List RemoteEvent} (remote : m.behind = .remote r)
      (call : r.connect depth ⟨m.state, s.metrics⟩ = .thrown e t)
      (asked : t.module.requests = requests ++ m.state.requests)
      (next : s.Replaces m ⟨t.module, m.behind⟩ t.metrics s') :
      Step s ⟨m.state.moduleName, m.describes r requests, t.metrics, none⟩ s'
  /-- `refreshMetric`, of a metric of a module of the server's own. -/
  | refreshOwn {s s' : Site} {m : Hosted} {l l' : LocalModule} {name : Text} {metric : Metric}
      {value : Option JavaObject} {getMetric : SystemMetricType → Option Int64 → Option Int64}
      (found : s.metrics.get name = some metric) (named : metric.moduleName = some m.state.moduleName)
      (own : m.behind = .own l) (call : l.getValue getMetric (metric.metricName.getD []) = (l', value))
      (next : s.Replaces m ⟨m.state, .own l'⟩ (store s.metrics (some (name, value))) s') :
      Step s ⟨m.state.moduleName, [], s.metrics, some (name, value)⟩ s'
  /-- Of a metric whose module is none of these: it becomes null. -/
  | refreshNone {s s' : Site} {name : Text} {metric : Metric} (found : s.metrics.get name = some metric)
      (named : ∀ m ∈ s.modules, metric.moduleName ≠ some m.state.moduleName) (same : s'.modules = s.modules)
      (next : s'.metrics = store s.metrics (some (name, none))) :
      Step s ⟨[], [], s.metrics, some (name, none)⟩ s'
  /-- Of a metric of a remote module. -/
  | refresh {s s' : Site} {m : Hosted} {r : RemoteModule} {depth : ℕ} {name : Text} {metric : Metric}
      {value : Option JavaObject} {t : Running} {requests : List RemoteEvent}
      (found : s.metrics.get name = some metric) (named : metric.moduleName = some m.state.moduleName)
      (remote : m.behind = .remote r)
      (call : r.getValue depth (metric.metricName.getD []) ⟨m.state, s.metrics⟩ = .returned value t)
      (asked : t.module.requests = requests ++ m.state.requests)
      (next : s.Replaces m ⟨t.module, m.behind⟩
        (store t.metrics (kept m.state.moduleName name (m.describes r requests) value)) s') :
      Step s ⟨m.state.moduleName, m.describes r requests, t.metrics,
        kept m.state.moduleName name (m.describes r requests) value⟩ s'
  | refreshThrows {s s' : Site} {m : Hosted} {r : RemoteModule} {depth : ℕ} {name : Text} {metric : Metric}
      {e : JavaError} {t : Running} {requests : List RemoteEvent}
      (found : s.metrics.get name = some metric) (named : metric.moduleName = some m.state.moduleName)
      (remote : m.behind = .remote r)
      (call : r.getValue depth (metric.metricName.getD []) ⟨m.state, s.metrics⟩ = .thrown e t)
      (asked : t.module.requests = requests ++ m.state.requests)
      (next : s.Replaces m ⟨t.module, m.behind⟩ t.metrics s') :
      Step s ⟨m.state.moduleName, m.describes r requests, t.metrics, none⟩ s'

/-! ### What a step does -/

namespace Event

variable (e : Event)

/-- The last description of a metric that the factory takes. -/
def taken (name : Text) : Option MetricProperties := Plethora.taken e.moduleName name e.described

/-- The metric with this full name after the discovery. -/
def found (before : Metrics) (name : Text) : Option Metric :=
  match e.taken name with
  | none => before.get name
  | some p => MetricFactory.getMetric (some name) p

/-- And after the step. -/
def after (before : Metrics) (name : Text) : Option Metric :=
  match e.stored with
  | none => e.found before name
  | some (stored, value) =>
    if name = stored then (e.found before name).map (·.setValueAsObject value) else e.found before name

end Event

structure Effect (s : Site) (e : Event) (s' : Site) : Prop where
  listed : ∀ module metric, s'.Listed module metric ↔
    s.Listed module metric ∨ (module = e.moduleName ∧ ∃ d ∈ e.described, d.1 = metric)
  discovered : ∀ name, e.discovered.get name = e.found s.metrics name
  get : ∀ name, s'.metrics.get name = e.after s.metrics name
  /-- A value goes into a metric that was there before. -/
  stored : ∀ name value, e.stored = some (name, value) → e.taken name = none
  typed : s.metrics.Typed → s'.metrics.Typed

end Site

theorem Catalog.typed_addedAll : ∀ (l : List Description) (s : Catalog), s.metrics.Typed →
    (s.addedAll l).metrics.Typed
  | [], _, h => h
  | d :: l, s, h => by
    refine typed_addedAll l (s.added d) ?_
    rcases s.metrics_added d with ⟨name, v, made, -, hv, -, hput⟩ | ⟨-, hsame⟩
    · rw [hput]
      refine Metrics.typed_put h rfl ?_
      rw [← MetricFactory.validValue_empty] at hv
      exact MetricFactory.resolveMetricType_validValue hv
    · rw [hsame]
      exact h

theorem Metrics.get_update (s : Metrics) (name stored : Text) (value : Option JavaObject) :
    (s.update stored value).get name =
      if name = stored then (s.get name).map (·.setValueAsObject value) else s.get name := by
  unfold Metrics.update
  by_cases h : name = stored
  · subst h
    rw [if_pos rfl]
    cases hm : s.get name with
    | none => exact hm
    | some m => rw [Metrics.get_put_self, Option.map_some]
  · rw [if_neg h]
    cases hm : s.get stored with
    | none => rfl
    | some m => rw [Metrics.get_put_ne s _ h]

namespace Site

theorem typed_store {metrics : Metrics} (h : metrics.Typed) : ∀ stored, (store metrics stored).Typed
  | none => h
  | some (name, value) => Metrics.typed_update h name value

/-- The registry with the value stored. -/
theorem get_store {e : Event} {before : Metrics} (h : ∀ name, e.discovered.get name = e.found before name)
    (name : Text) : (store e.discovered e.stored).get name = e.after before name := by
  unfold store Event.after
  cases e.stored with
  | none => exact h name
  | some p =>
    obtain ⟨stored, value⟩ := p
    dsimp only
    rw [Metrics.get_update, h]

theorem listed_replaces {s s' : Site} {m m' : Hosted} {metrics : Metrics} {described : List Description}
    (h : s.Replaces m m' metrics s') (hname : m'.state.moduleName = m.state.moduleName)
    (hnames : ∀ x, x ∈ m'.state.metricNames ↔ x ∈ m.state.metricNames ∨ ∃ d ∈ described, d.1 = x)
    (module metric : Text) : s'.Listed module metric ↔
      s.Listed module metric ∨ (module = m.state.moduleName ∧ ∃ d ∈ described, d.1 = metric) := by
  obtain ⟨l₁, l₂, hs, hs'⟩ := h.modules
  unfold Listed
  rw [hs, hs']
  simp only [List.mem_append, List.mem_cons]
  constructor
  · rintro ⟨x, (hx | rfl | hx), hn, hm⟩
    · exact Or.inl ⟨x, Or.inl hx, hn, hm⟩
    · rcases (hnames metric).mp hm with hm | hm
      · exact Or.inl ⟨m, Or.inr (Or.inl rfl), hname.symm.trans hn, hm⟩
      · exact Or.inr ⟨hn.symm.trans hname, hm⟩
    · exact Or.inl ⟨x, Or.inr (Or.inr hx), hn, hm⟩
  · rintro (⟨x, (hx | rfl | hx), hn, hm⟩ | ⟨hn, hm⟩)
    · exact ⟨x, Or.inl hx, hn, hm⟩
    · exact ⟨m', Or.inr (Or.inl rfl), hname.trans hn, (hnames metric).mpr (Or.inl hm)⟩
    · exact ⟨x, Or.inr (Or.inr hx), hn, hm⟩
    · exact ⟨m', Or.inr (Or.inl rfl), hname.trans hn.symm, (hnames metric).mpr (Or.inr hm)⟩

/-- The module's own names and the registry both follow the catalog. -/
theorem effect_of_catalog {s s' : Site} {e : Event} {m m' : Hosted} (hname : e.moduleName = m.state.moduleName)
    (hm' : m'.state.moduleName = m.state.moduleName)
    (hnames : m'.state.metricNames =
      (Catalog.addedAll ⟨m.state.moduleName, m.state.metricNames, s.metrics⟩ e.described).metricNames)
    (hmetrics : e.discovered =
      (Catalog.addedAll ⟨m.state.moduleName, m.state.metricNames, s.metrics⟩ e.described).metrics)
    (hstored : ∀ name value, e.stored = some (name, value) → e.taken name = none)
    (next : s.Replaces m m' (store e.discovered e.stored) s') : Effect s e s' := by
  have hdisc : ∀ name, e.discovered.get name = e.found s.metrics name := fun name => by
    rw [Event.found, Event.taken, hname, hmetrics]
    exact Catalog.get_addedAll name e.described _
  refine ⟨fun module metric => ?_, hdisc, fun name => ?_, hstored, fun ht => ?_⟩
  · rw [hname]
    refine listed_replaces next hm' (fun x => ?_) module metric
    rw [hnames]
    exact Catalog.mem_addedAll
  · rw [next.metrics]
    exact get_store hdisc name
  · rw [next.metrics, hmetrics]
    exact typed_store (Catalog.typed_addedAll _ _ ht) _

/-- A remote module's call. -/
theorem effect_of_discovered {s s' : Site} {e : Event} {m : Hosted} {r : RemoteModule} {t : Running}
    {requests : List RemoteEvent} (hname : e.moduleName = m.state.moduleName)
    (hdescribed : e.described = m.describes r requests) (hdisc : e.discovered = t.metrics)
    (h : Discovered r ⟨m.state, s.metrics⟩ t) (asked : t.module.requests = requests ++ m.state.requests)
    (hstored : ∀ name value, e.stored = some (name, value) → e.taken name = none)
    (next : s.Replaces m ⟨t.module, m.behind⟩ (store e.discovered e.stored) s') : Effect s e s' := by
  obtain ⟨d, hreq, hcat⟩ := h
  obtain rfl : d = requests := List.append_cancel_right (hreq.symm.trans asked)
  have hcat : t.catalog = Catalog.addedAll ⟨m.state.moduleName, m.state.metricNames, s.metrics⟩ e.described := by
    rw [hdescribed]
    exact hcat
  refine effect_of_catalog hname ?_ ?_ ?_ hstored next
  · have h := congrArg Catalog.moduleName hcat
    rwa [Catalog.moduleName_addedAll] at h
  · exact congrArg Catalog.metricNames hcat
  · exact hdisc.trans (congrArg Catalog.metrics hcat)

theorem kept_taken {module name stored : Text} {described : List Description} {value v : Option JavaObject}
    (h : kept module name described value = some (stored, v)) : Plethora.taken module stored described = none := by
  unfold kept at h
  split at h
  · rename_i ht
    cases h
    exact ht
  · cases h

/-- **What a step does** to the names listed and to each registered metric. -/
theorem Step.effect {s s' : Site} {e : Event} (h : Step s e s') : Effect s e s' := by
  cases h with
  | discover own catalog next =>
    subst catalog
    refine effect_of_catalog rfl ?_ ?_ rfl nofun next
    · rfl
    · rfl
  | moves own change next =>
    refine effect_of_catalog rfl ?_ ?_ rfl nofun next
    · rfl
    · rfl
  | @connect _ _ r depth _ _ _ remote call asked next =>
    exact effect_of_discovered rfl rfl rfl ((r.discovers_connect depth _).returned call) asked nofun next
  | @connectThrows _ _ r depth _ _ _ remote call asked next =>
    exact effect_of_discovered rfl rfl rfl ((r.discovers_connect depth _).thrown call) asked nofun next
  | refreshOwn found named own call next =>
    refine effect_of_catalog rfl ?_ ?_ rfl (fun _ _ _ => rfl) next
    · rfl
    · rfl
  | refreshNone found named same next =>
    refine ⟨fun module metric => ?_, fun name => rfl, fun name => ?_, fun _ _ _ => rfl, fun ht => ?_⟩
    · unfold Listed
      rw [same]
      exact (or_iff_left fun h => absurd h.2 (by simp)).symm
    · rw [next]
      exact get_store (e := ⟨[], [], s.metrics, _⟩) (fun name => rfl) name
    · rw [next]
      exact typed_store ht _
  | @refresh _ _ r depth _ metric _ _ _ found named remote call asked next =>
    exact effect_of_discovered rfl rfl rfl ((r.discovers_getValue depth _ _).returned call) asked
      (fun _ _ h => kept_taken h) next
  | @refreshThrows _ _ r depth _ metric _ _ _ found named remote call asked next =>
    exact effect_of_discovered rfl rfl rfl ((r.discovers_getValue depth _ _).thrown call) asked nofun next

/-! ### A registered metric after a step -/

section Effect

variable {s s' : Site} {e : Event} {name : Text}

/-- A metric the factory takes is made anew. -/
theorem Effect.get_taken (h : Effect s e s') {p : MetricProperties} (ht : e.taken name = some p) :
    ∃ v made, MetricFactory.initialValue p.type = some v ∧
      s'.metrics.get name = some (Metric.init name v p made) := by
  obtain ⟨d, -, htakes, rfl⟩ := exists_of_taken ht
  obtain ⟨v, made, hv, hm⟩ := exists_getMetric htakes
  refine ⟨v, made, hv, ?_⟩
  have hfound : e.found s.metrics name = some (Metric.init name v d.2 made) := by
    rw [Event.found, ht]
    exact hm
  rw [h.get, Event.after, hfound]
  cases hst : e.stored with
  | none => rfl
  | some q =>
    have hne : name ≠ q.1 := by
      rintro rfl
      rw [h.stored q.1 q.2 hst] at ht
      cases ht
    exact if_neg hne

theorem Effect.get_stored (h : Effect s e s') {value : Option JavaObject} (hst : e.stored = some (name, value)) :
    s'.metrics.get name = (s.metrics.get name).map (·.setValueAsObject value) := by
  have hfound : e.found s.metrics name = s.metrics.get name := by
    rw [Event.found, h.stored name value hst]
  rw [h.get, Event.after, hst]
  dsimp only
  rw [if_pos rfl, hfound]

theorem Effect.get_neither (h : Effect s e s') (ht : e.taken name = none)
    (hst : ∀ value, e.stored ≠ some (name, value)) : s'.metrics.get name = s.metrics.get name := by
  have hfound : e.found s.metrics name = s.metrics.get name := by
    rw [Event.found, ht]
  rw [h.get, Event.after, hfound]
  cases hq : e.stored with
  | none => rfl
  | some q =>
    have hne : name ≠ q.1 := by
      rintro rfl
      exact hst q.2 hq
    exact if_neg hne

/-- A metric was made in the step, or there before, with another value
perhaps. -/
theorem Effect.get_cases (h : Effect s e s') {m : Metric} (hm : s'.metrics.get name = some m) :
    (∃ d ∈ e.described, Takes e.moduleName name d ∧ ∃ v made, m = Metric.init name v d.2 made) ∨
    ∃ old, s.metrics.get name = some old ∧ (m = old ∨ ∃ value, m = old.setValueAsObject value) := by
  cases ht : e.taken name with
  | some p =>
    obtain ⟨d, hd, htakes, rfl⟩ := exists_of_taken ht
    obtain ⟨v, made, -, hm'⟩ := h.get_taken ht
    exact Or.inl ⟨d, hd, htakes, v, made, Option.some.inj (hm.symm.trans hm')⟩
  | none =>
    by_cases hst : ∃ value, e.stored = some (name, value)
    · obtain ⟨value, hst⟩ := hst
      rw [h.get_stored hst, Option.map_eq_some_iff] at hm
      obtain ⟨old, hold, rfl⟩ := hm
      exact Or.inr ⟨old, hold, Or.inr ⟨value, rfl⟩⟩
    · rw [h.get_neither ht (not_exists.mp hst)] at hm
      exact Or.inr ⟨m, hm, Or.inl rfl⟩

end Effect

/-! ### What is registered, in every state of a run -/

/-- Each registered metric is listed by a module that it has its full name
from, and reads its own names out of that. -/
structure Sound (s : Site) : Prop where
  typed : s.metrics.Typed
  listed : ∀ name m, s.metrics.get name = some m → ∃ module metric, s.Listed module metric ∧
    NameResolver.resolveMetricName metric module = some name
  names : ∀ name m, s.metrics.get name = some m →
    m.moduleName = NameResolver.resolveModule name ∧ m.metricName = NameResolver.resolveMetric name

theorem sound_of_fresh {s : Site} (h : s.Fresh) : s.Sound := by
  have hget : ∀ name m, s.metrics.get name ≠ some m := fun name m hm => by
    rw [h.1] at hm
    cases hm
  refine ⟨?_, fun name m hm => absurd hm (hget name m), fun name m hm => absurd hm (hget name m)⟩
  rw [h.1]
  exact Metrics.typed_empty

theorem Effect.sound {s s' : Site} {e : Event} (h : Effect s e s') (hs : s.Sound) : s'.Sound := by
  refine ⟨h.typed hs.typed, fun name m hm => ?_, fun name m hm => ?_⟩
  · rcases h.get_cases hm with ⟨d, hd, htakes, -⟩ | ⟨old, hold, -⟩
    · exact ⟨e.moduleName, d.1, (h.listed _ _).mpr (Or.inr ⟨rfl, d, hd, rfl⟩), htakes.1⟩
    · obtain ⟨module, metric, hl, hname⟩ := hs.listed name old hold
      exact ⟨module, metric, (h.listed _ _).mpr (Or.inl hl), hname⟩
  · rcases h.get_cases hm with ⟨d, -, -, v, made, rfl⟩ | ⟨old, hold, rfl | ⟨value, rfl⟩⟩
    · exact ⟨rfl, rfl⟩
    · exact hs.names name m hold
    · exact hs.names name old hold

theorem sound_of_run {s s' : Site} {steps : List (Site × Event)} (h : Run Step s steps s') (hs : s.Fresh) :
    Throughout Sound steps s' :=
  have hstep : ∀ s e t, Step s e t → Sound s → True → Sound t := fun _ _ _ hst hi _ => hst.effect.sound hi
  h.invariant hstep (sound_of_fresh hs) fun _ _ => trivial

/-! ### One module -/

/-- A site of one module. -/
def single (m : Hosted) (metrics : Metrics) : Site := ⟨[m], metrics, List.nodup_singleton _⟩

theorem replaces_single (m m' : Hosted) (metrics metrics' : Metrics) :
    (single m metrics).Replaces m m' metrics' (single m' metrics') := ⟨⟨[], [], rfl, rfl⟩, rfl⟩

/-- A run of one step. -/
theorem run_singleton {s s' : Site} {e : Event} (h : Step s e s') : Run Step s [(s, e)] s' := .cons h (.nil s')

end Site

/-- A remote end with one attribute, of this class, which never fails. -/
def oneAttribute (type : String) (value : Option JavaObject) : JMXModule where
  remote _ := ⟨true, some [⟨"Load".toList, type.toList, none⟩], .value value⟩
  json := ⟨fun _ _ => none, fun _ _ => none, fun _ _ => none⟩

namespace Site

/-- A module of this name before it first connects. -/
def unconnected (module : String) : Module := { moduleName := module.toList }

/-- The site of such a module alone. -/
def start (module : String) (r : RemoteModule) : Site := single ⟨unconnected module, .remote r⟩ {}

theorem fresh_start (module : String) (r : RemoteModule) : (start module r).Fresh :=
  ⟨rfl, fun m hm => by rw [List.mem_singleton.mp hm]; rfl⟩

/-- What a module is described: an attribute without options. -/
def loadProperties (type : String) : MetricProperties := { type := JMXModule.nameToType type.toList }

/-- The module after it connected. -/
def connected (module type : String) : Running :=
  Running.added ⟨⟨module.toList, true, TreeSet.empty, [.discovery (some ["Load".toList]), .status true]⟩, {}⟩
    "Load".toList (loadProperties type)

/-- The step in which it does. -/
def connecting (module type : String) : Event where
  moduleName := module.toList
  described := [("Load".toList, loadProperties type)]
  discovered := (connected module type).metrics
  stored := none

/-- The site after it. -/
def connectedTo (module type : String) (value : Option JavaObject) : Site :=
  single ⟨(connected module type).module, .remote (.jmx (oneAttribute type value))⟩ (connected module type).metrics

theorem step_connecting (module type : String) (value : Option JavaObject) :
    Step (start module (.jmx (oneAttribute type value))) (connecting module type) (connectedTo module type value) := by
  let r : RemoteModule := .jmx (oneAttribute type value)
  have call : r.connect 0 ⟨unconnected module, {}⟩ = .returned true (connected module type) := rfl
  exact @Step.connect _ _ ⟨unconnected module, .remote r⟩ r 0 true (connected module type)
    [.discovery (some ["Load".toList]), .status true] rfl call rfl (replaces_single _ _ _ _)

theorem run_connecting (module type : String) (value : Option JavaObject) :
    Run Step (start module (.jmx (oneAttribute type value)))
      [(start module (.jmx (oneAttribute type value)), connecting module type)] (connectedTo module type value) :=
  run_singleton (step_connecting module type value)

/-! ### A metric that is read, and described again -/

/-- An attribute that is 5 whenever it is read. -/
def five : RemoteModule := .jmx (oneAttribute "java.lang.Long" (some (.long 5)))

def load : Text := "hackorama.jvm.Load".toList

/-- The metric, as it is made and with the value it was read with. -/
def loadMetric : Metric := Metric.init load (.long 0) (loadProperties "java.lang.Long") (by decide)

def loadRead : Metric := loadMetric.setValueAsObject (some (.long 5))

/-- Its module after it connected, and the metric was read. -/
def readOnce : Running :=
  ⟨{ (connected "jvm" "java.lang.Long").module with
      requests := [.value "Load".toList true, .discovery (some ["Load".toList]), .status true] },
    (connected "jvm" "java.lang.Long").metrics.update load (some (.long 5))⟩

def refreshed : Site := single ⟨readOnce.module, .remote five⟩ readOnce.metrics

def reading : Event :=
  ⟨"jvm".toList, [], (connected "jvm" "java.lang.Long").metrics, some (load, some (.long 5))⟩

theorem get_connected : (connected "jvm" "java.lang.Long").metrics.get load = some loadMetric := by decide

theorem get_refreshed : refreshed.metrics.get load = some loadRead := by decide

theorem step_reading : Step (connectedTo "jvm" "java.lang.Long" (some (.long 5))) reading refreshed := by
  have hname : loadMetric.metricName.getD [] = "Load".toList := by decide
  have hmodule : loadMetric.moduleName = some (connected "jvm" "java.lang.Long").module.moduleName := by decide
  have call : five.getValue 0 (loadMetric.metricName.getD []) (connected "jvm" "java.lang.Long") =
      .returned (some (.long 5)) ⟨readOnce.module, (connected "jvm" "java.lang.Long").metrics⟩ := by
    rw [hname]
    rfl
  exact @Step.refresh _ _ ⟨(connected "jvm" "java.lang.Long").module, .remote five⟩ five 0 load loadMetric
    (some (.long 5)) ⟨readOnce.module, (connected "jvm" "java.lang.Long").metrics⟩ [.value "Load".toList true]
    get_connected hmodule rfl call rfl (replaces_single _ _ _ _)

/-- The module after it connected again. -/
def readAgain : Running :=
  Running.added ⟨{ readOnce.module with
    requests := [.discovery (some ["Load".toList]), .status true] ++ readOnce.module.requests }, readOnce.metrics⟩
    "Load".toList (loadProperties "java.lang.Long")

def reconnecting : Event :=
  ⟨"jvm".toList, [("Load".toList, loadProperties "java.lang.Long")], readAgain.metrics, none⟩

def reconnected : Site := single ⟨readAgain.module, .remote five⟩ readAgain.metrics

theorem step_reconnecting : Step refreshed reconnecting reconnected := by
  have call : five.connect 0 readOnce = .returned true readAgain := rfl
  exact @Step.connect _ _ ⟨readOnce.module, .remote five⟩ five 0 true readAgain
    [.discovery (some ["Load".toList]), .status true] rfl call rfl (replaces_single _ _ _ _)

/-- The module connects, its metric is read, and the module connects again. -/
def rediscovered : List (Site × Event) :=
  [(start "jvm" five, connecting "jvm" "java.lang.Long"),
    (connectedTo "jvm" "java.lang.Long" (some (.long 5)), reading), (refreshed, reconnecting)]

theorem run_rediscovered : Run Step (start "jvm" five) rediscovered reconnected :=
  .cons (step_connecting "jvm" "java.lang.Long" (some (.long 5))) (.cons step_reading (.cons step_reconnecting (.nil _)))

end Site

end Plethora
