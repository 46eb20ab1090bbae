/-
# Refreshing all metrics, and one module's

`MetricService.refreshMetrics` refreshes every registered metric, or those of
one module; the controller schedules the one call, or one for each module. A
metric belongs to the module whose name it reads out of its own full name, and
the names are compared with case ignored; its value is what that module says
of the metric name read out of the full name.

A read may throw, which ends the call, or find the connection gone: then the
module connects and is described its metrics anew, and the value goes to a
metric the registry holds no more. The two schedules come to the same, and
each value is that of the module that discovered the metric, if the full names
read back, no two module names differ in case alone, and every read returns
and has nothing described. For that the names have to be such; and no read may
throw, or replace the metric it is for: `partitioned_iff`.

Key definitions: `CaseMaps.equalsIgnoreCase`, `Read`, `Refresher.refreshMetric`,
`Refresher.refreshMetrics`, `Refresher.refreshModules`, `Site.Partitioned`,
`Site.Separated`, `Site.Quiet`.
Key theorems: `refreshMetric_returned`, `since_refreshMetrics`,
`since_refreshModules`, `traced_refreshModules`, `partitioned_iff`.
-/
import Plethora.Common.Names
import Plethora.Server.Site

namespace Plethora

/-! ### `String.equalsIgnoreCase` -/

/-- `Character.toUpperCase` and `Character.toLowerCase`. -/
structure CaseMaps where
  toUpperCase : Char → Char
  toLowerCase : Char → Char

namespace CaseMaps

variable (maps : CaseMaps)

def sameLetter (c d : Char) : Bool :=
  c == d || maps.toUpperCase c == maps.toUpperCase d ||
    maps.toLowerCase (maps.toUpperCase c) == maps.toLowerCase (maps.toUpperCase d)

/-- `s.equalsIgnoreCase(t)`. -/
def equalsIgnoreCase : Text → Text → Bool
  | [], [] => true
  | c :: s, d :: t => maps.sameLetter c d && equalsIgnoreCase s t
  | _, _ => false

theorem equalsIgnoreCase_self : ∀ t : Text, maps.equalsIgnoreCase t t = true
  | [] => rfl
  | c :: t => by simp [equalsIgnoreCase, sameLetter, equalsIgnoreCase_self t]

end CaseMaps

/-! ### The loops -/

/-- What a read of a metric comes to: what its module is described on the way,
and the value or the exception. -/
structure Read where
  described : List Description := []
  value : Except JavaError (Option JavaObject)

/-- What a refresh works with: the module names, in order, and what each
module's `getValue` comes to for a metric's name. -/
structure Refresher where
  maps : CaseMaps
  moduleList : TreeSet
  getValue : Text → Text → Read

/-- The registry, the names refreshed so far, and the exception that ended
the call. -/
structure Refreshing where
  metrics : Metrics
  refreshed : List Text := []
  thrown : Option JavaError := none

namespace Refresher

variable (service : Refresher)

/-- `modules.getValue(moduleName, metricName)`. -/
def modulesGetValue (moduleName metricName : Option Text) : Read :=
  match moduleName with
  | none => { value := .ok none }
  | some n => if n ∈ service.moduleList then service.getValue n (metricName.getD []) else { value := .ok none }

/-- The value goes into the metric that was looked up before the read. -/
def refreshMetric (name : Text) (r : Refreshing) : Refreshing :=
  match r.metrics.get name with
  | none => r
  | some metric =>
    let read := service.modulesGetValue metric.moduleName metric.metricName
    let module := metric.moduleName.getD []
    let discovered := (Catalog.addedAll ⟨module, .empty, r.metrics⟩ read.described).metrics
    match read.value with
    | .error e => { r with metrics := discovered, thrown := some e }
    | .ok value =>
      { r with
        metrics := Site.store discovered (Site.kept module name read.described value)
        refreshed := r.refreshed ++ [name] }

/-- The test of the loop of `refreshMetrics(module)`. -/
def selects (module : Option Text) (metric : Metric) : Bool :=
  match module with
  | none => true
  | some module => metric.moduleName.any (service.maps.equalsIgnoreCase module)

/-- The loop of `refreshMetrics(module)` over the entries. -/
def refreshEntries (module : Option Text) : List (Text × Metric) → Refreshing → Refreshing
  | [], r => r
  | item :: items, r =>
    if r.thrown.isSome then r
    else refreshEntries module items
      (if service.selects module item.2 then service.refreshMetric item.2.name r else r)

/-- A metric that enters behind the iterator is left to the next call. -/
def refreshMetrics (module : Option Text) (r : Refreshing) : Refreshing :=
  service.refreshEntries module r.metrics.metricsMap { r with thrown := none }

/-- The refreshes that `startDataServices` schedules, each a call of its own. -/
def refreshModules : List Text → Refreshing → Refreshing
  | [], r => r
  | module :: modules, r => refreshModules modules (service.refreshMetrics (some module) r)

/-! ### One refresh -/

variable {service} {s : Metrics} {r : Refreshing}

section Connected

variable {metrics : Metrics} {m : Hosted} {remote : RemoteModule} {depth : ℕ} {metric : Metric} {after : Running}
  {requests : List RemoteEvent}

/-- The registry after a remote read is the one with the metrics described. -/
theorem metrics_discovered (h : Discovered remote ⟨m.state, metrics⟩ after)
    (asked : after.module.requests = requests ++ m.state.requests) :
    (Catalog.addedAll ⟨m.state.moduleName, .empty, metrics⟩ (m.describes remote requests)).metrics =
      after.metrics := by
  obtain ⟨d, hreq, hcat⟩ := h
  obtain rfl : d = requests := List.append_cancel_right (hreq.symm.trans asked)
  rw [Catalog.metrics_addedAll_names _ _ m.state.metricNames]
  exact (congrArg Catalog.metrics hcat).symm

variable {name : Text} (found : r.metrics.get name = some metric)
  (named : metric.moduleName = some m.state.moduleName) (hosted : m.state.moduleName ∈ service.moduleList)
include found named hosted

/-- Where the module answers as in a step `Site.Step.refresh`, the registry is
the one after that step. -/
theorem refreshMetric_returned {value : Option JavaObject}
    (call : remote.getValue depth (metric.metricName.getD []) ⟨m.state, r.metrics⟩ = .returned value after)
    (asked : after.module.requests = requests ++ m.state.requests)
    (answer : service.getValue m.state.moduleName (metric.metricName.getD []) =
      ⟨m.describes remote requests, .ok value⟩) :
    (service.refreshMetric name r).metrics =
      Site.store after.metrics (Site.kept m.state.moduleName name (m.describes remote requests) value) := by
  have hdisc := metrics_discovered ((remote.discovers_getValue depth _ _).returned call) asked
  simp only [refreshMetric, found, modulesGetValue, named, if_pos hosted, answer, Option.getD_some]
  rw [hdisc]

/-- And as in `Site.Step.refreshThrows`. -/
theorem refreshMetric_thrown {e : JavaError}
    (call : remote.getValue depth (metric.metricName.getD []) ⟨m.state, r.metrics⟩ = .thrown e after)
    (asked : after.module.requests = requests ++ m.state.requests)
    (answer : service.getValue m.state.moduleName (metric.metricName.getD []) =
      ⟨m.describes remote requests, .error e⟩) :
    (service.refreshMetric name r).metrics = after.metrics := by
  have hdisc := metrics_discovered ((remote.discovers_getValue depth _ _).thrown call) asked
  simp only [refreshMetric, found, modulesGetValue, named, if_pos hosted, answer, Option.getD_some]
  exact hdisc

end Connected

/-! ### Quiet reads -/

variable (service) in
/-- The value read for a metric. -/
def value (m : Metric) : Option JavaObject :=
  (service.modulesGetValue m.moduleName m.metricName).value.toOption.join

variable (service) in
/-- The metric with the value its module gives. -/
def once (m : Metric) : Metric := m.setValueAsObject (service.value m)

variable (service) in
/-- The read for a metric returns, and nothing is registered on the way. -/
def Quiet (m : Metric) : Prop :=
  (∃ v, (service.modulesGetValue m.moduleName m.metricName).value = .ok v) ∧
  ∀ name, taken (m.moduleName.getD []) name (service.modulesGetValue m.moduleName m.metricName).described = none

theorem once_once (m : Metric) : service.once (service.once m) = service.once m := by
  have hvalue : service.value (service.once m) = service.value m := rfl
  unfold once at hvalue ⊢
  rw [hvalue]
  unfold Metric.setValueAsObject
  cases service.value m <;> rfl

theorem refreshMetric_quiet {name : Text} {m : Metric} (hm : r.metrics.get name = some m) (hq : service.Quiet m) :
    service.refreshMetric name r =
      { r with metrics := r.metrics.put name (service.once m), refreshed := r.refreshed ++ [name] } := by
  obtain ⟨⟨v, hv⟩, hnone⟩ := hq
  have hvalue : service.value m = v := by
    unfold value
    rw [hv]
    rfl
  have hsame := @Catalog.metrics_addedAll_of_none _ ⟨m.moduleName.getD [], .empty, r.metrics⟩ hnone
  have hstore : ∀ value, Site.store r.metrics (some (name, value)) = r.metrics.put name (m.setValueAsObject value) :=
    Metrics.update_eq hm
  simp only [refreshMetric, hm, hv, hsame, Site.kept, hnone, if_true, hstore, once, hvalue]

variable (service) in
/-- Since the registry was `s`, the metrics named were given their values. -/
structure Since (s : Metrics) (r : Refreshing) : Prop where
  typed : r.metrics.Typed
  returned : r.thrown = none
  get : ∀ name, r.metrics.get name = if name ∈ r.refreshed then (s.get name).map service.once else s.get name

theorem Since.start (h : s.Typed) : service.Since s { metrics := s } := ⟨h, rfl, fun _ => rfl⟩

/-- A metric reads the same names out of its full name throughout. -/
theorem Since.selects (h : service.Since s r) (module : Option Text) (name : Text) :
    (r.metrics.get name).any (service.selects module) = (s.get name).any (service.selects module) := by
  rw [h.get]
  split
  · rw [Option.any_map]
    rfl
  · rfl

section Quiet

variable (quiet : ∀ name m, s.get name = some m → service.Quiet m)
include quiet

/-- What is registered is read as what was. -/
theorem Since.reads_quiet (h : service.Since s r) {name : Text} {m : Metric} (hm : r.metrics.get name = some m) :
    service.Quiet m := by
  rw [h.get] at hm
  split at hm
  · obtain ⟨m0, h0, rfl⟩ := Option.map_eq_some_iff.mp hm
    exact quiet name m0 h0
  · exact quiet name m hm

theorem since_refreshMetric (h : service.Since s r) {name : Text} (hm : (r.metrics.get name).isSome = true) :
    service.Since s (service.refreshMetric name r) ∧
      (service.refreshMetric name r).refreshed = r.refreshed ++ [name] := by
  obtain ⟨m, hm⟩ := Option.isSome_iff_exists.mp hm
  have hname : m.name = name := h.typed.name _ (mem_of_lookup hm)
  have htype : m.metricType = m.properties.type := h.typed.type _ (mem_of_lookup hm)
  rw [refreshMetric_quiet hm (h.reads_quiet quiet hm)]
  refine ⟨⟨Metrics.typed_put h.typed hname htype, h.returned, fun name' => ?_⟩, rfl⟩
  by_cases hn : name' = name
  · subst hn
    rw [Metrics.get_put_self, if_pos (by simp)]
    have hget := h.get name'
    rw [hm] at hget
    split at hget
    · obtain ⟨m0, h0, rfl⟩ := Option.map_eq_some_iff.mp hget.symm
      rw [h0, Option.map_some, once_once]
    · rw [← hget, Option.map_some]
  · rw [Metrics.get_put_ne _ _ hn, h.get]
    simp [hn]

/-- The loop refreshes each entry it selects once. -/
theorem since_refreshEntries (module : Option Text) : ∀ {items : List (Text × Metric)} {r : Refreshing},
    service.Since s r → (items.map (·.1)).Nodup →
    (∀ item ∈ items, item.2.name = item.1 ∧ (r.metrics.get item.1).isSome = true) →
    service.Since s (service.refreshEntries module items r) ∧
    ∀ name, (service.refreshEntries module items r).refreshed.count name =
      r.refreshed.count name + if (items.lookup name).any (service.selects module) then 1 else 0
  | [], r, h, _, _ => ⟨h, fun name => by simp [refreshEntries]⟩
  | (k, metric) :: items, r, h, hnodup, hitems => by
    rw [List.map_cons, List.nodup_cons] at hnodup
    obtain ⟨hk, hnodup⟩ := hnodup
    obtain ⟨hname, hsome⟩ := hitems _ (List.mem_cons_self ..)
    have hname : metric.name = k := hname
    have hnone : items.lookup k = none := by
      rw [← Option.not_isSome_iff_eq_none]
      exact fun hs => hk (mem_keys_iff.mpr hs)
    unfold refreshEntries
    dsimp only
    rw [hname, h.returned, Option.isSome_none, if_neg Bool.false_ne_true]
    by_cases hsel : service.selects module metric = true
    · rw [if_pos hsel]
      obtain ⟨h1, hlog⟩ := since_refreshMetric quiet h hsome
      have hstill : ∀ item ∈ items, item.2.name = item.1 ∧
          ((service.refreshMetric k r).metrics.get item.1).isSome = true := by
        intro item hi
        obtain ⟨hn, hs⟩ := hitems item (List.mem_cons_of_mem _ hi)
        refine ⟨hn, ?_⟩
        rw [h.get] at hs
        rw [h1.get]
        split at hs <;> split <;> simpa using hs
      obtain ⟨h2, hcount⟩ := since_refreshEntries module h1 hnodup hstill
      refine ⟨h2, fun name => ?_⟩
      rw [hcount, hlog, List.count_append, List.lookup_cons]
      by_cases hn : name = k
      · subst hn
        simp [hnone, hsel]
      · simp [beq_eq_false_iff_ne.mpr hn, Ne.symm hn]
    · rw [if_neg hsel]
      obtain ⟨h2, hcount⟩ := since_refreshEntries module h hnodup
        fun item hi => hitems item (List.mem_cons_of_mem _ hi)
      refine ⟨h2, fun name => ?_⟩
      rw [hcount, List.lookup_cons]
      by_cases hn : name = k
      · subst hn
        simp [hnone, hsel]
      · simp [beq_eq_false_iff_ne.mpr hn]

theorem since_refreshMetrics (module : Option Text) (h : service.Since s r) :
    service.Since s (service.refreshMetrics module r) ∧
    ∀ name, (service.refreshMetrics module r).refreshed.count name =
      r.refreshed.count name + if (s.get name).any (service.selects module) then 1 else 0 := by
  have hitems : ∀ item ∈ r.metrics.metricsMap, item.2.name = item.1 ∧ (r.metrics.get item.1).isSome = true :=
    fun item hi => ⟨h.typed.name item hi, by rw [Metrics.get, lookup_of_mem h.typed.keys hi]; rfl⟩
  have hstart : service.Since s { r with thrown := none } := ⟨h.typed, rfl, h.get⟩
  obtain ⟨h1, hcount⟩ := since_refreshEntries quiet module hstart h.typed.keys hitems
  refine ⟨h1, fun name => ?_⟩
  rw [← h.selects module name]
  exact hcount name

/-- One call for each module refreshes a metric once for every module that
selects it. -/
theorem since_refreshModules : ∀ {modules : List Text} {r : Refreshing}, service.Since s r →
    service.Since s (service.refreshModules modules r) ∧
    ∀ name, (service.refreshModules modules r).refreshed.count name =
      r.refreshed.count name + modules.countP fun module => (s.get name).any (service.selects (some module))
  | [], r, h => ⟨h, fun name => by simp [refreshModules]⟩
  | module :: modules, r, h => by
    obtain ⟨h1, hcount1⟩ := since_refreshMetrics quiet (some module) h
    obtain ⟨h2, hcount2⟩ := @since_refreshModules modules _ h1
    refine ⟨h2, fun name => ?_⟩
    have hcount2 := hcount2 name
    rw [hcount1 name] at hcount2
    rw [refreshModules, hcount2, List.countP_cons]
    omega

end Quiet

/-! ### Any reads -/

/-- A value that the factory starts a metric with. -/
def Initial (v : Option JavaObject) : Prop := v.isSome = true ∧ ∃ type, MetricFactory.initialValue type = v

variable (service) in
/-- The read for the metric of this name. -/
def read (name : Text) : Read :=
  service.modulesGetValue (NameResolver.resolveModule name) (NameResolver.resolveMetric name)

/-- Whatever the reads come to: a metric is never lost, reads its names out of
its full name, and if it was refreshed, has the value read for it or was made
anew since. -/
structure Traced (service : Refresher) (s : Metrics) (r : Refreshing) : Prop where
  isSome : ∀ name, (s.get name).isSome = true → (r.metrics.get name).isSome = true
  names : ∀ name m, r.metrics.get name = some m →
    m.moduleName = NameResolver.resolveModule name ∧ m.metricName = NameResolver.resolveMetric name
  settled : ∀ name ∈ r.refreshed, ∃ v, (service.read name).value = .ok v ∧
    ∀ m, r.metrics.get name = some m → Initial m.value ∨
      (m.value = v ∧ taken ((NameResolver.resolveModule name).getD []) name (service.read name).described = none)

/-- A metric after a discovery. -/
theorem get_discovered {module name : Text} {names : TreeSet} {metrics : Metrics} {l : List Description} :
    (taken module name l = none ∧ (Catalog.addedAll ⟨module, names, metrics⟩ l).metrics.get name = metrics.get name) ∨
    ∃ m, (Catalog.addedAll ⟨module, names, metrics⟩ l).metrics.get name = some m ∧ Initial m.value ∧
      m.moduleName = NameResolver.resolveModule name ∧ m.metricName = NameResolver.resolveMetric name := by
  rw [Catalog.get_addedAll]
  cases ht : taken module name l with
  | none => exact Or.inl ⟨rfl, rfl⟩
  | some p =>
    obtain ⟨d, -, htakes, rfl⟩ := exists_of_taken ht
    obtain ⟨v, made, hv, hm⟩ := exists_getMetric htakes
    exact Or.inr ⟨_, hm, ⟨rfl, d.2.type, hv⟩, rfl, rfl⟩

theorem Traced.discovered (h : service.Traced s r) (module : Text) (l : List Description) (thrown : Option JavaError) :
    service.Traced s
      ⟨(Catalog.addedAll ⟨module, .empty, r.metrics⟩ l).metrics, r.refreshed, thrown⟩ := by
  refine ⟨fun name hs => ?_, fun name m hm => ?_, fun name hmem => ?_⟩
  · rcases get_discovered with ⟨-, hsame⟩ | ⟨m, hm, -⟩
    · rw [hsame]
      exact h.isSome name hs
    · rw [hm]
      rfl
  · rcases get_discovered with ⟨-, hsame⟩ | ⟨m', hm', -, hnames⟩
    · exact h.names name m (hsame.symm.trans hm)
    · obtain rfl : m' = m := Option.some.inj (hm'.symm.trans hm)
      exact hnames
  · obtain ⟨v, hv, hvalue⟩ := h.settled name hmem
    refine ⟨v, hv, fun m hm => ?_⟩
    rcases get_discovered with ⟨-, hsame⟩ | ⟨m', hm', hinitial, -⟩
    · exact hvalue m (hsame.symm.trans hm)
    · obtain rfl : m' = m := Option.some.inj (hm'.symm.trans hm)
      exact Or.inl hinitial

theorem traced_refreshMetric (h : service.Traced s r) (name : Text) :
    service.Traced s (service.refreshMetric name r) := by
  unfold refreshMetric
  cases hold : r.metrics.get name with
  | none => exact h
  | some metric =>
    obtain ⟨hmodule, hmetric⟩ := h.names name metric hold
    have hread : service.modulesGetValue metric.moduleName metric.metricName = service.read name := by
      rw [hmodule, hmetric]
      rfl
    dsimp only
    rw [hread, hmodule]
    generalize hd : (NameResolver.resolveModule name).getD [] = module
    cases hv : (service.read name).value with
    | error e => exact h.discovered module _ _
    | ok value =>
      have hdisc := h.discovered module (service.read name).described r.thrown
      cases ht : taken module name (service.read name).described with
      | some p =>
        -- the value goes to a metric that is no longer registered
        have hkept : Site.kept module name (service.read name).described value = none := by
          rw [Site.kept, ht, if_neg nofun]
        dsimp only
        rw [hkept]
        refine ⟨hdisc.isSome, hdisc.names, fun name' hmem => ?_⟩
        rcases List.mem_append.mp hmem with hmem | hmem
        · exact hdisc.settled name' hmem
        · obtain rfl := List.mem_singleton.mp hmem
          refine ⟨value, hv, fun m hm => Or.inl ?_⟩
          rcases get_discovered with ⟨hnone, -⟩ | ⟨m', hm', hinitial, -⟩
          · rw [ht] at hnone
            cases hnone
          · obtain rfl : m' = m := Option.some.inj (hm'.symm.trans hm)
            exact hinitial
      | none =>
        have hkept : Site.kept module name (service.read name).described value = some (name, value) := by
          rw [Site.kept, ht, if_pos rfl]
        dsimp only
        rw [hkept]
        refine ⟨fun name' hs => ?_, fun name' m hm => ?_, fun name' hmem => ?_⟩
        · exact (Metrics.isSome_get_update _ name name' value).trans (hdisc.isSome name' hs)
        · rw [Site.store, Metrics.get_update] at hm
          split at hm
          · obtain ⟨old, hold, rfl⟩ := Option.map_eq_some_iff.mp hm
            exact hdisc.names name' old hold
          · exact hdisc.names name' m hm
        · by_cases hn : name' = name
          · subst hn
            refine ⟨value, hv, fun m hm => Or.inr ⟨?_, by rw [hd, ht]⟩⟩
            rw [Site.store, Metrics.get_update_self] at hm
            obtain ⟨old, -, rfl⟩ := Option.map_eq_some_iff.mp hm
            rfl
          · have hmem : name' ∈ r.refreshed := by simpa [hn] using hmem
            obtain ⟨v, hv', hvalue⟩ := hdisc.settled name' hmem
            refine ⟨v, hv', fun m hm => hvalue m ?_⟩
            rw [Site.store, Metrics.get_update_ne _ _ hn] at hm
            exact hm

theorem traced_refreshEntries (module : Option Text) : ∀ {items : List (Text × Metric)} {r : Refreshing},
    service.Traced s r → service.Traced s (service.refreshEntries module items r)
  | [], _, h => h
  | item :: items, r, h => by
    unfold refreshEntries
    split
    · exact h
    · refine traced_refreshEntries module ?_
      split
      · exact traced_refreshMetric h _
      · exact h

theorem traced_refreshModules : ∀ {modules : List Text} {r : Refreshing},
    service.Traced s r → service.Traced s (service.refreshModules modules r)
  | [], _, h => h
  | module :: modules, r, h => by
    have hstart : service.Traced s { r with thrown := none } := ⟨h.isSome, h.names, h.settled⟩
    exact @traced_refreshModules modules _ (traced_refreshEntries (some module) hstart)

end Refresher

namespace Site

variable (maps : CaseMaps) (s : Site)

/-- `getModuleList()`. -/
def moduleList : TreeSet := TreeSet.empty.addAll (s.modules.map (·.state.moduleName))

variable (reads : Text → Text → Read)

/-- The refreshes `startDataService` schedules. -/
def refreshedAtOnce : Refreshing :=
  Refresher.refreshMetrics ⟨maps, s.moduleList, reads⟩ none { metrics := s.metrics }

/-- Those `startDataServices` schedules. -/
def refreshedByModule : Refreshing :=
  Refresher.refreshModules ⟨maps, s.moduleList, reads⟩ s.moduleList.toList { metrics := s.metrics }

/-- Both leave the same registry, each refreshes every metric once, and each
metric gets the value that the module that discovered it returns. -/
def Partitioned : Prop :=
  (∀ name, (s.refreshedByModule maps reads).metrics.get name = (s.refreshedAtOnce maps reads).metrics.get name) ∧
  (∀ name, (s.metrics.get name).isSome = true →
    (s.refreshedByModule maps reads).refreshed.count name = 1 ∧
      (s.refreshedAtOnce maps reads).refreshed.count name = 1) ∧
  ∀ module metric name m, s.Listed module metric → NameResolver.resolveMetricName metric module = some name →
    (s.refreshedByModule maps reads).metrics.get name = some m → (reads module metric).value = .ok m.value

/-- No module that discovered a metric has a dot in its name, or a name that
differs from another module's in case alone, and no metric's name ends with a
dot. -/
def Separated : Prop :=
  ∀ module metric name, s.Listed module metric → NameResolver.resolveMetricName metric module = some name →
    (s.metrics.get name).isSome = true → '.' ∉ module ∧ metric.getLast? ≠ some '.' ∧
      ∀ other ∈ s.moduleList, other ≠ module → maps.equalsIgnoreCase other module = false

/-- Every read made for a registered metric returns, and what is described to
its module on the way is nothing the factory makes a metric of. -/
def Quiet : Prop :=
  ∀ name m, s.metrics.get name = some m → ∀ module ∈ s.moduleList, m.moduleName = some module →
    (∃ v, (reads module (m.metricName.getD [])).value = .ok v) ∧
    ∀ name', taken module name' (reads module (m.metricName.getD [])).described = none

/-- The read for each registered metric returns a value, and if the metric
itself was described again meanwhile, the initial value of a type. -/
def Kept : Prop :=
  ∀ module metric name, s.Listed module metric → NameResolver.resolveMetricName metric module = some name →
    (s.metrics.get name).isSome = true → ∃ v, (reads module metric).value = .ok v ∧
      (taken module name (reads module metric).described = none ∨ Refresher.Initial v)

variable {maps s}

theorem mem_moduleList {module metric : Text} (h : s.Listed module metric) : module ∈ s.moduleList := by
  obtain ⟨m, hm, rfl, -⟩ := h
  exact TreeSet.mem_addAll.mpr (Or.inr (List.mem_map_of_mem hm))

section Refreshed

variable {reads}

theorem Quiet.refresher (h : s.Quiet reads) (name : Text) (m : Metric) (hm : s.metrics.get name = some m) :
    Refresher.Quiet ⟨maps, s.moduleList, reads⟩ m := by
  unfold Refresher.Quiet Refresher.modulesGetValue
  cases hn : m.moduleName with
  | none => exact ⟨⟨none, rfl⟩, fun _ => rfl⟩
  | some n =>
    by_cases hl : n ∈ s.moduleList
    · simp only [if_pos hl]
      exact h name m hm n hl hn
    · simp only [if_neg hl]
      exact ⟨⟨none, rfl⟩, fun _ => rfl⟩

variable (h : s.Sound) (quiet : s.Quiet reads)
include h quiet

theorem since_refreshedAtOnce :
    Refresher.Since ⟨maps, s.moduleList, reads⟩ s.metrics (s.refreshedAtOnce maps reads) ∧
    ∀ name, (s.refreshedAtOnce maps reads).refreshed.count name = if (s.metrics.get name).isSome then 1 else 0 := by
  obtain ⟨h1, hcount⟩ := Refresher.since_refreshMetrics quiet.refresher none
    (@Refresher.Since.start ⟨maps, s.moduleList, reads⟩ _ h.typed)
  refine ⟨h1, fun name => ?_⟩
  unfold refreshedAtOnce
  rw [hcount]
  cases s.metrics.get name <;> simp [Refresher.selects]

/-- How often a metric is refreshed by the calls for each module. -/
theorem since_refreshedByModule :
    Refresher.Since ⟨maps, s.moduleList, reads⟩ s.metrics (s.refreshedByModule maps reads) ∧
    ∀ name m, s.metrics.get name = some m → (s.refreshedByModule maps reads).refreshed.count name =
      s.moduleList.toList.countP fun module => m.moduleName.any (maps.equalsIgnoreCase module) := by
  obtain ⟨h1, hcount⟩ := @Refresher.since_refreshModules _ _ quiet.refresher s.moduleList.toList _
    (@Refresher.Since.start ⟨maps, s.moduleList, reads⟩ _ h.typed)
  refine ⟨h1, fun name m hm => ?_⟩
  unfold refreshedByModule
  rw [hcount, hm]
  simp [Refresher.selects]

end Refreshed

/-- In a set of names just one equals `n` with case ignored, if that holds of
no other. -/
theorem countP_equalsIgnoreCase {l : TreeSet} {n : Text} (hn : n ∈ l) :
    l.toList.countP (fun module => maps.equalsIgnoreCase module n) = 1 ↔
      ∀ other ∈ l, other ≠ n → maps.equalsIgnoreCase other n = false := by
  have hself : n ∈ l.toList.filter fun module => maps.equalsIgnoreCase module n :=
    List.mem_filter.mpr ⟨hn, maps.equalsIgnoreCase_self n⟩
  rw [List.countP_eq_length_filter]
  constructor
  · intro h other ho hne
    obtain ⟨a, ha⟩ := List.length_eq_one_iff.mp h
    rw [ha, List.mem_singleton] at hself
    by_contra he
    have hother : other ∈ l.toList.filter fun module => maps.equalsIgnoreCase module n :=
      List.mem_filter.mpr ⟨ho, by simpa using he⟩
    rw [ha, List.mem_singleton, ← hself] at hother
    exact hne hother
  · intro h
    have hall : ∀ m ∈ l.toList.filter (fun module => maps.equalsIgnoreCase module n), m = n := by
      intro m hm
      obtain ⟨hmem, he⟩ := List.mem_filter.mp hm
      by_contra hne
      rw [h m hmem hne] at he
      cases he
    have hnodup := l.nodup.filter fun module => maps.equalsIgnoreCase module n
    rw [List.eq_replicate_of_mem hall, List.nodup_replicate] at hnodup
    have hpos := List.length_pos_of_mem hself
    omega

/-- A value that only one module has, for one name. -/
def probe (module metric : Text) (n k : Text) : Read where
  value := .ok (if n = module ∧ k = metric then some (.long 1) else none)

theorem quiet_probe (module metric : Text) : s.Quiet (probe module metric) :=
  fun _ _ _ _ _ _ => ⟨⟨_, rfl⟩, fun _ => rfl⟩

/-- Only a question for that name to that module is answered. -/
theorem eq_of_probe {module metric : Text} {m : Metric} {v : JavaObject}
    (h : Refresher.value ⟨maps, s.moduleList, probe module metric⟩ m = some v) :
    m.moduleName = some module ∧ m.metricName.getD [] = metric := by
  unfold Refresher.value Refresher.modulesGetValue probe at h
  cases hn : m.moduleName with
  | none =>
    rw [hn] at h
    cases h
  | some n =>
    rw [hn] at h
    dsimp only at h
    split at h
    · have hv : (if n = module ∧ m.metricName.getD [] = metric then some (JavaObject.long 1) else none) = some v := h
      simp only [Option.ite_none_right_eq_some] at hv
      exact ⟨congrArg some hv.1.1, hv.1.2⟩
    · cases h

theorem separated_of_partitioned (hsound : s.Sound) (hp : ∀ reads, s.Quiet reads → s.Partitioned maps reads) :
    s.Separated maps := by
  intro module metric name hl hname hsome
  obtain ⟨m, hm⟩ := Option.isSome_iff_exists.mp hsome
  have hquiet : s.Quiet (probe module metric) := quiet_probe module metric
  obtain ⟨-, hcount, hvalue⟩ := hp (probe module metric) hquiet
  have hcount := (hcount name hsome).1
  obtain ⟨hsince, hcountP⟩ := since_refreshedByModule hsound hquiet
  have hmem : name ∈ (s.refreshedByModule maps (probe module metric)).refreshed := by
    rw [← List.count_pos_iff, hcount]
    exact Nat.one_pos
  have hget := hsince.get name
  rw [if_pos hmem, hm, Option.map_some] at hget
  -- the module that is asked, and the name it is asked for
  have hask := hvalue module metric name _ hl hname hget
  rw [probe, if_pos ⟨rfl, rfl⟩] at hask
  obtain ⟨hmod', hmet'⟩ := eq_of_probe (Except.ok.inj hask).symm
  obtain ⟨hmod, hmet⟩ := hsound.names name m hm
  have hmet' : m.metricName = some metric := by
    cases hk : m.metricName with
    | none =>
      rw [hk] at hmet'
      exact absurd hmet'.symm (NameResolver.resolveMetricName_eq_some hname).1
    | some k =>
      rw [hk] at hmet'
      exact congrArg some hmet'
  obtain ⟨hdot, hend⟩ := (NameResolver.resolves_iff hname).mp ⟨hmod.symm.trans hmod', hmet.symm.trans hmet'⟩
  refine ⟨hdot, hend, ?_⟩
  rw [hcountP name m hm, hmod'] at hcount
  exact (countP_equalsIgnoreCase (mem_moduleList hl)).mp hcount

section Separated

variable {reads : Text → Text → Read} (hsound : s.Sound) (hsep : s.Separated maps)
include hsound hsep

/-- A registered metric reads its names back, so the module that discovered it
is asked for it. -/
theorem reads_back {module metric name : Text} {m : Metric} (hl : s.Listed module metric)
    (hname : NameResolver.resolveMetricName metric module = some name) (hm : s.metrics.get name = some m) :
    m.moduleName = some module ∧ m.metricName = some metric := by
  obtain ⟨hdot, hend, -⟩ := hsep module metric name hl hname (by rw [hm]; rfl)
  obtain ⟨h1, h2⟩ := (NameResolver.resolves_iff hname).mpr ⟨hdot, hend⟩
  obtain ⟨hmod, hmet⟩ := hsound.names name m hm
  exact ⟨hmod.trans h1, hmet.trans h2⟩

section Quiet

variable (quiet : s.Quiet reads)
include quiet

/-- One module selects it. -/
theorem count_eq_one {name : Text} {m : Metric} (hm : s.metrics.get name = some m) :
    (s.refreshedByModule maps reads).refreshed.count name = 1 := by
  obtain ⟨module, metric, hl, hname⟩ := hsound.listed name m hm
  obtain ⟨-, -, hothers⟩ := hsep module metric name hl hname (by rw [hm]; rfl)
  rw [(since_refreshedByModule hsound quiet).2 name m hm, (reads_back hsound hsep hl hname hm).1]
  exact (countP_equalsIgnoreCase (mem_moduleList hl)).mpr hothers

/-- Every registered metric got its value once. -/
theorem get_refreshedByModule (name : Text) : (s.refreshedByModule maps reads).metrics.get name =
    (s.metrics.get name).map (Refresher.once ⟨maps, s.moduleList, reads⟩) := by
  rw [(since_refreshedByModule hsound quiet).1.get]
  cases hm : s.metrics.get name with
  | none => simp
  | some m =>
    have hmem : name ∈ (s.refreshedByModule maps reads).refreshed := by
      rw [← List.count_pos_iff, count_eq_one hsound hsep quiet hm]
      exact Nat.one_pos
    rw [if_pos hmem]

theorem partitioned_of_separated : s.Partitioned maps reads := by
  obtain ⟨hsince, hcount⟩ := @since_refreshedAtOnce maps _ _ hsound quiet
  refine ⟨fun name => ?_, fun name hsome => ?_, fun module metric name m hl hname hm => ?_⟩
  · rw [get_refreshedByModule hsound hsep quiet, hsince.get]
    cases hm : s.metrics.get name with
    | none => simp
    | some m =>
      have hmem : name ∈ (s.refreshedAtOnce maps reads).refreshed := by
        rw [← List.count_pos_iff, hcount name, hm]
        exact Nat.one_pos
      rw [if_pos hmem]
  · obtain ⟨m, hm⟩ := Option.isSome_iff_exists.mp hsome
    exact ⟨count_eq_one hsound hsep quiet hm, by rw [hcount name, if_pos hsome]⟩
  · rw [get_refreshedByModule hsound hsep quiet, Option.map_eq_some_iff] at hm
    obtain ⟨old, hold, rfl⟩ := hm
    obtain ⟨h1, h2⟩ := reads_back hsound hsep hl hname hold
    obtain ⟨⟨v, hv⟩, -⟩ := quiet name old hold module (mem_moduleList hl) h1
    rw [h2, Option.getD_some] at hv
    have hvalue : Refresher.value ⟨maps, s.moduleList, reads⟩ old = v := by
      simp only [Refresher.value, Refresher.modulesGetValue, h1, h2, if_pos (mem_moduleList hl), Option.getD_some, hv]
      rfl
    rw [hv, ← hvalue]
    rfl

end Quiet

/-- A read that throws, or replaces the metric it is for, is not made up for. -/
theorem kept_of_partitioned (hp : s.Partitioned maps reads) : s.Kept reads := by
  intro module metric name hl hname hsome
  obtain ⟨-, hcount, hvalue⟩ := hp
  have htraced : Refresher.Traced ⟨maps, s.moduleList, reads⟩ s.metrics (s.refreshedByModule maps reads) :=
    Refresher.traced_refreshModules ⟨fun _ h => h, hsound.names, fun _ h => absurd h List.not_mem_nil⟩
  have hmem : name ∈ (s.refreshedByModule maps reads).refreshed := by
    rw [← List.count_pos_iff, (hcount name hsome).1]
    exact Nat.one_pos
  obtain ⟨m, hm⟩ := Option.isSome_iff_exists.mp (htraced.isSome name hsome)
  obtain ⟨v, hv, hsettled⟩ := htraced.settled name hmem
  obtain ⟨old, hold⟩ := Option.isSome_iff_exists.mp hsome
  obtain ⟨h1, h2⟩ := reads_back hsound hsep hl hname hold
  obtain ⟨hmod, hmet⟩ := hsound.names name old hold
  have hread : Refresher.read ⟨maps, s.moduleList, reads⟩ name = reads module metric := by
    simp only [Refresher.read, Refresher.modulesGetValue, ← hmod, ← hmet, h1, h2, if_pos (mem_moduleList hl),
      Option.getD_some]
  have hmodule : (NameResolver.resolveModule name).getD [] = module := by
    rw [← hmod, h1]
    rfl
  rw [hread] at hv hsettled
  rw [hmodule] at hsettled
  refine ⟨v, hv, ?_⟩
  have hown : m.value = v := Except.ok.inj ((hvalue module metric name m hl hname hm).symm.trans hv)
  rcases hsettled m hm with hinitial | ⟨-, hnone⟩
  · rw [hown] at hinitial
    exact Or.inr hinitial
  · exact Or.inl hnone

end Separated

/-- **When the two schedules come to the same**, in every state a run from
the start comes to: for all quiet reads exactly if the names are kept apart;
and for no reads of which one throws or is lost. -/
theorem partitioned_iff {start : Site} {steps : List (Site × Event)} (h : Run Step start steps s) (hs : start.Fresh) :
    ((∀ reads, s.Quiet reads → s.Partitioned maps reads) ↔ s.Separated maps) ∧
    ∀ reads, s.Separated maps → s.Partitioned maps reads → s.Kept reads := by
  have hsound : s.Sound := (sound_of_run h hs).2
  refine ⟨⟨separated_of_partitioned hsound, fun hsep reads => ?_⟩, fun reads hsep => ?_⟩
  · exact partitioned_of_separated hsound hsep
  · exact kept_of_partitioned hsound hsep

/-- The case of ASCII letters. -/
def asciiCase : CaseMaps := ⟨Char.toUpper, Char.toLower⟩

/-- The one metric of the site of one module. -/
theorem listed_connectedTo {module type : String} {value : Option JavaObject} {m x : Text} :
    (connectedTo module type value).Listed m x ↔ m = module.toList ∧ x = "Load".toList := by
  constructor
  · rintro ⟨h, hh, rfl, hx⟩
    obtain rfl := List.mem_singleton.mp hh
    rcases TreeSet.mem_add.mp hx with rfl | hx
    · exact ⟨rfl, rfl⟩
    · exact absurd hx List.not_mem_nil
  · rintro ⟨rfl, rfl⟩
    exact ⟨_, List.mem_singleton.mpr rfl, rfl, TreeSet.mem_add.mpr (Or.inl rfl)⟩

theorem moduleList_connectedTo {module type : String} {value : Option JavaObject} {n : Text} :
    n ∈ (connectedTo module type value).moduleList ↔ n = module.toList := by
  rw [moduleList, TreeSet.mem_addAll]
  show (n ∈ TreeSet.empty ∨ n ∈ [module.toList]) ↔ _
  rw [List.mem_singleton]
  exact or_iff_right List.not_mem_nil

/-- The module is described its metric again, as when it connects anew, and
has no value for it. -/
def lost (_ _ : Text) : Read := ⟨[("Load".toList, loadProperties "java.lang.Long")], .ok none⟩

theorem partitioned_iff_jvm :
    (∀ reads, (connectedTo "jvm" "java.lang.Long" none).Quiet reads →
      (connectedTo "jvm" "java.lang.Long" none).Partitioned asciiCase reads) ∧
    ¬ (connectedTo "jvm" "java.lang.Long" none).Partitioned asciiCase lost := by
  obtain ⟨hquiet, hkept⟩ := @partitioned_iff asciiCase _ _ _ (run_connecting "jvm" "java.lang.Long" none) (fresh_start _ _)
  have hsep : (connectedTo "jvm" "java.lang.Long" none).Separated asciiCase := by
    intro module metric name hl _ _
    obtain ⟨rfl, rfl⟩ := listed_connectedTo.mp hl
    refine ⟨by decide, by decide, fun other ho hne => ?_⟩
    exact absurd (moduleList_connectedTo.mp ho) hne
  refine ⟨hquiet.mpr hsep, fun hp => ?_⟩
  obtain ⟨v, hv, h⟩ := hkept lost hsep hp _ _ "hackorama.jvm.Load".toList (listed_connectedTo.mpr ⟨rfl, rfl⟩)
    (by decide) (by decide)
  obtain rfl : none = v := Except.ok.inj hv
  have htaken : taken "jvm".toList "hackorama.jvm.Load".toList (lost "jvm".toList "Load".toList).described =
      some (loadProperties "java.lang.Long") := by decide
  rcases h with hnone | ⟨hinitial, -⟩
  · exact Option.some_ne_none _ (htaken.symm.trans hnone)
  · cases hinitial

/-- A module with a dot in its name is not asked for its own metric. -/
theorem dotted_not_partitioned :
    ¬ (∀ (start s : Site) (steps : List (Site × Event)), Run Step start steps s → start.Fresh →
      ∀ reads, s.Quiet reads → s.Partitioned asciiCase reads) ∧
    NameResolver.resolveModule "hackorama.app.web.Load".toList = some "app".toList := by
  have hread : NameResolver.resolveModule "hackorama.app.web.Load".toList = some "app".toList := by decide
  refine ⟨fun hall => ?_, hread⟩
  have hrun := run_connecting "app.web" "java.lang.Long" none
  have hsep := separated_of_partitioned (sound_of_run hrun (fresh_start _ _)).2 (hall _ _ _ hrun (fresh_start _ _))
  have hdot := (hsep _ _ "hackorama.app.web.Load".toList (listed_connectedTo.mpr ⟨rfl, rfl⟩) (by decide) (by decide)).1
  exact hdot (by decide)

end Site

end Plethora
