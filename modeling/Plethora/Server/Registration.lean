/-
# Listed and registered

A discovery puts each metric described into its module's list and, by way of
the factory, into the registry. The factory declines a metric whose type is
none of the three, and a metric without a full name has no place there; the
list takes both. A JMX attribute that is no `Long`, `String` or `Boolean` is
such a metric.

So every listed name is registered throughout a run exactly if in every
discovery each name described has a full name that was registered before, or
is described with a type the factory takes: `allRegistered_iff`. Then nobody
who follows the lists meets a name without a metric (`Resolved`).

Key definitions: `Site.AllRegistered`, `Site.Registrable`, `Site.Serves`,
`MetricService.Resolved`.
Key theorems: `Effect.registers_iff`, `allRegistered_iff`.
-/
import Plethora.Server.Site
import Plethora.Snmp.Mib

namespace Plethora

namespace Site

/-- Every listed name has a metric. -/
def AllRegistered (s : Site) : Prop :=
  ∀ module metric, s.Listed module metric →
    ∃ m, s.metrics.getMetric (NameResolver.resolveMetricName metric module) = .ok (some m)

/-- Every name described has a full name, and is registered already or
described as something the factory makes a metric of. -/
def Registrable (s : Site) (e : Event) : Prop :=
  ∀ d ∈ e.described, ∃ name, NameResolver.resolveMetricName d.1 e.moduleName = some name ∧
    ((s.metrics.get name).isSome = true ∨ ∃ d' ∈ e.described, Takes e.moduleName name d')

theorem registered_iff {s : Metrics} {name : Option Text} : (∃ m, s.getMetric name = .ok (some m)) ↔
    ∃ n, name = some n ∧ (s.get n).isSome = true := by
  cases name with
  | none => simp [Metrics.getMetric]
  | some n => simp [Metrics.getMetric, Option.isSome_iff_exists]

/-- A step leaves registered what was, and registers what it is described. -/
theorem Event.after_isSome (e : Event) (before : Metrics) (name : Text) :
    (e.after before name).isSome = true ↔
      (before.get name).isSome = true ∨ ∃ d ∈ e.described, Takes e.moduleName name d := by
  have hfound : (e.found before name).isSome = true ↔ (before.get name).isSome = true ∨ e.taken name ≠ none := by
    unfold Event.found
    cases ht : e.taken name with
    | none => simp
    | some p =>
      obtain ⟨d, -, htakes, rfl⟩ := exists_of_taken ht
      obtain ⟨v, made, -, hm⟩ := exists_getMetric htakes
      simp [hm]
  have hafter : (e.after before name).isSome = (e.found before name).isSome := by
    unfold Event.after
    split
    · rfl
    · split
      · rw [Option.isSome_map]
      · rfl
  have htaken : e.taken name ≠ none ↔ ∃ d ∈ e.described, Takes e.moduleName name d := by
    rw [Event.taken, ne_eq, taken_eq_none]
    simp
  rw [hafter, hfound, htaken]

/-- A step keeps every listed name registered exactly if what it is described
can be. -/
theorem Effect.registers_iff {s s' : Site} {e : Event} (h : Effect s e s') (hs : s.AllRegistered) :
    s'.AllRegistered ↔ s.Registrable e := by
  constructor
  · intro hs' d hd
    have hl : s'.Listed e.moduleName d.1 := (h.listed _ _).mpr (Or.inr ⟨rfl, d, hd, rfl⟩)
    obtain ⟨name, hn, hsome⟩ := registered_iff.mp (hs' _ _ hl)
    rw [h.get, e.after_isSome] at hsome
    exact ⟨name, hn, hsome⟩
  · intro hr module metric hl
    rw [registered_iff]
    rcases (h.listed module metric).mp hl with hl | ⟨rfl, d, hd, rfl⟩
    · obtain ⟨name, hn, hsome⟩ := registered_iff.mp (hs module metric hl)
      exact ⟨name, hn, by rw [h.get, e.after_isSome]; exact Or.inl hsome⟩
    · obtain ⟨name, hn, hsome⟩ := hr d hd
      exact ⟨name, hn, by rw [h.get, e.after_isSome]; exact hsome⟩

theorem allRegistered_of_fresh {s : Site} (h : s.Fresh) : s.AllRegistered := by
  rintro module metric ⟨m, hm, -, hx⟩
  rw [h.2 m hm] at hx
  exact absurd hx List.not_mem_nil

/-! ### Those who follow the lists -/

/-- The service works on these modules and this registry. -/
structure Serves (service : MetricService) (s : Site) : Prop where
  metrics : service.metrics = s.metrics
  modules : ∀ name m, service.modules.getModule name = some m →
    ∃ x ∈ s.modules, x.state = m ∧ m.moduleName = name

end Site

/-- No listed name is without a metric: for `getMetricProperties`, for the
writer of the MIB, and for a read by position. -/
structure MetricService.Resolved (service : MetricService) : Prop where
  properties : ∀ module ∈ service.moduleList, ∀ metric ∈ service.metricList module,
    ∃ p, service.getMetricProperties module metric = .ok (some p)
  mib : ∀ engine : MIBEngine, engine.metricService = service →
    ∃ sections, engine.buildSections service.moduleList 1 = .ok sections
  positions : ∀ i j module metric, elementAt service.moduleList i = some module →
    elementAt (service.metricList module) j = some metric → ∃ m, service.metricReached i j = .ok (some m)

namespace Site

theorem Serves.allRegistered {service : MetricService} {s : Site} (h : Serves service s) (hs : s.AllRegistered) :
    service.AllRegistered := by
  intro module hmod metric hmet
  obtain ⟨m, hm⟩ := Modules.exists_getModule (s := service.modules) (n := module) hmod
  rw [service.metricList_eq hm] at hmet
  obtain ⟨x, hx, rfl, hn⟩ := h.modules module m hm
  rw [h.metrics]
  exact hs module metric ⟨x, hx, hn, hmet⟩

theorem resolved_of_allRegistered {service : MetricService} (h : service.AllRegistered) : service.Resolved := by
  refine ⟨fun module hmod metric hmet => ?_, ?_, fun i j module metric hi hj => ?_⟩
  · obtain ⟨m, hm⟩ := h module hmod metric hmet
    exact ⟨m.properties, by simp only [MetricService.getMetricProperties, hm]; rfl⟩
  · rintro engine rfl
    exact engine.buildSections_ok _ 1 h
  · have hmem : ∀ {l : List Text} {i : Int32} {x : Text}, elementAt l i = some x → x ∈ l := by
      intro l i x hx
      unfold elementAt at hx
      split at hx
      · exact List.mem_of_getElem? hx
      · cases hx
    obtain ⟨m, hm⟩ := h module (hmem hi) metric (hmem hj)
    refine ⟨m, ?_⟩
    rw [MetricService.metricReached, MetricService.withMetricAt_eq, hi]
    dsimp only
    rw [hj]
    exact hm

/-- **When every listed name is registered.** Through a run from the start it
is exactly if every discovery is described nothing but metrics that can be
registered; and wherever it is, a service of these modules meets no listed
name without a metric. -/
theorem allRegistered_iff {s s' : Site} {steps : List (Site × Event)} (h : Run Step s steps s') (hs : s.Fresh) :
    (Throughout AllRegistered steps s' ↔ ∀ p ∈ steps, Registrable p.1 p.2) ∧
    (Throughout AllRegistered steps s' → ∀ t ∈ s' :: steps.map (·.1), ∀ service, Serves service t →
      service.Resolved) := by
  refine ⟨h.invariant_iff (fun s e t hst hi => hst.effect.registers_iff hi) (allRegistered_of_fresh hs), ?_⟩
  intro hall t ht service hserves
  refine resolved_of_allRegistered (hserves.allRegistered ?_)
  rcases List.mem_cons.mp ht with rfl | ht
  · exact hall.2
  · obtain ⟨p, hp, rfl⟩ := List.mem_map.mp ht
    exact hall.1 p hp

theorem allRegistered_iff_long :
    Throughout AllRegistered [(start "jvm" (.jmx (oneAttribute "java.lang.Long" none)), connecting "jvm" "java.lang.Long")]
      (connectedTo "jvm" "java.lang.Long" none) := by
  refine (allRegistered_iff (run_connecting "jvm" "java.lang.Long" none) (fresh_start _ _)).1.mpr ?_
  intro p hp d hd
  obtain rfl := List.mem_singleton.mp hp
  obtain rfl := List.mem_singleton.mp hd
  refine ⟨"hackorama.jvm.Load".toList, by decide, Or.inr ⟨_, List.mem_singleton.mpr rfl, ?_⟩⟩
  decide

/-- An `int` attribute is listed and not registered. -/
theorem int_not_registered :
    ¬ (∀ (s s' : Site) (steps : List (Site × Event)), Run Step s steps s' → s.Fresh → Throughout AllRegistered steps s') ∧
    ¬ (connectedTo "jvm" "int" none).AllRegistered := by
  have h : ¬ (connectedTo "jvm" "int" none).AllRegistered := by
    intro h
    obtain ⟨m, hm⟩ := h "jvm".toList "Load".toList ⟨_, List.mem_singleton.mpr rfl, rfl, by decide⟩
    cases hm
  exact ⟨fun hall => h (hall _ _ _ (run_connecting "jvm" "int" none) (fresh_start _ _)).2, h⟩

end Site

end Plethora
