/-
# What a rediscovery does to the metrics it finds

A module that connects again is described the metrics it had before. Each of
them is made anew by the factory and put in the place of the old one, so its
value is the initial value of its type again: 0, the empty text or false. The
registry would know that the metric is there (`hasMetric`), and is not asked.

A metric comes through a rediscovery unchanged, then, if it still has its
initial value, and no valid value was stored since. Metrics of other modules
are put aside when the full names collide: `undisturbed_iff`.

Key definitions: `Site.Undisturbed`, `Site.AtStart`.
Key theorems: `Effect.disturbs_iff`, `undisturbed_iff`.
-/
import Plethora.Server.Site

namespace Plethora

namespace Site

/-- The discovery leaves the values of the metrics it describes as they are,
where they are registered with the same type, and the metrics of the other
modules. -/
def Undisturbed (s : Site) (e : Event) : Prop :=
  (∀ d ∈ e.described, ∀ name m, NameResolver.resolveMetricName d.1 e.moduleName = some name →
    s.metrics.get name = some m → ∃ m', e.discovered.get name = some m' ∧
      (m'.properties.type = m.properties.type → m'.value = m.value ∧ m'.lastValidValue = m.lastValidValue)) ∧
  ∀ module metric name, s.Listed module metric → module ≠ e.moduleName →
    NameResolver.resolveMetricName metric module = some name → e.discovered.get name = s.metrics.get name

/-- Every registered metric that is described again with its type has its
initial value, and has had no other since; and what another module lists is
as the factory would make it of the description. -/
def AtStart (s : Site) (e : Event) : Prop :=
  (∀ name m p, s.metrics.get name = some m → e.taken name = some p → p.type = m.properties.type →
    m.value = MetricFactory.initialValue p.type ∧ m.lastValidValue = MetricFactory.initialValue p.type) ∧
  ∀ module metric name p, s.Listed module metric → module ≠ e.moduleName →
    NameResolver.resolveMetricName metric module = some name → e.taken name = some p →
      s.metrics.get name = MetricFactory.getMetric (some name) p

variable {s s' : Site} {e : Event}

/-- A metric described is the one the factory makes, with its initial value. -/
theorem Effect.get_of_taken (h : Effect s e s') {name : Text} {p : MetricProperties} (ht : e.taken name = some p) :
    ∃ m, e.discovered.get name = some m ∧ MetricFactory.getMetric (some name) p = some m ∧
      m.properties = p ∧ m.value = MetricFactory.initialValue p.type ∧
      m.lastValidValue = MetricFactory.initialValue p.type := by
  obtain ⟨d, -, htakes, rfl⟩ := exists_of_taken ht
  obtain ⟨v, made, hv, hm⟩ := exists_getMetric htakes
  refine ⟨Metric.init name v d.2 made, ?_, hm, rfl, hv.symm, hv.symm⟩
  rw [h.discovered, Event.found, ht]
  exact hm

theorem Effect.get_of_not_taken (h : Effect s e s') {name : Text} (ht : e.taken name = none) :
    e.discovered.get name = s.metrics.get name := by
  rw [h.discovered, Event.found, ht]

theorem Effect.disturbs_iff (h : Effect s e s') : s.Undisturbed e ↔ s.AtStart e := by
  refine and_congr ⟨fun hu name m p hm ht htype => ?_, fun ha d hd name m hname hm => ?_⟩
    ⟨fun hu module metric name p hl hne hname ht => ?_, fun ha module metric name hl hne hname => ?_⟩
  · obtain ⟨d, hd, htakes, -⟩ := exists_of_taken ht
    obtain ⟨new, hnew, -, hp, hvalue, hlast⟩ := h.get_of_taken ht
    obtain ⟨m', hm', hsame⟩ := hu d hd name m htakes.1 hm
    obtain rfl : new = m' := Option.some.inj (hnew.symm.trans hm')
    obtain ⟨h1, h2⟩ := hsame (by rw [hp, htype])
    exact ⟨h1.symm.trans hvalue, h2.symm.trans hlast⟩
  · cases ht : e.taken name with
    | none => exact ⟨m, (h.get_of_not_taken ht).trans hm, fun _ => ⟨rfl, rfl⟩⟩
    | some p =>
      obtain ⟨new, hnew, -, hp, hvalue, hlast⟩ := h.get_of_taken ht
      refine ⟨new, hnew, fun htype => ?_⟩
      obtain ⟨h1, h2⟩ := ha name m p hm ht (by rw [← hp, htype])
      exact ⟨hvalue.trans h1.symm, hlast.trans h2.symm⟩
  · obtain ⟨new, hnew, hmade, -⟩ := h.get_of_taken ht
    rw [← hu module metric name hl hne hname, hnew, hmade]
  · cases ht : e.taken name with
    | none => exact h.get_of_not_taken ht
    | some p =>
      obtain ⟨new, hnew, hmade, -⟩ := h.get_of_taken ht
      rw [hnew, ha module metric name p hl hne hname ht, hmade]

/-- **When a discovery leaves live metrics alone**, in any run: exactly if
each of them it describes again is as it was made. -/
theorem undisturbed_iff {steps : List (Site × Event)} (h : Run Step s steps s') :
    ∀ p ∈ steps, (Undisturbed p.1 p.2 ↔ AtStart p.1 p.2) := by
  intro p hp
  obtain ⟨t, hstep⟩ := h.step_of_mem hp
  exact hstep.effect.disturbs_iff

/-- Neither the first connect nor the read disturbs a metric; after the read, the
second connect does. -/
theorem undisturbed_iff_rediscovered :
    Undisturbed (start "jvm" five) (connecting "jvm" "java.lang.Long") ∧
    Undisturbed (connectedTo "jvm" "java.lang.Long" (some (.long 5))) reading ∧ ¬ Undisturbed refreshed reconnecting := by
  have hiff := undisturbed_iff run_rediscovered
  simp only [rediscovered, List.forall_mem_cons] at hiff
  obtain ⟨hconnecting, hreading, hreconnecting, -⟩ := hiff
  refine ⟨hconnecting.mpr ⟨fun name m p hm => ?_, fun module metric name p hl => ?_⟩,
    hreading.mpr ⟨fun name m p _ ht => ?_, fun module metric name p _ _ _ ht => ?_⟩, fun h => ?_⟩
  · cases hm
  · obtain ⟨m, hm, -, hx⟩ := hl
    rw [List.mem_singleton.mp hm] at hx
    cases hx
  · cases ht
  · cases ht
  · have htaken : reconnecting.taken load = some (loadProperties "java.lang.Long") := by decide
    have hvalue := ((hreconnecting.mp h).1 load loadRead _ get_refreshed htaken rfl).1
    exact absurd hvalue (by decide)

/-- A metric that was read is 0 again after its module connected again. -/
theorem reconnect_resets :
    ¬ (∀ (s s' : Site) (steps : List (Site × Event)), s.Fresh → Run Step s steps s' →
      ∀ p ∈ steps, Undisturbed p.1 p.2) ∧
    refreshed.metrics.get load = some loadRead ∧ reconnecting.discovered.get load = some loadMetric := by
  have hafter : reconnecting.discovered.get load = some loadMetric := by decide
  refine ⟨fun hall => ?_, get_refreshed, hafter⟩
  have hmem : (refreshed, reconnecting) ∈ rediscovered := List.mem_of_getElem? (i := 2) rfl
  obtain ⟨m', hm', hsame⟩ := (hall _ _ _ (fresh_start "jvm" five) run_rediscovered _ hmem).1
    ("Load".toList, loadProperties "java.lang.Long") (List.mem_singleton.mpr rfl) load loadRead (by decide) get_refreshed
  obtain rfl : loadMetric = m' := Option.some.inj (hafter.symm.trans hm')
  have hvalue : loadMetric.value = loadRead.value := (hsame rfl).1
  revert hvalue
  decide

end Site

end Plethora
