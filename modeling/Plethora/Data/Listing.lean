/-
# A module lists what it was told

Whatever a module's method does, and however its retries nest, the names it
lists afterwards are those it listed before and names the remote end reported
on the way (`Lists`).

Key definitions: `reported`, `Lists`, `Told`.
Key theorems: `RemoteModule.lists_connect`, `RemoteModule.lists_getValue`.
-/
import Plethora.Data.RemoteModule

namespace Plethora

open Eff

/-- The names the remote end reported in these requests. -/
def reported : List RemoteEvent → List Text
  | [] => []
  | .discovery (some names) :: l => names ++ reported l
  | _ :: l => reported l

theorem reported_append : ∀ d l : List RemoteEvent, reported (d ++ l) = reported d ++ reported l
  | [], _ => rfl
  | .discovery (some names) :: d, l => by
    rw [List.cons_append, reported, reported, reported_append d l, List.append_assoc]
  | .discovery none :: d, l => reported_append d l
  | .status _ :: d, l => reported_append d l
  | .property _ _ :: d, l => reported_append d l
  | .value _ _ :: d, l => reported_append d l

/-- From `s` on, requests `d` were made, and the names new in `s'` were
reported in them. -/
structure Lists (s : Running) (d : List RemoteEvent) (s' : Running) : Prop where
  requests : s'.module.requests = d ++ s.module.requests
  name : s'.module.moduleName = s.module.moduleName
  kept : ∀ n ∈ s.module.metricNames, n ∈ s'.module.metricNames
  new : ∀ n ∈ s'.module.metricNames, n ∈ s.module.metricNames ∨ n ∈ reported d

/-- So far, these names among others were reported. -/
def Told (s : Running) (names : List Text) (s' : Running) : Prop :=
  ∃ d, Lists s d s' ∧ ∀ n ∈ names, n ∈ reported d

section Steps

variable {s s' : Running} {names : List Text}

theorem Told.refl (s : Running) : Told s [] s :=
  ⟨[], ⟨rfl, rfl, fun _ h => h, fun _ h => Or.inl h⟩, nofun⟩

theorem Told.connected (h : Told s names s') (connected : Bool) :
    Told s names { s' with module := { s'.module with connected } } := by
  obtain ⟨d, hd, hn⟩ := h
  exact ⟨d, ⟨hd.requests, hd.name, hd.kept, hd.new⟩, hn⟩

theorem Told.recorded (h : Told s names s') (event : RemoteEvent) : Told s names (s'.recorded event) := by
  obtain ⟨d, hd, hn⟩ := h
  have hmem : ∀ n ∈ reported d, n ∈ reported (event :: d) := fun n hn => by
    rw [← List.singleton_append, reported_append]
    exact List.mem_append_right _ hn
  refine ⟨event :: d, ⟨congrArg (event :: ·) hd.requests, hd.name, hd.kept, fun n hn => ?_⟩,
    fun n h => hmem n (hn n h)⟩
  exact (hd.new n hn).imp_right (hmem n)

/-- What the remote end is recorded to have reported. -/
theorem Told.discovery (h : Told s names s') (more : List Text) :
    Told s (more ++ names) (s'.recorded (.discovery (some more))) := by
  obtain ⟨d, hd, hall⟩ := h
  refine ⟨.discovery (some more) :: d, ⟨congrArg (_ :: ·) hd.requests, hd.name, hd.kept, fun n hn => ?_⟩,
    fun n hn => ?_⟩
  · exact (hd.new n hn).imp_right fun h => List.mem_append_right _ h
  · exact List.mem_append.mpr ((List.mem_append.mp hn).imp_right (hall n))

theorem Told.weaken {more : List Text} (h : Told s (more ++ names) s') : Told s names s' := by
  obtain ⟨d, hd, hall⟩ := h
  exact ⟨d, hd, fun n hn => hall n (List.mem_append_right _ hn)⟩

theorem Told.added (h : Told s names s') {n : Text} (hn : n ∈ names) (p : MetricProperties) :
    Told s names (s'.added n p) := by
  obtain ⟨d, hd, hall⟩ := h
  refine ⟨d, ⟨hd.requests, hd.name, fun m hm => TreeSet.mem_add.mpr (Or.inr (hd.kept m hm)), fun m hm => ?_⟩, hall⟩
  rcases TreeSet.mem_add.mp hm with rfl | hm
  · exact Or.inr (hall m hn)
  · exact hd.new m hm

theorem keeps_setConnected (connected : Bool) : Keeps (Told s names) (Module.setConnected connected) :=
  keeps_modify fun _ h => h.connected connected

theorem keeps_record (event : RemoteEvent) : Keeps (Told s names) (Module.record event) :=
  keeps_modify fun _ h => h.recorded event

theorem keeps_addMetric {n : Text} (hn : n ∈ names) (p : MetricProperties) :
    Keeps (Told s names) (Module.addMetric n p) :=
  keeps_modify fun _ h => h.added hn p

theorem keeps_connect {connectionStatus : Java Bool} {discoverMetrics : Java Unit}
    (hc : Keeps (Told s names) connectionStatus) (hd : Keeps (Told s names) discoverMetrics) :
    Keeps (Told s names) (Module.connect connectionStatus discoverMetrics) := by
  unfold Module.connect
  refine keeps_bind (keeps_setConnected false) fun _ => keeps_bind hc fun b => ?_
  cases b with
  | false => exact keeps_bind keeps_get fun _ => keeps_pure _
  | true =>
    refine keeps_bind hd fun _ => keeps_bind (keeps_setConnected true) fun _ => ?_
    exact keeps_bind keeps_get fun _ => keeps_pure _

end Steps

variable {s : Running}

namespace WebModule

variable (w : WebModule) {reconnect : Java Bool} (hr : ∀ names, Keeps (Told s names) reconnect)
include hr

theorem keeps_remoteRequest (names : List Text) (url : Text) (retry : Bool)
    (describe : Option Text → RemoteEvent) :
    Keeps (Told s names) (w.remoteRequest reconnect url retry describe) := by
  unfold remoteRequest
  refine keeps_bind keeps_get fun s' => ?_
  cases w.getResponse url s' with
  | ok response => exact keeps_bind (keeps_record _) fun _ => keeps_pure _
  | error _ =>
    refine keeps_bind (keeps_record _) fun _ => ?_
    cases retry with
    | true => exact keeps_bind (hr names) fun _ => keeps_pure _
    | false => exact keeps_pure _

theorem keeps_connectionStatus (names : List Text) : Keeps (Told s names) (w.connectionStatus reconnect) :=
  keeps_bind (w.keeps_remoteRequest hr names _ _ _) fun _ => keeps_pure _

/-- The names to go through are those reported, or none after a retry. -/
theorem ensures_getMetricNamesList {names : List Text} {s' : Running} (h : Told s names s') :
    (w.getMetricNamesList reconnect).Ensures s' (fun more s'' => Told s (more ++ names) s'') (Told s names) := by
  unfold getMetricNamesList
  refine ensures_bind (Q := fun r s'' => Told s ((w.listedNames r).getD [] ++ names) s'') ?_
    fun r s'' h' => ensures_pure h'
  unfold remoteRequest
  refine ensures_get_bind ?_
  cases w.getResponse (URLBuilder.buildListNamesRequest w.url) s' with
  | ok response =>
    refine ensures_modify_bind (ensures_pure ?_)
    cases hn : w.listedNames response with
    | none => exact h.recorded _
    | some more =>
      have ht := h.discovery more
      rw [← hn] at ht
      exact ht
  | error _ =>
    refine ensures_modify_bind ?_
    exact ensures_bind (hr names _ (h.recorded _)) fun _ s'' h' => ensures_pure h'

theorem keeps_getMetricProperties (names : List Text) (n : Text) :
    Keeps (Told s names) (w.getMetricProperties reconnect n) := by
  unfold getMetricProperties
  refine keeps_bind (w.keeps_remoteRequest hr names _ _ _) fun response => ?_
  cases response with
  | none => exact keeps_pure _
  | some body => exact keeps_bind (keeps_lift _) fun _ => keeps_pure _

theorem keeps_discoverAll {names : List Text} : ∀ rest : List Text, (∀ n ∈ rest, n ∈ names) →
    Keeps (Told s names) (w.discoverAll reconnect rest)
  | [], _ => keeps_pure _
  | n :: rest, h => by
    have ih := keeps_discoverAll rest fun m hm => h m (List.mem_cons_of_mem _ hm)
    unfold discoverAll
    refine keeps_bind (w.keeps_getMetricProperties hr names n) fun p => ?_
    cases p with
    | none => exact ih
    | some p => exact keeps_bind (keeps_addMetric (h n (List.mem_cons_self ..)) p) fun _ => ih

theorem keeps_discoverMetrics (names : List Text) : Keeps (Told s names) (w.discoverMetrics reconnect) := by
  intro s' h
  unfold discoverMetrics
  refine ensures_bind (w.ensures_getMetricNamesList hr h) fun more s'' h' => ?_
  exact ensures_mono (w.keeps_discoverAll hr more (fun n hn => List.mem_append_left _ hn) s'' h')
    (fun _ _ h => h.weaken) fun _ h => h.weaken

omit hr in
theorem keeps_connect : ∀ (depth : ℕ) (names : List Text), Keeps (Told s names) (w.connect depth)
  | 0, _ => keeps_overflow
  | depth + 1, names =>
    Plethora.keeps_connect (w.keeps_connectionStatus (keeps_connect depth) names)
      (w.keeps_discoverMetrics (keeps_connect depth) names)

end WebModule

namespace JMXModule

variable (j : JMXModule)

theorem keeps_connectionStatus (names : List Text) : Keeps (Told s names) j.connectionStatus :=
  keeps_bind keeps_get fun _ => keeps_bind (keeps_record _) fun _ => keeps_pure _

theorem keeps_discoverAll {names : List Text} : ∀ rest : List MBeanAttributeInfo,
    (∀ a ∈ rest, a.name ∈ names) → Keeps (Told s names) (j.discoverAll rest)
  | [], _ => keeps_pure _
  | a :: rest, h => by
    have ih := keeps_discoverAll rest fun b hb => h b (List.mem_cons_of_mem _ hb)
    unfold discoverAll
    refine keeps_bind (keeps_lift _) fun p => ?_
    exact keeps_bind (keeps_addMetric (h a (List.mem_cons_self ..)) _) fun _ => ih

theorem keeps_discoverMetrics (names : List Text) : Keeps (Told s names) j.discoverMetrics := by
  intro s' h
  unfold discoverMetrics
  refine ensures_get_bind (ensures_modify_bind ?_)
  cases (j.answer s').info with
  | none => exact ensures_pure (h.recorded _)
  | some attribs =>
    have ht := h.discovery (attribs.map (·.name))
    have hall : ∀ a ∈ attribs, a.name ∈ attribs.map (·.name) ++ names :=
      fun a ha => List.mem_append_left _ (List.mem_map_of_mem ha)
    exact ensures_mono (j.keeps_discoverAll attribs hall _ ht) (fun _ _ h => h.weaken) fun _ h => h.weaken

theorem keeps_connect (names : List Text) : Keeps (Told s names) j.connect :=
  Plethora.keeps_connect (j.keeps_connectionStatus names) (j.keeps_discoverMetrics names)

theorem keeps_getRemoteGenericMetric (names : List Text) (metric : Text) :
    Keeps (Told s names) (j.getRemoteGenericMetric metric) := by
  unfold getRemoteGenericMetric
  refine keeps_bind keeps_get fun s' => ?_
  cases (j.answer s').getAttribute with
  | value v => exact keeps_bind (keeps_record _) fun _ => keeps_pure _
  | jmxException => exact keeps_bind (keeps_record _) fun _ => keeps_pure _
  | ioException =>
    refine keeps_bind (keeps_record _) fun _ => ?_
    exact keeps_bind (j.keeps_connect names) fun _ => keeps_pure _

end JMXModule

namespace RemoteModule

theorem keeps_connect (depth : ℕ) (m : RemoteModule) (names : List Text) :
    Keeps (Told s names) (m.connect depth) := by
  cases m with
  | web w => exact w.keeps_connect depth names
  | jmx j => exact j.keeps_connect names

theorem keeps_getValue (depth : ℕ) (m : RemoteModule) (metric : Text) (names : List Text) :
    Keeps (Told s names) (m.getValue depth metric) := by
  apply keeps_getValue_of
  cases m with
  | web w => exact keeps_bind (w.keeps_remoteRequest (w.keeps_connect depth) names _ _ _) fun _ => keeps_pure _
  | jmx j => exact j.keeps_getRemoteGenericMetric names metric

/-- What a `connect` does to its module's list. -/
theorem lists_connect (depth : ℕ) (m : RemoteModule) (s : Running) :
    (m.connect depth).Ensures s (fun _ s' => ∃ d, Lists s d s') fun s' => ∃ d, Lists s d s' :=
  ensures_mono (m.keeps_connect depth [] s (Told.refl s)) (fun _ _ ⟨d, h, _⟩ => ⟨d, h⟩) fun _ ⟨d, h, _⟩ => ⟨d, h⟩

/-- What a read does to it. -/
theorem lists_getValue (depth : ℕ) (m : RemoteModule) (metric : Text) (s : Running) :
    (m.getValue depth metric).Ensures s (fun _ s' => ∃ d, Lists s d s') fun s' => ∃ d, Lists s d s' :=
  ensures_mono (m.keeps_getValue depth metric [] s (Told.refl s)) (fun _ _ ⟨d, h, _⟩ => ⟨d, h⟩)
    fun _ ⟨d, h, _⟩ => ⟨d, h⟩

end RemoteModule

end Plethora
