/-
# Whether a Python agent's store stays ready

The store is ready while the metric `VERSION` has the value that the store
gave it. It is a metric like the others: a file can define it, `addMetric`
replaces it, and once it has properties `setMetric` changes it. Whatever else
is put there, every method refuses from then on, and the rest of a file that
is being added is dropped. `incrMetric` and `decrMetric` cannot change it, as
it is no number.

Key definitions: `Plethoralib.Call`, `Plethoralib.Store.LeavesVersion`, `Plethoralib.Store.Added`,
`Plethoralib.Readable`, `Plethoralib.VersionFits`.
Key theorems: `Plethoralib.Store.isReady_afterCall_iff`, `Plethoralib.Store.added_addMetrics`,
`Plethoralib.Store.ready_iff`.
-/
import Plethora.Agents.NumberMetrics

namespace Plethora

namespace Plethoralib

/-- A call that can change the store. -/
inductive Call (F : Floats)
  | addMetric (name : Option Basestring) (value : Option (PyObject F)) (properties : Option MetricProperties)
  | write (w : Write F)

namespace Store

variable {F : Floats}

/-- The store after a call. -/
def afterCall (s : Store F) : Call F → Store F
  | .addMetric name value properties => (s.addMetric name value properties).1
  | .write w => s.after w

def Calls (s : Store F) (c : Call F) (t : Store F) : Prop := t = s.afterCall c

theorem calls_afterCall (s : Store F) (c : Call F) : Calls s c (s.afterCall c) := rfl

/-- A value that the call puts under `VERSION` is the one that is there. -/
def LeavesVersion (s : Store F) : Call F → Prop
  | .addMetric name value _ => name = some versionName → ∀ v, value = some v → v = .text version
  | .write (.setMetric name value) =>
    name = some versionName → ∀ v, value = some v → s.accepts versionName v = true → v = .text version
  | .write _ => True

variable {s t : Store F}

/-! ### What a call leaves of the version -/

/-- Among the metrics that count as numbers there is no version. -/
def VersionUncounted (s : Store F) : Prop := versionName ∉ s.numbertypeLookup

theorem isReady_setStoreValue {n : Basestring} {v : PyObject F} (hr : s.isReady = true) :
    (s.setStoreValue n v).isReady = true ↔ (n = versionName → v = .text version) := by
  rw [isReady_iff] at hr ⊢
  rw [lookup_setStoreValue]
  by_cases hn : versionName = n
  · rw [if_pos hn, Option.some.injEq]
    exact ⟨fun hv _ => hv, fun h => h hn.symm⟩
  · rw [if_neg hn]
    exact iff_of_true hr fun h => absurd h.symm hn

theorem isReady_congr (h : t.metrics = s.metrics) : t.isReady = s.isReady := by
  rw [isReady, h, isReady]

theorem addMetric_of_not_ready (hr : s.isReady = false) (name : Option Basestring) (value : Option (PyObject F))
    (properties : Option MetricProperties) : (s.addMetric name value properties).1 = s := by
  cases name with
  | none => rfl
  | some n =>
    cases value with
    | none => rfl
    | some v => simp [addMetric, hr]

/-- Whatever happens to its properties, the value of a metric is added. -/
theorem addMetric_of_ready (hr : s.isReady = true) (n : Basestring) (v : PyObject F)
    (properties : Option MetricProperties) : ∃ metricprops,
      (s.addMetric (some n) (some v) properties).1 = { s with metrics := put n v s.metrics, metricprops } := by
  simp only [addMetric, hr, if_true]
  cases properties.elim (v.valueType.map fun thetype => { type := thetype }) Except.ok with
  | error e => exact ⟨s.metricprops, rfl⟩
  | ok p => exact ⟨put n p s.metricprops, addMetricProperties_setStoreValue⟩

theorem numbertypeLookup_addMetric (s : Store F) (name : Option Basestring) (value : Option (PyObject F))
    (properties : Option MetricProperties) :
    (s.addMetric name value properties).1.numbertypeLookup = s.numbertypeLookup := by
  cases hr : s.isReady with
  | false => rw [addMetric_of_not_ready hr]
  | true =>
    cases name with
    | none => rfl
    | some n =>
      cases value with
      | none => rfl
      | some v =>
        obtain ⟨metricprops, he⟩ := addMetric_of_ready hr n v properties
        rw [he]

/-- The version is no number. -/
theorem version_not_number {value : PyObject F} (hget : s.getMetric (some versionName) = some value) :
    value.isNumber = false := by
  obtain ⟨hr, hlookup⟩ := getMetric_eq_some.mp hget
  rw [isReady_iff.mp hr] at hlookup
  obtain rfl := Option.some.inj hlookup
  rfl

theorem versionUncounted_isNumberTypeMetric {n : Basestring} {value : PyObject F} (h : s.VersionUncounted)
    (hget : s.getMetric (some n) = some value) : (s.isNumberTypeMetric n value).1.VersionUncounted := by
  unfold isNumberTypeMetric
  by_cases hn : n = versionName
  · subst hn
    simp only [version_not_number hget, Bool.false_and, Bool.false_eq_true, if_false]
    split
    · exact h
    · split
      · exact h
      · exact h
  · split
    · exact h
    · split
      · exact h
      · split
        · exact List.not_mem_cons_of_ne_of_not_mem (Ne.symm hn) h
        · exact h

theorem versionUncounted_of_changed {op : PyObject F → PyObject F → Option (PyObject F)} (h : s.VersionUncounted)
    (hc : Changed op s t) : t.VersionUncounted := by
  cases hc with
  | none => exact h
  | checked n value stored => exact versionUncounted_isNumberTypeMetric h stored
  | changed n value d v stored number result accepted => exact versionUncounted_isNumberTypeMetric h stored
  | first n v missing ready accepted => exact h

theorem versionUncounted_afterCall (h : s.VersionUncounted) (c : Call F) : (s.afterCall c).VersionUncounted := by
  cases c with
  | addMetric name value properties =>
    rw [VersionUncounted, afterCall, numbertypeLookup_addMetric]
    exact h
  | write w =>
    cases w with
    | setMetric name value =>
      rcases setMetric_cases s name value with he | ⟨n, v, -, -, -, -, he⟩
      · rw [afterCall, after, he]
        exact h
      · rw [afterCall, after, he]
        exact h
    | incrMetric name delta => exact versionUncounted_of_changed h (changeBy_cases ..)
    | decrMetric name delta => exact versionUncounted_of_changed h (changeBy_cases ..)

/-- Counting leaves the version as it is. -/
theorem isReady_of_changed {op : PyObject F → PyObject F → Option (PyObject F)} (hr : s.isReady = true)
    (h : s.VersionUncounted) (hc : Changed op s t) : t.isReady = true := by
  cases hc with
  | none => exact hr
  | checked n value stored => rw [isReady_isNumberTypeMetric, hr]
  | changed n value d v stored number result accepted =>
    have hr' : (s.isNumberTypeMetric n value).1.isReady = true := by rw [isReady_isNumberTypeMetric, hr]
    refine (isReady_setStoreValue hr').mpr fun hn => ?_
    subst hn
    have hno := version_not_number stored
    simp only [isNumberTypeMetric, if_neg h, hno, Bool.false_and, Bool.false_eq_true, if_false] at number
    split at number
    · cases number
    · cases number
  | first n v missing ready accepted =>
    refine (isReady_setStoreValue hr).mpr fun hn => ?_
    subst hn
    rw [getMetric_eq_some.mpr ⟨hr, isReady_iff.mp hr⟩] at missing
    cases missing

/-- **What a call leaves of the version.** -/
theorem isReady_afterCall_iff (hr : s.isReady = true) (h : s.VersionUncounted) (c : Call F) :
    (s.afterCall c).isReady = true ↔ s.LeavesVersion c := by
  cases c with
  | addMetric name value properties =>
    cases name with
    | none => exact iff_of_true hr nofun
    | some n =>
      cases value with
      | none => exact iff_of_true hr nofun
      | some v =>
        obtain ⟨metricprops, he⟩ := addMetric_of_ready hr n v properties
        have hready : (s.afterCall (.addMetric (some n) (some v) properties)).isReady = (s.setStoreValue n v).isReady := by
          apply isReady_congr
          rw [afterCall, he]
          rfl
        rw [hready, isReady_setStoreValue hr]
        constructor
        · rintro hv hn v' hv'
          cases hv'
          exact hv (Option.some.inj hn)
        · exact fun hleaves hn => hleaves (congrArg some hn) v rfl
  | write w =>
    cases w with
    | setMetric name value =>
      rcases setMetric_cases s name value with he | ⟨n, v, rfl, rfl, -, ha, he⟩
      · rw [afterCall, after, he]
        refine iff_of_true hr fun hn v hv ha => ?_
        subst hn hv
        rw [setMetric_of_accepts hr ha] at he
        cases (Prod.mk.inj he).2
      · rw [afterCall, after, he, isReady_setStoreValue hr]
        constructor
        · rintro hv hn v' hv' -
          cases hv'
          exact hv (Option.some.inj hn)
        · intro hleaves hn
          exact hleaves (congrArg some hn) v rfl (hn ▸ ha)
    | incrMetric name delta => exact iff_of_true (isReady_of_changed hr h (changeBy_cases ..)) trivial
    | decrMetric name delta => exact iff_of_true (isReady_of_changed hr h (changeBy_cases ..)) trivial

/-! ### What is added from a file -/

/-- The metric is in the store, with its value and its properties. -/
def Added (s : Store F) (m : Metric) : Prop :=
  s.metrics.lookup (.unicode m.name) = some (valueOf m.value) ∧
    s.metricprops.lookup (.unicode m.name) = some m.properties

theorem isReady_added {m : Metric} (hr : s.isReady = true)
    (hv : m.name = "VERSION".toList → m.value = .text "1.0.0".toList) :
    (s.added (.unicode m.name) (valueOf m.value) m.properties).isReady = true := by
  rw [isReady_iff] at hr ⊢
  rw [lookup_added]
  by_cases hn : versionName = .unicode m.name
  · rw [if_pos hn, hv (unicode_inj.mp hn).symm]
    rfl
  · rw [if_neg hn, hr]

/-- **A store that is ready stays so, and all metrics are added.** -/
theorem added_addMetrics : ∀ {ms : List Metric} {s : Store F}, (∀ m ∈ ms, Ascii m.name) → (ms.map (·.name)).Nodup →
    (∀ m ∈ ms, m.name = "VERSION".toList → m.value = .text "1.0.0".toList) → s.isReady = true →
    (addMetrics ms s).isReady = true ∧ (∀ m ∈ ms, (addMetrics ms s).Added m) ∧
      ∀ m : Metric, m.name ∉ ms.map (·.name) → s.Added m → (addMetrics ms s).Added m
  | [], _, _, _, _, hr => ⟨hr, fun m hm => absurd hm List.not_mem_nil, fun _ _ h => h⟩
  | m :: ms, s, hascii, hnodup, hversion, hr => by
    rw [List.map_cons, List.nodup_cons] at hnodup
    have hr' := isReady_added hr (hversion m List.mem_cons_self)
    have hadded : (s.added (.unicode m.name) (valueOf m.value) m.properties).Added m := by
      constructor
      · rw [lookup_added, if_pos rfl]
      · rw [props_added, if_pos rfl]
    rw [addMetrics_cons (hascii m List.mem_cons_self), if_pos hr]
    obtain ⟨hready, hall, hrest⟩ := added_addMetrics (fun m hm => hascii m (List.mem_cons_of_mem _ hm)) hnodup.2
      (fun m hm => hversion m (List.mem_cons_of_mem _ hm)) hr'
    refine ⟨hready, fun m' hm' => ?_, fun m' hm' h => ?_⟩
    · rcases List.mem_cons.mp hm' with rfl | hm'
      · exact hrest m' hnodup.1 hadded
      · exact hall m' hm'
    · rw [List.map_cons, List.mem_cons, not_or] at hm'
      refine hrest m' hm'.2 ⟨?_, ?_⟩
      · rw [lookup_added, if_neg (fun he => hm'.1 (unicode_inj.mp he))]
        exact h.1
      · rw [props_added, if_neg (fun he => hm'.1 (unicode_inj.mp he))]
        exact h.2

end Store

/-- The reader comes to the end of the file. -/
def Readable (props : Properties) : Prop :=
  ∀ key ∈ props.stringPropertyNames,
    ∃ m, MetricsPropertiesReader.getMetric props (getMetricNameFromPropertyKey key) = .ok m

/-- A metric `VERSION` that the file defines has the value that the store gives
it. -/
def VersionFits (props : Properties) : Prop :=
  ∀ key ∈ props.stringPropertyNames, getMetricNameFromPropertyKey key = "VERSION".toList →
    ∀ m, MetricsPropertiesReader.getMetric props "VERSION".toList = .ok m → m.value = .text "1.0.0".toList

section File

variable {props : Properties} {keySet : List Text}

/-- The metrics of a file that the reader comes to the end of. -/
theorem mem_getMetricsFromFile (hkeys : keySet.Perm props.stringPropertyNames) (h : Readable props)
    {name : Text} {m : Metric} :
    (name, m) ∈ MetricsPropertiesReader.getMetricsFromFile props keySet ↔
      MetricsPropertiesReader.getMetric props name = .ok m ∧
        name ∈ props.stringPropertyNames.map getMetricNameFromPropertyKey := by
  have hall : ∀ key ∈ keySet, ∃ m, MetricsPropertiesReader.getMetric props (getMetricNameFromPropertyKey key) = .ok m :=
    fun key hkey => h key (hkeys.mem_iff.mp hkey)
  obtain ⟨metrics, hrun⟩ := MetricsPropertiesReader.exists_processMetricsConfig hall
  have hread : MetricsPropertiesReader.getMetricsFromFile props keySet = metrics := Registering.registered_of_ok hrun
  have hlookup := (MetricsPropertiesReader.processMetricsConfig_ok hrun).2 name
  have hdefined := MetricsPropertiesReader.defined_getMetricsFromFile props keySet
  rw [hread] at hdefined ⊢
  rw [← (hkeys.map getMetricNameFromPropertyKey).mem_iff]
  constructor
  · intro hm
    have hsome := lookup_of_mem hdefined.nodup hm
    rw [hlookup] at hsome
    refine ⟨hdefined.entries _ hm, ?_⟩
    by_contra hn
    rw [if_neg hn] at hsome
    cases hsome
  · rintro ⟨hm, hn⟩
    rw [if_pos hn, hm] at hlookup
    exact mem_of_lookup hlookup

variable {F : Floats} {s t : Store F} {items : List (Text × Metric)} {storename : Basestring}

section Begins

variable (hkeys : keySet.Perm props.stringPropertyNames)
  (hitems : items.Perm (MetricsPropertiesReader.getMetricsFromFile props keySet))
  (hinit : ({ storename } : Store F).initMetricStore (items.map (·.2)) = .ok s)

include hitems hinit

theorem versionUncounted_of_file : s.VersionUncounted := by
  have hdefined := (MetricsPropertiesReader.defined_getMetricsFromFile props keySet).perm hitems
  rw [Store.eq_of_initMetricStore hinit, Store.VersionUncounted, (Store.lookups_addMetrics fun m => hdefined.ascii).1]
  exact List.not_mem_nil

include hkeys

/-- From a file that can be read and has no other version, the store begins
ready and with all metrics. -/
theorem ready_of_file (hreadable : Readable props) (hfits : VersionFits props) :
    s.isReady = true ∧ ∀ key ∈ props.stringPropertyNames,
      ∃ m, MetricsPropertiesReader.getMetric props (getMetricNameFromPropertyKey key) = .ok m ∧ s.Added m := by
  have hdefined := (MetricsPropertiesReader.defined_getMetricsFromFile props keySet).perm hitems
  have hversion : ∀ m ∈ items.map (·.2), m.name = "VERSION".toList → m.value = .text "1.0.0".toList := by
    intro m hm hname
    obtain ⟨⟨name, m'⟩, he, rfl⟩ := List.mem_map.mp hm
    obtain ⟨hget, hin⟩ := (mem_getMetricsFromFile hkeys hreadable).mp (hitems.mem_iff.mp he)
    obtain ⟨key, hkey, rfl⟩ := List.mem_map.mp hin
    have hv := (MetricsPropertiesReader.getMetric_name hget).symm.trans hname
    rw [hv] at hget
    exact hfits key hkey hv m' hget
  have hbegins : ({ storename } : Store F).addMetricVersion.isReady = true := rfl
  rw [Store.eq_of_initMetricStore hinit]
  obtain ⟨hready, hadded, -⟩ :=
    Store.added_addMetrics (fun m => hdefined.ascii) hdefined.nodup_names hversion hbegins
  refine ⟨hready, fun key hkey => ?_⟩
  obtain ⟨m, hm⟩ := hreadable key hkey
  have hmem := (mem_getMetricsFromFile hkeys hreadable).mpr ⟨hm, List.mem_map_of_mem hkey⟩
  exact ⟨m, hm, hadded m (List.mem_map_of_mem (hitems.mem_iff.mpr hmem))⟩

end Begins

/-- A store that is ready has got no other version from the file. -/
theorem versionFits_of_added (hr : s.isReady = true)
    (hadded : ∀ key ∈ props.stringPropertyNames,
      ∃ m, MetricsPropertiesReader.getMetric props (getMetricNameFromPropertyKey key) = .ok m ∧ s.Added m) :
    VersionFits props := by
  intro key hkey hversion m hm
  obtain ⟨m', hm', hin⟩ := hadded key hkey
  rw [hversion, hm] at hm'
  cases hm'
  have hvalue := hin.1
  rw [MetricsPropertiesReader.getMetric_name hm, show Basestring.unicode "VERSION".toList = versionName from rfl,
    Store.isReady_iff.mp hr] at hvalue
  cases hv : m.value with
  | number n =>
    rw [hv] at hvalue
    cases hvalue
  | boolean b =>
    rw [hv] at hvalue
    cases hvalue
  | text x =>
    rw [hv, Store.valueOf, Option.some.injEq, PyObject.text.injEq, version, Store.unicode_inj] at hvalue
    rw [hvalue]

/-- **The store stays ready and has the metrics of its file exactly if the file
can be read, and neither it nor a call puts another version.** -/
theorem Store.ready_iff {steps : List (Store F × Call F)} (hkeys : keySet.Perm props.stringPropertyNames)
    (hitems : items.Perm (MetricsPropertiesReader.getMetricsFromFile props keySet))
    (hinit : ({ storename } : Store F).initMetricStore (items.map (·.2)) = .ok s) (h : Run Calls s steps t) :
    (Throughout (fun s => s.isReady = true) steps t ∧
      ∀ key ∈ props.stringPropertyNames,
        ∃ m, MetricsPropertiesReader.getMetric props (getMetricNameFromPropertyKey key) = .ok m ∧ s.Added m) ↔
      Readable props ∧ VersionFits props ∧ ∀ p ∈ steps, LeavesVersion p.1 p.2 := by
  have huncounted := versionUncounted_of_file hitems hinit
  have hstep : ∀ (s : Store F) (c : Call F) (t : Store F), Calls s c t → (s.isReady = true ∧ s.VersionUncounted) →
      ((t.isReady = true ∧ t.VersionUncounted) ↔ s.LeavesVersion c) := by
    rintro s c t rfl ⟨hr, hu⟩
    rw [isReady_afterCall_iff hr hu, and_iff_left (versionUncounted_afterCall hu c)]
  constructor
  · rintro ⟨hready, hadded⟩
    have hr := h.first hready
    have hkept : ∀ (s : Store F) (c : Call F) (t : Store F), Calls s c t → s.VersionUncounted → True →
        t.VersionUncounted := by
      rintro s c t rfl hu -
      exact versionUncounted_afterCall hu c
    have hnever := @Run.invariant _ _ Calls VersionUncounted (fun _ _ => True) _ _ _ hkept h huncounted fun _ _ => trivial
    refine ⟨fun key hkey => (hadded key hkey).imp fun m hm => hm.1, versionFits_of_added hr hadded, ?_⟩
    exact (Run.invariant_iff hstep h ⟨hr, huncounted⟩).mp
      ⟨fun p hp => ⟨hready.1 p hp, hnever.1 p hp⟩, hready.2, hnever.2⟩
  · rintro ⟨hreadable, hfits, hleaves⟩
    obtain ⟨hr, hadded⟩ := ready_of_file hkeys hitems hinit hreadable hfits
    obtain ⟨hsteps, hlast⟩ := (Run.invariant_iff hstep h ⟨hr, huncounted⟩).mpr hleaves
    exact ⟨⟨fun p hp => (hsteps p hp).1, hlast.1⟩, hadded⟩

end File

namespace Store

/-! ### Versions of a counter -/

/-- The version as a value to put. -/
def versionText : PyObject halves := .text version

/-- The version is added once more, the metric counts, and the version is set. -/
def sameVersion : List (Call halves) :=
  [.addMetric (some versionName) (some versionText) none, .write (.incrMetric (some rateName) (some (.int 1))),
    .write (.setMetric (some versionName) (some versionText))]

theorem ready_iff_counter :
    Throughout (fun s => s.isReady = true) (stepsOf afterCall counter sameVersion) (sameVersion.foldl afterCall counter) ∧
    ∀ key ∈ (oneLine "rate".toList "5".toList).stringPropertyNames,
      ∃ m, MetricsPropertiesReader.getMetric (oneLine "rate".toList "5".toList) (getMetricNameFromPropertyKey key) =
        .ok m ∧ counter.Added m := by
  refine (ready_iff (List.Perm.refl _) (List.Perm.refl _) counter_initialised
    (Run.of_next calls_afterCall counter sameVersion)).mpr
    ⟨fun key hkey => ?_, fun key hkey hname => ?_, fun p hp => ?_⟩
  · rw [List.mem_singleton.mp hkey]
    exact ⟨_, rfl⟩
  · rw [List.mem_singleton.mp hkey] at hname
    exact absurd hname (by decide)
  · rcases List.mem_cons.mp hp with rfl | hp
    · intro _ v hv
      cases hv
      rfl
    · rcases List.mem_cons.mp hp with rfl | hp
      · trivial
      · rw [List.mem_singleton.mp hp]
        intro _ v hv _
        cases hv
        rfl

/-- A metric `VERSION` in the file disables the store, and so does one that is
added. -/
theorem version_replaced :
    ¬ (∀ (F : Floats) (props : Properties) (keySet : List Text) (items : List (Text × Metric)) (storename : Basestring)
        (s t : Store F) (steps : List (Store F × Call F)),
      keySet.Perm props.stringPropertyNames →
      items.Perm (MetricsPropertiesReader.getMetricsFromFile props keySet) →
      ({ storename } : Store F).initMetricStore (items.map (·.2)) = .ok s → Run Calls s steps t →
      Throughout (fun s => s.isReady = true) steps t ∧
        ∀ key ∈ props.stringPropertyNames,
          ∃ m, MetricsPropertiesReader.getMetric props (getMetricNameFromPropertyKey key) = .ok m ∧ s.Added m) ∧
    (counter.addMetric (some versionName) (some (.int 2)) none).2 = .ok (some true) ∧
    (counter.addMetric (some versionName) (some (.int 2)) none).1.isReady = false := by
  refine ⟨fun h => ?_, rfl, rfl⟩
  have hready := (h halves (oneLine "VERSION".toList "3".toList) ["VERSION".toList] _ (.unicode "plethora".toList) _ _ _
    (List.Perm.refl _) (List.Perm.refl _) rfl (.nil _)).1.2
  exact absurd hready (by decide)

end Store

end Plethoralib

end Plethora
