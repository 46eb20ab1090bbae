/-
# What a metrics file leaves in the registry

`PropertiesMetricsReader` from any registry, with the keys of the table in any
order. A name is built from what the table has for it alone, so two orders that
both come to their end leave the same registry: `processMetricsConfig_any_order`.

Whether it comes to its end does not depend on the order either. A name needs a
type, of its own or derived from its value; one that has neither is the null
pointer exception of `Double.parseDouble`: `processMetricsConfig_complete_iff`.

Key definitions: `known`, `shows`, `PropertiesMetricsReader.Described`,
`PropertiesMetricsReader.Typed`.
Key theorems: `theType_ok`, `processMetricsConfig_any_order`,
`processMetricsConfig_complete_iff`.
-/
import Plethora.Channel.PropertiesMetricsReader

namespace Plethora

/-! ### The type of a metric -/

/-- A type that a metric can have. -/
def known : MetricType → Option MetricType
  | .unspecified => none
  | .invalid => none
  | t => some t

/-- The type Java derives from a value. -/
def shows (x : Text) : MetricType :=
  if Double.parses x then .number else if Util.isBoolean (some x) then .boolean else .text

theorem known_eq_none {t : MetricType} : known t = none ↔ t = .unspecified ∨ t = .invalid := by
  cases t <;> simp [known]

theorem known_eq_some {t t' : MetricType} (h : known t = some t') : t = t' := by
  cases t <;> simp_all [known]

theorem not_of_known {d t : MetricType} (h : known d = some t) : ¬ (d = .unspecified ∨ d = .invalid) := by
  rw [← known_eq_none, h]
  nofun

/-- A type that a metric can have, and no other one. -/
def Proper (t : MetricType) : Prop := t = .text ∨ t = .number ∨ t = .boolean

theorem proper_of_known {t t' : MetricType} (h : known t = some t') : Proper t' := by
  cases t <;> simp_all [known, Proper, eq_comm]

theorem proper_shows (x : Text) : Proper (shows x) := by
  unfold shows Proper
  split
  · simp
  · split <;> simp

theorem valueType_some (x : Text) : PropertiesMetricsReader.valueType (some x) = .ok (shows x) := by
  have hn : Util.isNumeric (some x) = .ok (Double.parses x) := rfl
  unfold PropertiesMetricsReader.valueType shows
  rw [hn]
  cases Double.parses x <;> cases Util.isBoolean (some x) <;> rfl

/-- The type that Java settles on. -/
theorem theType_ok {d t : MetricType} {v : Option Text} : PropertiesMetricsReader.theType d v = .ok t ↔
    known d = some t ∨ known d = none ∧ ∃ x, v = some x ∧ shows x = t := by
  unfold PropertiesMetricsReader.theType
  cases hk : known d with
  | some t' =>
    rw [if_neg (not_of_known hk), known_eq_some hk]
    simp
  | none =>
    rw [if_pos (known_eq_none.mp hk)]
    cases v with
    | none => exact iff_of_false nofun (by simp)
    | some x =>
      rw [valueType_some]
      simp

theorem proper_of_theType {d t : MetricType} {v : Option Text} (h : PropertiesMetricsReader.theType d v = .ok t) :
    Proper t := by
  rcases theType_ok.mp h with h | ⟨-, x, -, rfl⟩
  · exact proper_of_known h
  · exact proper_shows x

namespace PropertiesMetricsReader

/-! ### The metric of a name -/

/-- The metric that the table describes under a name. -/
structure Described (props : Properties) (n : Text) (m : Metric) : Prop where
  name : m.name = n
  type : theType (declaredType props n) (props.getProperty n) = .ok m.metricType
  declared : m.properties.type = m.metricType
  initialValue : m.initialValue = MetricFactory.validValue m.metricType (props.getProperty n)
  value : m.value = m.initialValue
  level : m.properties.level = getLevel (getAttribute props n "level".toList)
  displayname : m.properties.displayname = (getAttribute props n "name".toList).getD n
  description : m.properties.description = (getAttribute props n "description".toList).getD []

/-- A name of which the table has the type, or a value to derive it from. -/
def Typed (props : Properties) (name : Text) : Prop :=
  (known (declaredType props name)).isSome = true ∨ (props.getProperty name).isSome = true

instance (props : Properties) (name : Text) : Decidable (Typed props name) :=
  inferInstanceAs (Decidable (_ ∨ _))

variable {props : Properties} {name : Text}

theorem getMetric_described {m : Metric} (h : getMetric props name = .ok (some m)) : Described props name m := by
  obtain ⟨t, ht, hm⟩ := bind_eq_ok.mp h
  obtain ⟨n, v, made, hn, -, hv, rfl⟩ := MetricFactory.getMetricOf_made (Except.ok.inj hm)
  obtain rfl := Option.some.inj hn
  have htype : (Metric.init name v { getMetricProperties name props with type := t } made).metricType = t :=
    MetricFactory.resolveMetricType_validValue hv
  refine ⟨rfl, ?_, ?_, ?_, rfl, rfl, rfl, rfl⟩
  · rw [htype]
    exact ht
  · rw [htype]
    rfl
  · rw [htype]
    exact hv.symm

theorem exists_theType_iff {d : MetricType} {v : Option Text} :
    (∃ t, theType d v = .ok t) ↔ (known d).isSome = true ∨ v.isSome = true := by
  simp only [theType_ok, Option.isSome_iff_exists]
  constructor
  · rintro ⟨t, h | ⟨-, x, hx, -⟩⟩
    · exact Or.inl ⟨t, h⟩
    · exact Or.inr ⟨x, hx⟩
  · intro h
    cases hk : known d with
    | some t => exact ⟨t, Or.inl rfl⟩
    | none =>
      obtain ⟨x, hx⟩ := h.resolve_left fun ⟨t, ht⟩ => by rw [hk] at ht; cases ht
      exact ⟨shows x, Or.inr ⟨rfl, x, hx, rfl⟩⟩

/-- A metric can be built exactly if its name is typed. -/
theorem exists_getMetric_iff : (∃ b, getMetric props name = .ok b) ↔ Typed props name := by
  rw [Typed, ← exists_theType_iff]
  constructor
  · rintro ⟨b, hb⟩
    obtain ⟨t, ht, -⟩ := bind_eq_ok.mp hb
    exact ⟨t, ht⟩
  · rintro ⟨t, ht⟩
    exact ⟨_, bind_eq_ok.mpr ⟨t, ht, rfl⟩⟩

/-- What is built for a name that is not empty is a metric. -/
theorem isSome_of_getMetric {b : Option Metric} (hn : name ≠ []) (h : getMetric props name = .ok b) :
    b.isSome = true := by
  obtain ⟨t, ht, hb⟩ := bind_eq_ok.mp h
  rw [← Except.ok.inj hb]
  cases name with
  | nil => exact absurd rfl hn
  | cons c n => rcases proper_of_theType ht with rfl | rfl | rfl <;> rfl

/-! ### The registry after all keys -/

variable {keySet : List Text} {sysPropertyPrefix : Option Text} {initial metrics : Metrics}

theorem mem_names_iff {n : Text} :
    n ∈ (keySet.filter (isMetricKey sysPropertyPrefix)).map getMetricNameFromPropertyKey ↔
      ∃ key ∈ keySet, isMetricKey sysPropertyPrefix key = true ∧ getMetricNameFromPropertyKey key = n := by
  rw [List.mem_map]
  constructor
  · rintro ⟨key, hk, hn⟩
    exact ⟨key, (List.mem_filter.mp hk).1, (List.mem_filter.mp hk).2, hn⟩
  · rintro ⟨key, hk, hp, hn⟩
    exact ⟨key, List.mem_filter.mpr ⟨hk, hp⟩, hn⟩

/-- What was registered stays, and the names of keys join, each with the
metric built for it. -/
theorem get_processMetricsConfig (h : processMetricsConfig props keySet sysPropertyPrefix initial = .ok metrics)
    (n : Text) : metrics.get n = (initial.get n).orElse fun _ =>
      if n ∈ (keySet.filter (isMetricKey sysPropertyPrefix)).map getMetricNameFromPropertyKey then
        Registering.built (getMetric props) n else none := by
  rw [(Registering.registerAll_ok (registers props) h).2 n]
  congr 1
  funext _
  congr

/-- **The order of the keys does not matter.** -/
theorem processMetricsConfig_any_order {keySet' : List Text} {metrics' : Metrics}
    (hk : keySet.Perm props.stringPropertyNames) (hk' : keySet'.Perm props.stringPropertyNames)
    (h : processMetricsConfig props keySet sysPropertyPrefix initial = .ok metrics)
    (h' : processMetricsConfig props keySet' sysPropertyPrefix initial = .ok metrics') :
    (∀ n, metrics.get n = metrics'.get n) ∧
    (∀ n m, initial.get n = some m → metrics.get n = some m) ∧
    ∀ n m, initial.get n = none → metrics.get n = some m → Described props n m ∧
      ∃ key ∈ props.stringPropertyNames, isMetricKey sysPropertyPrefix key = true ∧
        getMetricNameFromPropertyKey key = n := by
  refine ⟨fun n => ?_, fun n m hm => ?_, fun n m hnone hm => ?_⟩
  · have hnames : ∀ n, n ∈ (keySet.filter (isMetricKey sysPropertyPrefix)).map getMetricNameFromPropertyKey ↔
        n ∈ (keySet'.filter (isMetricKey sysPropertyPrefix)).map getMetricNameFromPropertyKey := fun n =>
      (((hk.trans hk'.symm).filter _).map _).mem_iff
    rw [get_processMetricsConfig h n, get_processMetricsConfig h' n]
    simp only [hnames]
  · rw [get_processMetricsConfig h n, hm]
    rfl
  · rw [get_processMetricsConfig h n, hnone] at hm
    have hif : (if n ∈ (keySet.filter (isMetricKey sysPropertyPrefix)).map getMetricNameFromPropertyKey then
      Registering.built (getMetric props) n else none) = some m := hm
    obtain ⟨hn, hb⟩ := Option.ite_none_right_eq_some.mp hif
    obtain ⟨key, hkey, hpre, hname⟩ := mem_names_iff.mp hn
    refine ⟨getMetric_described ?_, key, hk.mem_iff.mp hkey, hpre, hname⟩
    exact Registering.build_of_built hb

/-- A metric with a value and an attribute, and a key of the client's own. -/
def rateFile : Properties where
  entries := [("rate".toList, "5".toList), ("rate.level".toList, "limited".toList), ("plethora.port".toList, "9000".toList)]
  nodup := by decide

/-- The attribute first, and last. -/
theorem processMetricsConfig_any_order_rate :
    ((processMetricsConfig rateFile rateFile.stringPropertyNames (some "plethora.".toList) {}).toOption.map
      fun metrics => metrics.get "rate".toList) =
    (processMetricsConfig rateFile rateFile.stringPropertyNames.reverse (some "plethora.".toList) {}).toOption.map
      fun metrics => metrics.get "rate".toList := by
  cases h : processMetricsConfig rateFile rateFile.stringPropertyNames (some "plethora.".toList) {} with
  | error e => exact absurd h (by cases e <;> decide)
  | ok metrics =>
    cases h' : processMetricsConfig rateFile rateFile.stringPropertyNames.reverse (some "plethora.".toList) {} with
    | error e => exact absurd h' (by cases e <;> decide)
    | ok metrics' =>
      have hsame := (processMetricsConfig_any_order (List.Perm.refl _) (List.reverse_perm _) h h').1
      exact congrArg some (hsame "rate".toList)

/-- **Every name is registered exactly if every new one is typed.** -/
theorem processMetricsConfig_complete_iff (hk : keySet.Perm props.stringPropertyNames) :
    (∃ metrics, processMetricsConfig props keySet sysPropertyPrefix initial = .ok metrics ∧
      ∀ key ∈ props.stringPropertyNames, isMetricKey sysPropertyPrefix key = true →
        getMetricNameFromPropertyKey key ≠ [] → (metrics.get (getMetricNameFromPropertyKey key)).isSome = true) ↔
    ∀ key ∈ props.stringPropertyNames, isMetricKey sysPropertyPrefix key = true →
      (initial.get (getMetricNameFromPropertyKey key)).isSome = true ∨
        Typed props (getMetricNameFromPropertyKey key) := by
  constructor
  · rintro ⟨metrics, h, -⟩ key hkey hpre
    have hkey' := List.mem_filter.mpr ⟨hk.mem_iff.mpr hkey, hpre⟩
    exact ((Registering.registerAll_ok (registers props) h).1 key hkey').imp_right exists_getMetric_iff.mp
  · intro hall
    have hbuild : ∀ key ∈ keySet.filter (isMetricKey sysPropertyPrefix),
        (initial.get (getMetricNameFromPropertyKey key)).isSome = true ∨
          ∃ b, getMetric props (getMetricNameFromPropertyKey key) = .ok b := fun key hkey => by
      obtain ⟨hmem, hpre⟩ := List.mem_filter.mp hkey
      exact (hall key (hk.mem_iff.mp hmem) hpre).imp_right exists_getMetric_iff.mpr
    obtain ⟨metrics, h⟩ := Registering.exists_registerAll (registers props) _ initial (fun _ _ => rfl) hbuild
    refine ⟨metrics, h, fun key hkey hpre hne => ?_⟩
    have hkey' := List.mem_filter.mpr ⟨hk.mem_iff.mpr hkey, hpre⟩
    rw [get_processMetricsConfig h]
    rcases hbuild key hkey' with hold | ⟨b, hb⟩
    · obtain ⟨m, hm⟩ := Option.isSome_iff_exists.mp hold
      rw [hm]
      rfl
    · have hbuilt : Registering.built (getMetric props) (getMetricNameFromPropertyKey key) = b := by
        rw [Registering.built, hb]
      rw [if_pos (List.mem_map_of_mem hkey'), hbuilt]
      cases hold : initial.get (getMetricNameFromPropertyKey key) with
      | some m => rfl
      | none => exact isSome_of_getMetric hne hb

theorem processMetricsConfig_complete_rate :
    ∃ metrics, processMetricsConfig rateFile rateFile.stringPropertyNames (some "plethora.".toList) {} = .ok metrics ∧
      ∀ key ∈ rateFile.stringPropertyNames, isMetricKey (some "plethora.".toList) key = true →
        getMetricNameFromPropertyKey key ≠ [] → (metrics.get (getMetricNameFromPropertyKey key)).isSome = true :=
  (processMetricsConfig_complete_iff (List.Perm.refl _)).mpr (by decide)

/-- A metric of which the file has a description, and neither a type nor a
value. -/
def describedFile : Properties where
  entries := [("rate".toList, "5".toList), ("load.description".toList, "requests".toList)]
  nodup := by decide

/-- The start of the client ends with the null pointer exception. -/
theorem processMetricsConfig_described :
    processMetricsConfig describedFile describedFile.stringPropertyNames (some "plethora.".toList) {} =
      .error .nullPointer ∧
    ¬ ∃ metrics, processMetricsConfig describedFile describedFile.stringPropertyNames (some "plethora.".toList) {} =
      .ok metrics ∧
      ∀ key ∈ describedFile.stringPropertyNames, isMetricKey (some "plethora.".toList) key = true →
        getMetricNameFromPropertyKey key ≠ [] → (metrics.get (getMetricNameFromPropertyKey key)).isSome = true := by
  have h : processMetricsConfig describedFile describedFile.stringPropertyNames (some "plethora.".toList) {} =
      .error .nullPointer := by decide
  refine ⟨h, ?_⟩
  rintro ⟨metrics, hrun, -⟩
  rw [h] at hrun
  cases hrun

end PropertiesMetricsReader

end Plethora
