/-
# The registry over time

Metrics enter the registry through `MetricFactory`, out of a text or, when a
module discovers them, out of the empty text, and their values are replaced
by `setValue` and `setValueAsObject`, by null and by objects of any class.

A metric's type is read off the class of its first value and never again. The
factory makes the first value of the class the declared type stands for, so
in every registry that comes about this way the type of a metric is the one
it was declared with (`Typed`), whatever its value has become.

Key definitions: `MetricFactory.validValue`, `MetricFactory.getMetricOf`,
`Metrics.update`, `Metrics.Change`, `Metrics.registry`, `Metrics.Typed`.
Key theorems: `typed_apply`, `typed_registry`.
-/
import Plethora.Common.Metric
import Plethora.Common.Numerals

namespace Plethora

namespace MetricFactory

/-- `getValidText`. -/
def getValidText (value : Option Text) : Text := value.getD []

/-- `getValidNumber`. -/
def getValidNumber (value : Option Text) : Int64 := Util.getLong value 0

/-- `getValidBoolean`: only true or "1" qualifies as true. -/
def getValidBoolean (value : Option Text) : Bool :=
  value.any fun t => equalsIgnoreCase "true".toList t || equalsIgnoreCase "1".toList t

/-- The first value of a metric, by its type. -/
def validValue (type : MetricType) (textvalue : Option Text) : Option JavaObject :=
  match type with
  | .number => some (.long (getValidNumber textvalue))
  | .text => some (.string (getValidText textvalue))
  | .boolean => some (.boolean (getValidBoolean textvalue))
  | .unspecified => none
  | .invalid => none

/-- Out of the empty text it is the value a discovered metric starts with. -/
theorem validValue_empty : ∀ type, validValue type (some []) = initialValue type
  | .number | .text | .boolean | .unspecified | .invalid => rfl

theorem validValue_isSome : ∀ (type : MetricType) (textvalue : Option Text),
    (validValue type textvalue).isSome = (initialValue type).isSome
  | .number, _ | .text, _ | .boolean, _ | .unspecified, _ | .invalid, _ => rfl

/-- The first value is of the class the type stands for. -/
theorem resolveMetricType_validValue {type : MetricType} {textvalue : Option Text} {v : JavaObject}
    (h : validValue type textvalue = some v) : Metric.resolveMetricType (some v) = type := by
  cases type with
  | number | text | boolean =>
    cases h
    rfl
  | unspecified | invalid => cases h

/-- `getMetric(name, textvalue, properties)`. -/
def getMetricOf (name textvalue : Option Text) (properties : MetricProperties) : Option Metric :=
  match name with
  | none => none
  | some [] => none
  | some (c :: n) =>
    match h : validValue properties.type textvalue with
    | none => none
    | some v => some (Metric.init (c :: n) v properties (by rw [← validValue_isSome _ textvalue, h]; rfl))

/-- What the factory makes, if it makes anything. -/
theorem getMetricOf_made {name textvalue : Option Text} {p : MetricProperties} {m : Metric}
    (h : getMetricOf name textvalue p = some m) :
    ∃ n v made, name = some n ∧ n ≠ [] ∧ validValue p.type textvalue = some v ∧ m = Metric.init n v p made := by
  unfold getMetricOf at h
  split at h
  · cases h
  · cases h
  · rename_i c n
    split at h
    · cases h
    · rename_i v hv
      cases h
      exact ⟨c :: n, v, _, rfl, List.cons_ne_nil _ _, hv, rfl⟩

theorem getMetricOf_eq_some {name textvalue : Option Text} {p : MetricProperties} {m : Metric}
    (h : getMetricOf name textvalue p = some m) :
    ∃ v made, validValue p.type textvalue = some v ∧ m = Metric.init m.name v p made := by
  obtain ⟨n, v, made, -, -, hv, rfl⟩ := getMetricOf_made h
  exact ⟨v, made, hv, rfl⟩

theorem getMetricOf_name {name textvalue : Option Text} {p : MetricProperties} {m : Metric}
    (h : getMetricOf name textvalue p = some m) : name = some m.name := by
  obtain ⟨n, v, made, hname, -, -, rfl⟩ := getMetricOf_made h
  exact hname

theorem getMetricOf_name_ne_nil {name textvalue : Option Text} {p : MetricProperties} {m : Metric}
    (h : getMetricOf name textvalue p = some m) : m.name ≠ [] := by
  obtain ⟨n, v, made, -, hne, -, rfl⟩ := getMetricOf_made h
  exact hne

end MetricFactory

namespace Metrics

/-- The value of a registered metric is replaced. -/
def update (s : Metrics) (name : Text) (value : Option JavaObject) : Metrics :=
  match s.get name with
  | none => s
  | some m => s.put name (m.setValueAsObject value)

/-- `getValue(name)`. -/
def getValue (s : Metrics) (name : Text) : Option JavaObject := (s.get name).bind (·.value)

/-- `setValue(name, value)`: what it returns, and the registry after it. -/
def setValue (s : Metrics) (name : Text) (value : Option JavaObject) : Bool × Metrics :=
  match s.get name with
  | none => (false, s)
  | some m => (value.isSome, s.put name (m.setValueAsObject value))

@[simp] theorem setValue_snd (s : Metrics) (name : Text) (value : Option JavaObject) :
    (s.setValue name value).2 = s.update name value := by
  unfold setValue update
  cases s.get name <;> rfl

@[simp] theorem setValue_fst (s : Metrics) (name : Text) (value : Option JavaObject) :
    (s.setValue name value).1 = ((s.get name).isSome && value.isSome) := by
  unfold setValue
  cases s.get name <;> rfl

theorem update_eq {s : Metrics} {name : Text} {m : Metric} (h : s.get name = some m) (value : Option JavaObject) :
    s.update name value = s.put name (m.setValueAsObject value) := by
  simp only [update, h]

theorem update_of_missing {s : Metrics} {name : Text} (h : s.get name = none) (value : Option JavaObject) :
    s.update name value = s := by
  simp only [update, h]

theorem get_update_self (s : Metrics) (name : Text) (value : Option JavaObject) :
    (s.update name value).get name = (s.get name).map fun m => m.setValueAsObject value := by
  unfold update
  cases h : s.get name with
  | none => exact h
  | some m => exact get_put_self s name _

theorem get_update_ne (s : Metrics) {name other : Text} (value : Option JavaObject) (h : other ≠ name) :
    (s.update name value).get other = s.get other := by
  unfold update
  cases s.get name with
  | none => rfl
  | some m => exact get_put_ne s _ h

@[simp] theorem isSome_get_update (s : Metrics) (name other : Text) (value : Option JavaObject) :
    ((s.update name value).get other).isSome = (s.get other).isSome := by
  by_cases h : other = name
  · subst h
    rw [get_update_self, Option.isSome_map]
  · rw [get_update_ne s value h]

inductive Change
  | addMetric (name textvalue : Option Text) (properties : MetricProperties)
  | setValue (name : Text) (value : Option JavaObject)

def apply (s : Metrics) : Change → Metrics
  | .addMetric name textvalue properties => s.addMetric (MetricFactory.getMetricOf name textvalue properties)
  | .setValue name value => s.update name value

/-- The registry after these changes. -/
def registry (changes : List Change) : Metrics := changes.foldl apply {}

/-- Every metric is registered once, under its name, and is of the type it was
declared with. -/
structure Typed (s : Metrics) : Prop where
  keys : (s.metricsMap.map (·.1)).Nodup
  name : ∀ e ∈ s.metricsMap, e.2.name = e.1
  type : ∀ e ∈ s.metricsMap, e.2.metricType = e.2.properties.type

theorem typed_empty : Typed {} :=
  ⟨List.nodup_nil, fun _ he => absurd he List.not_mem_nil, fun _ he => absurd he List.not_mem_nil⟩

theorem typed_put {s : Metrics} {n : Text} {m : Metric} (h : s.Typed) (hn : m.name = n)
    (ht : m.metricType = m.properties.type) : (s.put n m).Typed := by
  have hsub : (s.metricsMap.filter (·.1 ≠ n)).Sublist s.metricsMap := List.filter_sublist
  refine ⟨?_, ?_, ?_⟩
  · rw [put, List.map_cons, List.nodup_cons]
    refine ⟨fun hm => ?_, h.keys.sublist (hsub.map _)⟩
    obtain ⟨e, he, rfl⟩ := List.mem_map.mp hm
    simpa using (List.mem_filter.mp he).2
  · intro e he
    rcases List.mem_cons.mp he with rfl | he
    · exact hn
    · exact h.name e (hsub.subset he)
  · intro e he
    rcases List.mem_cons.mp he with rfl | he
    · exact ht
    · exact h.type e (hsub.subset he)

theorem typed_addMetric {s : Metrics} (h : s.Typed) (name textvalue : Option Text) (p : MetricProperties) :
    (s.addMetric (MetricFactory.getMetricOf name textvalue p)).Typed := by
  unfold addMetric
  cases hm : MetricFactory.getMetricOf name textvalue p with
  | none => exact h
  | some m =>
    obtain ⟨v, made, hv, he⟩ := MetricFactory.getMetricOf_eq_some hm
    refine typed_put h rfl ?_
    rw [he]
    exact MetricFactory.resolveMetricType_validValue hv

theorem typed_update {s : Metrics} (h : s.Typed) (name : Text) (value : Option JavaObject) :
    (s.update name value).Typed := by
  unfold update
  cases hm : s.get name with
  | none => exact h
  | some m =>
    have hmem : (name, m) ∈ s.metricsMap := mem_of_lookup hm
    have hn : m.name = name := h.name _ hmem
    have ht : m.metricType = m.properties.type := h.type _ hmem
    exact typed_put h hn ht

theorem typed_apply {s : Metrics} (h : s.Typed) : ∀ change, (s.apply change).Typed
  | .addMetric name textvalue p => typed_addMetric h name textvalue p
  | .setValue name value => typed_update h name value

/-- What holds of the empty registry and is kept by every change holds of
every registry. -/
theorem registry_induction {P : Metrics → Prop} (h0 : P {}) (hs : ∀ s change, P s → P (s.apply change))
    (changes : List Change) : P (registry changes) := by
  have hfold : ∀ (l : List Change) (s : Metrics), P s → P (l.foldl apply s) := by
    intro l
    induction l with
    | nil => exact fun s h => h
    | cons change l ih => exact fun s h => ih _ (hs s change h)
  exact hfold changes {} h0

theorem typed_registry (changes : List Change) : (registry changes).Typed :=
  registry_induction typed_empty (fun _ change h => typed_apply h change) changes

/-- A metric has a name and has had a valid value. -/
def Valued (s : Metrics) : Prop := ∀ n m, s.get n = some m → n ≠ [] ∧ m.lastValidValue.isSome = true

/-- What holds of each metric under its name holds after one more is put. -/
theorem forall_get_put {P : Text → Metric → Prop} {s : Metrics} {n : Text} {m : Metric}
    (h : ∀ n' m', s.get n' = some m' → P n' m') (hm : P n m) : ∀ n' m', (s.put n m).get n' = some m' → P n' m' := by
  intro n' m' hget
  by_cases he : n' = n
  · subst he
    rw [get_put_self] at hget
    cases hget
    exact hm
  · rw [get_put_ne _ _ he] at hget
    exact h n' m' hget

theorem valued_put {s : Metrics} {n : Text} {m : Metric} (h : s.Valued) (hn : n ≠ [])
    (hv : m.lastValidValue.isSome = true) : (s.put n m).Valued := forall_get_put h ⟨hn, hv⟩

theorem valued_apply {s : Metrics} (h : s.Valued) : ∀ change, (s.apply change).Valued
  | .addMetric name textvalue p => by
    show (s.addMetric (MetricFactory.getMetricOf name textvalue p)).Valued
    unfold addMetric
    cases hm : MetricFactory.getMetricOf name textvalue p with
    | none => exact h
    | some m =>
      obtain ⟨v, made, -, he⟩ := MetricFactory.getMetricOf_eq_some hm
      refine valued_put h (MetricFactory.getMetricOf_name_ne_nil hm) ?_
      rw [he]
      rfl
  | .setValue name value => by
    show (s.update name value).Valued
    unfold update
    cases hm : s.get name with
    | none => exact h
    | some m =>
      obtain ⟨hn, hv⟩ := h name m hm
      refine valued_put h hn ?_
      cases value with
      | none => exact hv
      | some v => rfl

theorem valued_registry (changes : List Change) : (registry changes).Valued :=
  @registry_induction Valued (fun _ m hm => absurd hm (Option.some_ne_none m).symm)
    (fun _ change h => valued_apply h change) changes

/-! ### Values of the class of the type -/

/-- The class of the objects that a metric of the type holds. -/
def admits : MetricType → JavaObject → Bool
  | .number, .long _ => true
  | .text, .string _ => true
  | .boolean, .boolean _ => true
  | _, _ => false

/-- The factory's first value is of the class. -/
theorem admits_validValue {type : MetricType} {textvalue : Option Text} {v : JavaObject}
    (h : MetricFactory.validValue type textvalue = some v) : admits type v = true := by
  cases type with
  | number | text | boolean =>
    cases h
    rfl
  | unspecified | invalid => cases h

/-- Every value that is not null is of the class of its metric's type. -/
def Matching (s : Metrics) : Prop :=
  ∀ n m, s.get n = some m → ∀ v, m.value = some v → admits m.metricType v = true

theorem matching_empty : Matching {} := fun _ m hm => absurd hm (Option.some_ne_none m).symm

theorem matching_put {s : Metrics} (h : s.Matching) {n : Text} {m : Metric}
    (hm : ∀ v, m.value = some v → admits m.metricType v = true) : (s.put n m).Matching := forall_get_put h hm

/-- A metric the factory built holds its first value. -/
theorem value_of_getMetricOf {name textvalue : Option Text} {p : MetricProperties} {m : Metric}
    (h : MetricFactory.getMetricOf name textvalue p = some m) :
    ∃ v, m.value = some v ∧ admits m.metricType v = true := by
  obtain ⟨v, made, hv, he⟩ := MetricFactory.getMetricOf_eq_some h
  have htype : m.metricType = p.type := by
    rw [he]
    exact MetricFactory.resolveMetricType_validValue hv
  refine ⟨v, by rw [he]; rfl, ?_⟩
  rw [htype]
  exact admits_validValue hv

theorem matching_addMetric {s : Metrics} (h : s.Matching) (name textvalue : Option Text) (p : MetricProperties) :
    (s.addMetric (MetricFactory.getMetricOf name textvalue p)).Matching := by
  unfold addMetric
  cases hm : MetricFactory.getMetricOf name textvalue p with
  | none => exact h
  | some m =>
    obtain ⟨v, hv, hadmits⟩ := value_of_getMetricOf hm
    refine matching_put h fun w hw => ?_
    rw [hv] at hw
    cases hw
    exact hadmits

end Metrics

end Plethora
