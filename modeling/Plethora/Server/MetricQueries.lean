/-
# Metrics by type

`MetricService.getMetrics` and `getMetricList`, which the web console asks
for the metrics of one type: the values by name, and the names. The two treat
a missing type word and an unknown one each in its own way, and both compare
with the type a metric has in the registry.

However the registry came about, a metric's type is one of the three that have
a word, so the words divide the registry among them: `types_partition`.

Key definitions: `MetricService.getType`, `MetricService.getMetrics`,
`MetricService.getMetricListOf`, `keySet`.
Key theorems: `mem_keySet_getMetrics`, `mem_getMetricListOf`, `types_partition`.
-/
import Plethora.Common.Registry
import Plethora.Server.MetricService

namespace Plethora

/-- The keys of a map. -/
def keySet {α : Type} (map : List (Text × α)) : List Text := map.map (·.1)

namespace MetricService

variable (service : MetricService)

/-- `initTypeMap`. -/
def typeMap : List (Text × MetricType) :=
  [("number".toList, .number), ("text".toList, .text), ("boolean".toList, .boolean)]

def getType (param : Text) : MetricType := (typeMap.lookup param).getD .invalid

/-- The loop of `getMetrics`, for a type or for all. -/
def collect (metricType : Option MetricType) :
    List (Text × Metric) → List (Text × Option JavaObject) → Except JavaError (List (Text × Option JavaObject))
  | [], result => .ok result
  | (_, metric) :: items, result =>
    if metricType = none ∨ metricType = some metric.metricType then do
      let value ← service.metricValue (some metric)
      collect metricType items (put metric.name value result)
    else collect metricType items result

def getMetrics (type : Option Text) : Except JavaError (List (Text × Option JavaObject)) :=
  let metricType := if type.getD [] = [] then none else some (getType (type.getD []))
  -- fail early for non null non empty input but are invalid type value
  if metricType = some .invalid then .ok []
  else service.collect metricType service.metrics.metricsMap []

/-- `getMetricList()`. -/
def getMetricList : List Text := keySet service.metrics.metricsMap

/-- `getMetricList(type)`. -/
def getMetricListOf (type : Option Text) : List Text :=
  match type with
  | none => []
  | some type => (service.metrics.metricsMap.filter fun item => item.2.metricType = getType type).map (·.2.name)

/-! ### What each query finds -/

theorem mem_collect {metricType : Option MetricType} {n : Text} : ∀ {items : List (Text × Metric)}
    {result r : List (Text × Option JavaObject)}, service.collect metricType items result = .ok r →
    (n ∈ keySet r ↔ n ∈ keySet result ∨
      ∃ item ∈ items, item.2.name = n ∧ (metricType = none ∨ metricType = some item.2.metricType))
  | [], result, r, h => by
    cases h
    simp
  | (k, metric) :: items, result, r, h => by
    unfold collect at h
    by_cases ht : metricType = none ∨ metricType = some metric.metricType
    · rw [if_pos ht] at h
      obtain ⟨value, -, h⟩ := bind_eq_ok.mp h
      rw [mem_collect h, keySet, mem_keys_put]
      constructor
      · rintro ((rfl | hm) | ⟨item, hm, hi⟩)
        · exact Or.inr ⟨_, List.mem_cons_self, rfl, ht⟩
        · exact Or.inl hm
        · exact Or.inr ⟨item, List.mem_cons_of_mem _ hm, hi⟩
      · rintro (hm | ⟨item, hm, hn, hi⟩)
        · exact Or.inl (Or.inr hm)
        · rcases List.mem_cons.mp hm with rfl | hm
          · exact Or.inl (Or.inl hn.symm)
          · exact Or.inr ⟨item, hm, hn, hi⟩
    · rw [if_neg ht] at h
      rw [mem_collect h]
      apply or_congr_right
      constructor
      · rintro ⟨item, hm, hi⟩
        exact ⟨item, List.mem_cons_of_mem _ hm, hi⟩
      · rintro ⟨item, hm, hn, hi⟩
        rcases List.mem_cons.mp hm with rfl | hm
        · exact absurd hi ht
        · exact ⟨item, hm, hn, hi⟩

/-- Without live reads the loop always comes to its end. -/
theorem exists_collect (h : service.immediateAccess = false) (metricType : Option MetricType) :
    ∀ (items : List (Text × Metric)) (result : List (Text × Option JavaObject)),
      ∃ r, service.collect metricType items result = .ok r
  | [], result => ⟨result, rfl⟩
  | (k, metric) :: items, result => by
    have hv : service.metricValue (some metric) = .ok metric.value := by
      simp [metricValue, h]
    unfold collect
    by_cases ht : metricType = none ∨ metricType = some metric.metricType
    · rw [if_pos ht, hv]
      exact exists_collect h metricType items _
    · rw [if_neg ht]
      exact exists_collect h metricType items result

theorem exists_getMetrics (h : service.immediateAccess = false) (type : Option Text) :
    ∃ r, service.getMetrics type = .ok r := by
  unfold getMetrics
  generalize (if type.getD [] = [] then none else some (getType (type.getD []))) = metricType
  by_cases hm : metricType = some .invalid
  · exact ⟨[], if_pos hm⟩
  · simp only [if_neg hm]
    exact service.exists_collect h metricType _ []

theorem getType_eq_invalid {type : Text} : getType type = .invalid ↔ type ∉ keySet typeMap := by
  unfold getType
  cases h : typeMap.lookup type with
  | none =>
    have hn : ¬ (typeMap.lookup type).isSome = true := by simp [h]
    exact iff_of_true rfl fun hm => hn (mem_keys_iff.mp hm)
  | some t =>
    have hs : (typeMap.lookup type).isSome = true := by simp [h]
    have ht : t ≠ .invalid := by
      have hmem : (type, t) ∈ typeMap := mem_of_lookup h
      simp only [typeMap, List.mem_cons, Prod.mk.injEq, List.not_mem_nil, or_false] at hmem
      rcases hmem with ⟨-, rfl⟩ | ⟨-, rfl⟩ | ⟨-, rfl⟩ <;> simp
    exact iff_of_false ht fun hm => hm (mem_keys_iff.mpr hs)

theorem mem_getMetricListOf {type n : Text} : n ∈ service.getMetricListOf (some type) ↔
    ∃ item ∈ service.metrics.metricsMap, item.2.name = n ∧ item.2.metricType = getType type := by
  simp only [getMetricListOf, List.mem_map, List.mem_filter, decide_eq_true_eq]
  constructor
  · rintro ⟨item, ⟨hm, ht⟩, hn⟩
    exact ⟨item, hm, hn, ht⟩
  · rintro ⟨item, hm, hn, ht⟩
    exact ⟨item, ⟨hm, ht⟩, hn⟩

/-- For a word of a type the two queries name the same metrics. -/
theorem mem_keySet_getMetrics {type n : Text} {r : List (Text × Option JavaObject)} (ht : type ∈ keySet typeMap)
    (h : service.getMetrics (some type) = .ok r) : n ∈ keySet r ↔ n ∈ service.getMetricListOf (some type) := by
  have hne : type ≠ [] := by
    rintro rfl
    exact absurd ht (by decide)
  have hi : getType type ≠ .invalid := fun h => getType_eq_invalid.mp h ht
  have hc : service.collect (some (getType type)) service.metrics.metricsMap [] = .ok r := by
    simpa [getMetrics, hne, hi] using h
  rw [mem_collect service hc, mem_getMetricListOf]
  simp only [keySet, List.map_nil, List.not_mem_nil, false_or, reduceCtorEq, Option.some.injEq, eq_comm]

/-! ### The partition -/

/-- The service over the registry after these changes. -/
def serving (changes : List Metrics.Change) : MetricService := { service with metrics := Metrics.registry changes }

variable {changes : List Metrics.Change}

/-- A registered metric's type has a word. -/
theorem exists_word {item : Text × Metric} (h : item ∈ (service.serving changes).metrics.metricsMap) :
    ∃ type ∈ keySet typeMap, getType type = item.2.metricType := by
  have ht : item.2.metricType = item.2.properties.type := (Metrics.typed_registry changes).type item h
  have hmade := item.2.made
  rw [ht]
  cases hp : item.2.properties.type with
  | number => exact ⟨"number".toList, by decide, rfl⟩
  | text => exact ⟨"text".toList, by decide, rfl⟩
  | boolean => exact ⟨"boolean".toList, by decide, rfl⟩
  | unspecified =>
    rw [hp] at hmade
    cases hmade
  | invalid =>
    rw [hp] at hmade
    cases hmade

theorem mem_getMetricList {n : Text} : n ∈ (service.serving changes).getMetricList ↔
    ∃ type ∈ keySet typeMap, n ∈ (service.serving changes).getMetricListOf (some type) := by
  have hname := (Metrics.typed_registry changes).name
  constructor
  · intro h
    obtain ⟨item, hm, rfl⟩ := List.mem_map.mp h
    obtain ⟨type, hw, ht⟩ := service.exists_word hm
    exact ⟨type, hw, ((service.serving changes).mem_getMetricListOf).mpr ⟨item, hm, hname item hm, ht.symm⟩⟩
  · rintro ⟨type, -, h⟩
    obtain ⟨item, hm, rfl, -⟩ := ((service.serving changes).mem_getMetricListOf).mp h
    exact List.mem_map.mpr ⟨item, hm, (hname item hm).symm⟩

/-- Two types with a metric in common are the same. -/
theorem type_unique {type type' n : Text} (h : n ∈ (service.serving changes).getMetricListOf (some type))
    (h' : n ∈ (service.serving changes).getMetricListOf (some type')) : getType type = getType type' := by
  have htyped := Metrics.typed_registry changes
  obtain ⟨item, hm, hn, ht⟩ := ((service.serving changes).mem_getMetricListOf).mp h
  obtain ⟨item', hm', hn', ht'⟩ := ((service.serving changes).mem_getMetricListOf).mp h'
  have hkey : item.1 = item'.1 := by
    rw [← htyped.name item hm, ← htyped.name item' hm', hn, hn']
  have hsame : item = item' := List.inj_on_of_nodup_map htyped.keys hm hm' hkey
  rw [← ht, ← ht', hsame]

theorem getType_injective {type type' : Text} (ht : type ∈ keySet typeMap) (ht' : type' ∈ keySet typeMap)
    (h : getType type = getType type') : type = type' := by
  simp only [keySet, typeMap, List.map_cons, List.map_nil, List.mem_cons, List.not_mem_nil, or_false] at ht ht'
  rcases ht with rfl | rfl | rfl <;> rcases ht' with rfl | rfl | rfl <;> first | rfl | cases h

/-- **Each metric is shown under exactly one type.** For each of the type
words both queries give the same names, no two words have a name in common,
together they have all names; for any other word both give nothing. -/
theorem types_partition (changes : List Metrics.Change) :
    (∀ type ∈ keySet typeMap, ∀ r, (service.serving changes).getMetrics (some type) = .ok r →
      ∀ n, n ∈ keySet r ↔ n ∈ (service.serving changes).getMetricListOf (some type)) ∧
    (service.immediateAccess = false → ∀ type, ∃ r, (service.serving changes).getMetrics (some type) = .ok r) ∧
    (∀ type ∈ keySet typeMap, ∀ type' ∈ keySet typeMap, type ≠ type' →
      ∀ n, n ∈ (service.serving changes).getMetricListOf (some type) →
        n ∉ (service.serving changes).getMetricListOf (some type')) ∧
    (∀ n, n ∈ (service.serving changes).getMetricList ↔
      ∃ type ∈ keySet typeMap, n ∈ (service.serving changes).getMetricListOf (some type)) ∧
    ∀ type, type ≠ [] → type ∉ keySet typeMap →
      (service.serving changes).getMetrics (some type) = .ok [] ∧
        (service.serving changes).getMetricListOf (some type) = [] := by
  refine ⟨fun type ht r h n => mem_keySet_getMetrics _ ht h,
    fun hp type => (service.serving changes).exists_getMetrics hp (some type), ?_,
    fun n => service.mem_getMetricList, fun type hne ht => ?_⟩
  · intro type ht type' ht' hne n h h'
    exact hne (getType_injective ht ht' (service.type_unique h h'))
  · have hi : getType type = .invalid := getType_eq_invalid.mpr ht
    constructor
    · simp [getMetrics, hne, hi]
    · -- no metric is of the type that unknown words stand for
      rw [List.eq_nil_iff_forall_not_mem]
      intro n h
      obtain ⟨item, hm, -, he⟩ := ((service.serving changes).mem_getMetricListOf).mp h
      obtain ⟨word, hw, hword⟩ := service.exists_word hm
      have hinv : getType word = .invalid := hword.trans (he.trans hi)
      exact getType_eq_invalid.mp hinv hw

end MetricService

end Plethora
