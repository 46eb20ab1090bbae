/-
# The metrics a properties file defines

`PropertiesMetricsReader`: a key of the table is a metric's name, with its
first value, or the name with the suffix of an attribute. The loop takes the
keys in the order of the table's key set, adds the metric of the first key of
each name, and gives up on the first exception: a metric with neither a value
nor a type of its own is the null pointer exception of `Double.parseDouble`.

Each metric depends on the table alone, so the loop leaves the same registry
in every order of the keys, if it comes to its end: `processMetricsConfig_ok`.

Key definitions: `getMetricNameFromPropertyKey`, `PropertiesMetricsReader.getMetric`,
`PropertiesMetricsReader.processMetricsConfig`.
Key theorems: `PropertiesMetricsReader.processMetricsConfig_ok`,
`PropertiesMetricsReader.exists_processMetricsConfig`.
-/
import Plethora.Common.Configuration
import Plethora.Common.Registry
import Plethora.Lib.Pieces
import Plethora.Lib.Registering
import Plethora.Lib.Strip

namespace Plethora

/-! ### Attributes of a metric -/

/-- The words of `ATTRIBUTE`, in small letters. -/
def attributes : List Text := ["name".toList, "type".toList, "level".toList, "description".toList]

/-- A key that ends in the word of an attribute, in small letters or capitals,
is the name before it; any other key is a name. -/
def getMetricNameFromPropertyKey (key : Text) : Text :=
  if attributes.any fun attrib => ('.' :: attrib) <:+ key || ('.' :: attrib.map Char.toUpper) <:+ key then
    (key.rdropWhile (· ≠ '.')).dropLast
  else key

/-- How the keys with an attribute's word end. -/
def suffixes : List Text := attributes ++ attributes.map (·.map Char.toUpper)

theorem getMetricNameFromPropertyKey_cases (key : Text) :
    getMetricNameFromPropertyKey key = key ∨
      ∃ word ∈ suffixes, key = getMetricNameFromPropertyKey key ++ '.' :: word := by
  by_cases h : attributes.any (fun attrib => ('.' :: attrib) <:+ key || ('.' :: attrib.map Char.toUpper) <:+ key) = true
  · right
    have hword : ∃ word ∈ suffixes, ('.' :: word) <:+ key := by
      obtain ⟨attrib, ha, hs⟩ := List.any_eq_true.mp h
      rcases (Bool.or_eq_true _ _).mp hs with hs | hs
      · exact ⟨attrib, List.mem_append_left _ ha, of_decide_eq_true hs⟩
      · exact ⟨_, List.mem_append_right _ (List.mem_map_of_mem ha), of_decide_eq_true hs⟩
    obtain ⟨word, hw, name, rfl⟩ := hword
    have hdot : ∀ word ∈ suffixes, '.' ∉ word := by decide
    refine ⟨word, hw, ?_⟩
    have hrev : '.' ∉ word.reverse := fun hm => hdot word hw (List.mem_reverse.mp hm)
    have hname : (name ++ '.' :: word).rdropWhile (· ≠ '.') = name ++ ['.'] := by
      rw [List.rdropWhile, List.reverse_append, List.reverse_cons, List.append_assoc, List.singleton_append,
        Pieces.dropWhile_append_cons hrev, List.reverse_cons, List.reverse_reverse]
    rw [getMetricNameFromPropertyKey, if_pos h, hname, List.dropLast_concat]
  · exact Or.inl (if_neg h)

/-- What the table has for an attribute: the word in small letters goes before
the one in capitals. -/
def Properties.rawAttribute (props : Properties) (metric attrib : Text) : Option Text :=
  (props.getProperty (metric ++ '.' :: attrib)).orElse fun _ =>
    props.getProperty (metric ++ '.' :: attrib.map Char.toUpper)

/-! ### The reader -/

namespace PropertiesMetricsReader

def isMetricKey (sysPropertyPrefix : Option Text) (key : Text) : Bool :=
  if sysPropertyPrefix.getD [] = [] then true else !(sysPropertyPrefix.getD []).isPrefixOf key

def getAttribute (props : Properties) (metric attrib : Text) : Option Text :=
  (props.rawAttribute metric attrib).map Util.trimConfigStrings

def getLevel (thelevel : Option Text) : Level :=
  if thelevel.any (equalsIgnoreCase "public".toList) then .publicLevel
  else if thelevel.any (equalsIgnoreCase "limited".toList) then .limited
  else if thelevel.any (equalsIgnoreCase "internal".toList) then .internal
  else .publicLevel

def getType (thetype : Text) : MetricType :=
  if equalsIgnoreCase "text".toList thetype then .text
  else if equalsIgnoreCase "number".toList thetype then .number
  else if equalsIgnoreCase "boolean".toList thetype then .boolean
  else if equalsIgnoreCase "unspecified".toList thetype then .unspecified
  else .invalid

def valueType (textvalue : Option Text) : Except JavaError MetricType := do
  if ← Util.isNumeric textvalue then return .number
  else if Util.isBoolean textvalue then return .boolean
  else return .text

def getMetricProperties (metric : Text) (props : Properties) : MetricProperties :=
  { (({} : MetricProperties).setDisplayname (some ((getAttribute props metric "name".toList).getD metric))).setDescription
      (some ((getAttribute props metric "description".toList).getD [])) with
    level := getLevel (getAttribute props metric "level".toList) }

/-- The type that `addMetric` settles on. -/
def theType (type : MetricType) (textvalue : Option Text) : Except JavaError MetricType :=
  if type = .unspecified ∨ type = .invalid then valueType textvalue else .ok type

/-- The type of a metric that the table declares. -/
def declaredType (props : Properties) (metric : Text) : MetricType :=
  getType ((getAttribute props metric "type".toList).getD "UNSPECIFIED".toList)

/-- What `addMetric` adds for a name. -/
def getMetric (props : Properties) (metric : Text) : Except JavaError (Option Metric) := do
  let thetype ← theType (declaredType props metric) (props.getProperty metric)
  return MetricFactory.getMetricOf (some metric) (props.getProperty metric)
    { getMetricProperties metric props with type := thetype }

def addMetric (props : Properties) (metrics : Metrics) (metric : Text) : Except JavaError Metrics := do
  let added ← getMetric props metric
  return metrics.addMetric added

/-- `processMetricsConfig`, with the keys of the table in the order of its key
set. -/
def processMetricsConfig (props : Properties) (keySet : List Text) (sysPropertyPrefix : Option Text)
    (metrics : Metrics) : Except JavaError Metrics :=
  Registering.registerAll getMetricNameFromPropertyKey Metrics.get (fun _ => .ok ()) (addMetric props)
    (keySet.filter (isMetricKey sysPropertyPrefix)) metrics

/-! ### What it leaves -/

theorem registers (props : Properties) :
    Registering.Registers Metrics.get (getMetric props) (addMetric props) where
  failed metrics metric e h := by
    rw [addMetric, h]
    rfl
  added metrics metric b h := by
    refine ⟨metrics.addMetric b, by rw [addMetric, h]; rfl, fun n => ?_⟩
    cases b with
    | none =>
      by_cases hn : n = metric
      · subst hn
        rw [if_pos rfl]
        rfl
      · rw [if_neg hn]
        rfl
    | some m =>
      have hname : m.name = metric := by
        obtain ⟨t, -, ht⟩ := bind_eq_ok.mp h
        exact (Option.some.inj (MetricFactory.getMetricOf_name (Except.ok.inj ht))).symm
      by_cases hn : n = metric
      · rw [if_pos hn, hn, ← hname]
        exact Metrics.get_put_self metrics m.name m
      · rw [if_neg hn]
        exact Metrics.get_put_ne metrics m (by rw [hname]; exact hn)

variable {props : Properties} {keySet : List Text} {sysPropertyPrefix : Option Text}

/-- From an empty registry, the loop leaves each name the metric that the
table defines for it. -/
theorem processMetricsConfig_ok {metrics : Metrics}
    (h : processMetricsConfig props keySet sysPropertyPrefix {} = .ok metrics)
    (hk : ∀ key ∈ keySet, isMetricKey sysPropertyPrefix key = true) :
    (∀ key ∈ keySet, ∃ m, getMetric props (getMetricNameFromPropertyKey key) = .ok m) ∧
    ∀ n, metrics.get n =
      if n ∈ keySet.map getMetricNameFromPropertyKey then Registering.built (getMetric props) n else none := by
  have hall : keySet.filter (isMetricKey sysPropertyPrefix) = keySet := List.filter_eq_self.mpr hk
  unfold processMetricsConfig at h
  rw [hall] at h
  obtain ⟨hbuilt, hget⟩ := Registering.registerAll_new (registers props) (fun _ => rfl) h
  refine ⟨hbuilt, fun n => ?_⟩
  rw [hget n]
  congr

theorem exists_processMetricsConfig (hk : ∀ key ∈ keySet, isMetricKey sysPropertyPrefix key = true)
    (h : ∀ key ∈ keySet, ∃ m, getMetric props (getMetricNameFromPropertyKey key) = .ok m) :
    ∃ metrics, processMetricsConfig props keySet sysPropertyPrefix {} = .ok metrics := by
  have hall : keySet.filter (isMetricKey sysPropertyPrefix) = keySet := List.filter_eq_self.mpr hk
  unfold processMetricsConfig
  rw [hall]
  exact Registering.exists_registerAll (registers props) keySet {} (fun _ _ => rfl) fun key hkey => Or.inr (h key hkey)

end PropertiesMetricsReader

end Plethora
