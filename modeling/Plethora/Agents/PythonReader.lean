/-
# The metrics a properties file defines, read in Python

`MetricsPropertiesReader` of plethoralib, which mirrors the Java
`PropertiesMetricsReader`. The table it reads holds unicode strings, and its
log messages and its tests for numbers and truth values take `str` of them, so
a character outside of ASCII in the wrong place ends the loop with a
`UnicodeEncodeError`, and a number that is no whole one ends it with the
`ValueError` of `long`.

Key definitions: `Plethoralib.isNumber`, `Plethoralib.isBoolean`,
`Plethoralib.MetricsPropertiesReader.processMetricsConfig`.
Key theorems: `Plethoralib.MetricsPropertiesReader.processMetricsConfig_ok`,
`Plethoralib.MetricsPropertiesReader.exists_processMetricsConfig`.
-/
import Plethora.Channel.PropertiesMetricsReader

namespace Plethora

namespace Plethoralib

open Strip

/-! ### Texts -/

/-- The exceptions that reading metrics can raise. -/
inductive PythonError
  | unicodeEncode
  | value
  deriving DecidableEq

/-- `isspace` of `str`. -/
def isAsciiSpace (c : Char) : Bool := c = ' ' || (9 ≤ c.toNat && c.toNat ≤ 13)

/-- `isspace` of `unicode`. -/
def isSpace (c : Char) : Bool :=
  isAsciiSpace c || (0x1C ≤ c.toNat && c.toNat ≤ 0x1F) || (0x2000 ≤ c.toNat && c.toNat ≤ 0x200A) ||
    [0x85, 0xA0, 0x1680, 0x180E, 0x2028, 0x2029, 0x202F, 0x205F, 0x3000].contains c.toNat

def lowerChar (c : Char) : Char :=
  if c.toNat = 0x130 then 'i' -- the dotted capital
  else if c.toNat = 0x212A then 'k' -- the Kelvin sign
  else c.toLower

/-- `lower()`, for a comparison with ASCII words. -/
def lower (t : Text) : Text := t.map lowerChar

/-- `upper()`, for a comparison with ASCII words. -/
def upper (t : Text) : Text :=
  t.map fun c =>
    if c.toNat = 0x131 then 'I' -- the dotless small one
    else if c.toNat = 0x17F then 'S' -- the long s
    else c.toUpper

def Ascii (t : Text) : Prop := ∀ c ∈ t, c.toNat < 128

instance (t : Text) : Decidable (Ascii t) := inferInstanceAs (Decidable (∀ c ∈ t, c.toNat < 128))

/-- `str(t)`. -/
def str (t : Text) : Except PythonError Text := if Ascii t then .ok t else .error .unicodeEncode

/-- Whether `float(s)` reads a `str`. -/
def float (s : Text) : Bool :=
  let body := FloatText.unsigned (strip isAsciiSpace s)
  decide (lower body ∈ ["nan".toList, "inf".toList, "infinity".toList] ∨ FloatText.decimal body = some [])

/-- `long(t)`. -/
def long (t : Text) : Except PythonError ℤ :=
  let number : Option ℤ :=
    match strip isSpace t with
    | '-' :: t => (Long.magnitude t).map fun n => -(n : ℤ)
    | '+' :: t => (Long.magnitude t).map fun n => (n : ℤ)
    | t => (Long.magnitude t).map fun n => (n : ℤ)
  match number with
  | some n => .ok n
  | none => .error .value

/-! ### `Common` -/

/-- `isNumber(value)`: no exception gets out of it. -/
def isNumber (value : Option Text) : Bool :=
  match value with
  | none => false -- `str(None)` is no number
  | some v =>
    match str v with
    | .ok s => float s
    | .error _ => false

/-- `isBoolean(value)`, of a string. -/
def isBoolean (value : Text) : Except PythonError Bool := do
  let s ← str value
  return lower (strip isAsciiSpace s) ∈ ["true".toList, "false".toList]

def valueType (value : Option Text) : Except PythonError MetricType :=
  match value with
  | none => .ok .text
  | some v => do
    if ← isBoolean v then return .boolean
    else if isNumber value then return .number
    else return .text

/-! ### `Metric` -/

inductive Value
  | number (n : ℤ)
  | text (t : Text)
  | boolean (b : Bool)
  deriving DecidableEq

/-- A metric with the properties it is registered with, a record like the Java
one. -/
structure Metric where
  name : Text
  value : Value
  properties : MetricProperties
  deriving DecidableEq

/-! ### The reader -/

namespace MetricsPropertiesReader

def getAttribute (attrib : Text) (props : Properties) (metric defaultvalue : Text) : Text :=
  ((props.rawAttribute metric attrib).map (strip isSpace)).getD defaultvalue

/-- Whether a loop over words in small letters stops at this one. -/
def isLevel (level thelevel : Text) : Bool := decide (level = upper thelevel ∨ level = lower thelevel)

def getLevel (thelevel : Text) : Level :=
  if isLevel "public".toList thelevel then .publicLevel
  else if isLevel "limited".toList thelevel then .limited
  else if isLevel "internal".toList thelevel then .internal
  else .publicLevel

def getType (thetype : Text) : MetricType :=
  if "text".toList = lower thetype then .text
  else if "number".toList = lower thetype then .number
  else if "boolean".toList = lower thetype then .boolean
  else if "unspecified".toList = lower thetype then .unspecified
  else .invalid

def declaredType (props : Properties) (metric : Text) : MetricType :=
  getType (getAttribute "type".toList props metric "unspecified".toList)

/-- The log message of a text that is shown only if it says more than the default. -/
def strUnless (dflt t : Text) : Except PythonError Text := if t ≠ dflt then str t else .ok []

def getMetricProperties (metric : Text) (props : Properties) : Except PythonError MetricProperties := do
  let name := getAttribute "name".toList props metric metric
  let description := getAttribute "description".toList props metric []
  let level := getLevel (getAttribute "level".toList props metric "public".toList)
  let thetype := declaredType props metric
  -- the log messages
  let _ ← str metric
  let _ ← strUnless metric name
  let _ ← strUnless [] description
  return { displayname := name, description, level, type := thetype }

def getNumber (textvalue : Option Text) : Except PythonError ℤ :=
  if isNumber textvalue then long (textvalue.getD []) else .ok 0

def getBoolean (textvalue : Option Text) : Bool := textvalue.any fun t => lower t = "true".toList

def validValue (thetype : MetricType) (textvalue : Option Text) : Except PythonError Value :=
  match thetype with
  | .number => (getNumber textvalue).map .number
  | .boolean => .ok (.boolean (getBoolean textvalue))
  | _ => .ok (.text (textvalue.getD []))

/-- The type that `addMetric` settles on. -/
def theType (type : MetricType) (textvalue : Option Text) : Except PythonError MetricType :=
  if type = .unspecified ∨ type = .invalid then valueType textvalue else .ok type

/-- What `addMetric` adds for a name. -/
def getMetric (props : Properties) (metric : Text) : Except PythonError Metric := do
  let properties ← getMetricProperties metric props
  let thetype ← theType properties.type (props.getProperty metric)
  let validvalue ← validValue thetype (props.getProperty metric)
  return ⟨metric, validvalue, { properties with type := thetype }⟩

def addMetric (props : Properties) (metrics : List (Text × Metric)) (metric : Text) :
    Except PythonError (List (Text × Metric)) := do
  let added ← getMetric props metric
  return put metric added metrics

/-- `processMetricsConfig`, with the keys of the table in the order of its
dictionary. A key that is skipped is logged. -/
def processMetricsConfig (props : Properties) (keySet : List Text) (metrics : List (Text × Metric)) :
    Except PythonError (List (Text × Metric)) :=
  Registering.registerAll getMetricNameFromPropertyKey (fun metrics name => metrics.lookup name)
    (fun key => (str key).map fun _ => ()) (addMetric props) keySet metrics

/-! ### What it leaves -/

theorem registers (props : Properties) :
    Registering.Registers (fun metrics name => metrics.lookup name) (fun name => (getMetric props name).map some)
      (addMetric props) where
  failed metrics metric e h := by
    cases hm : getMetric props metric with
    | error e' =>
      rw [hm] at h
      cases h
      rw [addMetric, hm]
      rfl
    | ok m =>
      rw [hm] at h
      cases h
  added metrics metric b h := by
    cases hm : getMetric props metric with
    | error e' =>
      rw [hm] at h
      cases h
    | ok m =>
      rw [hm] at h
      cases h
      refine ⟨put metric m metrics, by rw [addMetric, hm]; rfl, fun n => ?_⟩
      exact lookup_put metric n m metrics

theorem str_ok {t s : Text} : str t = .ok s ↔ Ascii t ∧ t = s := by
  unfold str
  by_cases h : Ascii t <;> simp [h]

/-- With the default in ASCII, the message is one of an ASCII text. -/
theorem exists_strUnless_ok {dflt t : Text} (hd : Ascii dflt) : (∃ s, strUnless dflt t = .ok s) ↔ Ascii t := by
  unfold strUnless
  by_cases hne : t ≠ dflt
  · rw [if_pos hne]
    exact ⟨fun ⟨_, hs⟩ => (str_ok.mp hs).1, fun h => ⟨t, str_ok.mpr ⟨h, rfl⟩⟩⟩
  · rw [if_neg hne, not_not.mp hne]
    exact iff_of_true ⟨[], rfl⟩ hd

theorem getMetric_ok_ascii {props : Properties} {metric : Text} {m : Metric} (h : getMetric props metric = .ok m) :
    Ascii metric := by
  obtain ⟨p, hp, -⟩ := bind_eq_ok.mp h
  obtain ⟨s, hs, -⟩ := bind_eq_ok.mp hp
  exact (str_ok.mp hs).1

variable {props : Properties} {keySet : List Text}

/-- From an empty dictionary, the loop leaves each name the metric that the
table defines for it. -/
theorem processMetricsConfig_ok {metrics : List (Text × Metric)} (h : processMetricsConfig props keySet [] = .ok metrics) :
    (∀ key ∈ keySet, ∃ m, getMetric props (getMetricNameFromPropertyKey key) = .ok m) ∧
    ∀ n, metrics.lookup n =
      if n ∈ keySet.map getMetricNameFromPropertyKey then (getMetric props n).toOption else none := by
  obtain ⟨hbuilt, hget⟩ := Registering.registerAll_new (registers props) (fun _ => rfl) h
  constructor
  · intro key hkey
    obtain ⟨b, hb⟩ := hbuilt key hkey
    cases hm : getMetric props (getMetricNameFromPropertyKey key) with
    | error e =>
      rw [hm] at hb
      cases hb
    | ok m => exact ⟨m, rfl⟩
  · intro n
    have hb : Registering.built (fun name => (getMetric props name).map some) n = (getMetric props n).toOption := by
      simp only [Registering.built]
      cases getMetric props n <;> rfl
    rw [hget n, hb]
    congr

/-- A key is in ASCII if the name it stands for is. -/
theorem ascii_key {key : Text} (h : Ascii (getMetricNameFromPropertyKey key)) : Ascii key := by
  rcases getMetricNameFromPropertyKey_cases key with hk | ⟨word, hw, hk⟩
  · rwa [hk] at h
  · have hword : ∀ word ∈ suffixes, Ascii ('.' :: word) := by decide
    intro c hc
    rw [hk, List.mem_append] at hc
    rcases hc with hc | hc
    · exact h c hc
    · exact hword word hw c hc

theorem exists_processMetricsConfig
    (h : ∀ key ∈ keySet, ∃ m, getMetric props (getMetricNameFromPropertyKey key) = .ok m) :
    ∃ metrics, processMetricsConfig props keySet [] = .ok metrics := by
  refine Registering.exists_registerAll (registers props) keySet [] (fun key hkey => ?_) fun key hkey => ?_
  · obtain ⟨m, hm⟩ := h key hkey
    rw [str_ok.mpr ⟨ascii_key (getMetric_ok_ascii hm), rfl⟩]
    rfl
  · obtain ⟨m, hm⟩ := h key hkey
    rw [hm]
    exact Or.inr ⟨some m, rfl⟩

end MetricsPropertiesReader

end Plethoralib

end Plethora
