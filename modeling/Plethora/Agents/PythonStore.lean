/-
# The metric store of a Python agent

`Plethora` of plethoralib. The store takes any object for a metric's value:
what type an object is of is told by its text, but `incrMetric` and
`decrMetric` calculate with the object itself. That the store is ready is an
entry among the metrics, under the name `VERSION`, and every method looks at
it first.

A method catches every exception and then gives False, but the message it logs
about one takes `str` of the metric's name, which can raise another. What
floating-point numbers are is left open (`Floats`).

Key definitions: `Plethoralib.PyObject`, `Plethoralib.Store`, `Plethoralib.Store.setMetric`,
`Plethoralib.Store.incrMetric`, `Plethoralib.Store.decrMetric`, `Plethoralib.Store.addMetric`,
`Plethoralib.Store.initMetricStore`.
Key theorems: `Plethoralib.Store.changeBy_cases`.
-/
import Plethora.Agents.Words

namespace Plethora

namespace Plethoralib

open Strip

/-! ### Objects -/

/-- A `str` or `unicode` object. In ASCII it is the same text either way, which
counts as a `str` here; of another `str` these are the bytes. -/
structure Basestring where
  chars : Text
  isUnicode : Bool
  normal : if isUnicode then ¬ Ascii chars else ∀ c ∈ chars, c.toNat < 256
  deriving DecidableEq

namespace Basestring

def unicode (t : Text) : Basestring where
  chars := t
  isUnicode := !decide (Ascii t)
  normal := by
    by_cases h : Ascii t
    · simp only [h, decide_true, Bool.not_true, Bool.false_eq_true, if_false]
      exact fun c hc => Nat.lt_trans (h c hc) (by decide)
    · simp [h]

def str (s : Basestring) : Except PythonError Text := if s.isUnicode then .error .unicodeEncode else .ok s.chars

theorem not_ascii_append {s t : Text} (h : ¬ Ascii s ∨ ¬ Ascii t) : ¬ Ascii (s ++ t) := by
  intro ha
  rcases h with h | h
  · exact h fun c hc => ha c (List.mem_append_left _ hc)
  · exact h fun c hc => ha c (List.mem_append_right _ hc)

/-- `s + t`, `none` where a `str` beside a `unicode` object cannot be decoded. -/
def append (s t : Basestring) : Option Basestring :=
  if h : s.isUnicode = false ∧ t.isUnicode = false then
    some {
      chars := s.chars ++ t.chars
      isUnicode := false
      normal := by
        obtain ⟨hs, ht⟩ := h
        have hs' := s.normal
        have ht' := t.normal
        simp only [hs, ht, Bool.false_eq_true, if_false] at hs' ht' ⊢
        exact fun c hc => (List.mem_append.mp hc).elim (hs' c) (ht' c) }
  else if (s.isUnicode ∨ Ascii s.chars) ∧ (t.isUnicode ∨ Ascii t.chars) then
    some {
      chars := s.chars ++ t.chars
      isUnicode := true
      normal := by
        have hs' := s.normal
        have ht' := t.normal
        rw [if_pos rfl]
        apply not_ascii_append
        cases hs : s.isUnicode with
        | true =>
          rw [hs, if_pos rfl] at hs'
          exact Or.inl hs'
        | false =>
          cases ht : t.isUnicode with
          | true =>
            rw [ht, if_pos rfl] at ht'
            exact Or.inr ht'
          | false => exact absurd ⟨hs, ht⟩ h }
  else none

end Basestring

/-- The floating-point numbers. -/
structure Floats where
  carrier : Type
  str : carrier → Text
  /-- Their texts are read as numbers. -/
  reads : ∀ x, float (str x) = true
  /-- The number nearest to an integer, `none` where it is too large. -/
  ofInt : ℤ → Option carrier
  add : carrier → carrier → carrier
  sub : carrier → carrier → carrier

/-- The text of an integer. -/
def intText : ℤ → Text
  | .ofNat n => Nat.toDigits 10 n
  | .negSucc n => '-' :: Nat.toDigits 10 (n + 1)

/-- An object other than None. An `int` and a `long` of one value are the same. -/
inductive PyObject (F : Floats)
  | bool (b : Bool)
  | int (n : ℤ)
  | float (x : F.carrier)
  | text (t : Basestring)

namespace PyObject

variable {F : Floats}

def str : PyObject F → Except PythonError Text
  | .bool true => .ok "True".toList
  | .bool false => .ok "False".toList
  | .int n => .ok (intText n)
  | .float x => .ok (F.str x)
  | .text t => t.str

/-- `Common.isNumber`. -/
def isNumber (value : PyObject F) : Bool :=
  match value.str with
  | .ok s => Plethoralib.float s
  | .error _ => false

/-- `Common.isBoolean`. -/
def isBoolean (value : PyObject F) : Except PythonError Bool := do
  let s ← value.str
  return showsBoolean s

/-- `Common.valueType`. -/
def valueType (value : PyObject F) : Except PythonError MetricType := do
  if ← value.isBoolean then return .boolean
  else if value.isNumber then return .number
  else return .text

/-- The integer that an object is in arithmetic: a truth value is one too. -/
def asInt : PyObject F → Option ℤ
  | .bool b => some (if b then 1 else 0)
  | .int n => some n
  | _ => none

/-- An operation on numbers, `none` where it raises an exception. -/
def arith (ints : ℤ → ℤ → ℤ) (floats : F.carrier → F.carrier → F.carrier) :
    PyObject F → PyObject F → Option (PyObject F)
  | .float x, .float y => some (.float (floats x y))
  | .float x, b => (b.asInt.bind F.ofInt).map fun y => .float (floats x y)
  | a, .float y => (a.asInt.bind F.ofInt).map fun x => .float (floats x y)
  | a, b => a.asInt.bind fun m => b.asInt.map fun n => .int (ints m n)

/-- `a + b`. -/
def add : PyObject F → PyObject F → Option (PyObject F)
  | .text s, .text t => (s.append t).map .text
  | a, b => arith (· + ·) F.add a b

/-- `a - b`. -/
def sub (a b : PyObject F) : Option (PyObject F) := arith (· - ·) F.sub a b

/-- An `int`, `long` or `float` object. -/
def Numeric : PyObject F → Prop
  | .int _ => True
  | .float _ => True
  | _ => False

end PyObject

/-! ### Numbers -/

theorem float_of_decimal {t : Text} (hd : FloatText.decimal (FloatText.unsigned t) = some [])
    (hs : Stripped isAsciiSpace t) : Plethoralib.float t = true := by
  have hstrip : strip isAsciiSpace t = t := by
    have h := @strip_eq _ isAsciiSpace [] t [] nofun nofun hs
    rwa [List.nil_append, List.append_nil] at h
  rw [Plethoralib.float, hstrip]
  exact decide_eq_true (Or.inr hd)

theorem stripped_of_forall {t : Text} (h : ∀ c ∈ t, isAsciiSpace c = false) : Stripped isAsciiSpace t where
  head c hc := h c (List.mem_of_mem_head? hc)
  last c hc := h c (List.mem_of_mem_getLast? hc)

theorem not_isAsciiSpace_of_isDigit {c : Char} (h : c.isDigit = true) : isAsciiSpace c = false := by
  have hn : 48 ≤ c.toNat := UInt32.le_iff_toNat_le.mp (of_decide_eq_true ((Bool.and_eq_true _ _).mp h).1)
  have hblank : c ≠ ' ' := by
    rintro rfl
    exact absurd hn (by decide)
  simp [isAsciiSpace, hblank]
  omega

theorem unsigned_of_head {t : Text} (h : ∀ c ∈ t.head?, c.isDigit = true) : FloatText.unsigned t = t := by
  unfold FloatText.unsigned
  split
  · exact absurd (h '+' rfl) (by decide)
  · exact absurd (h '-' rfl) (by decide)
  · rfl

/-- Digits with a sign or without, and with a point among them or without, are
read as a number. -/
theorem float_of_digits {t : Text} (hd : ∀ c ∈ t, c.isDigit = true ∨ c = '.')
    (hhead : ∀ c ∈ t.head?, c.isDigit = true) (hdec : FloatText.decimal t = some []) :
    Plethoralib.float t = true ∧ Plethoralib.float ('-' :: t) = true := by
  have hspace : ∀ c ∈ t, isAsciiSpace c = false := by
    intro c hc
    rcases hd c hc with hc | rfl
    · exact not_isAsciiSpace_of_isDigit hc
    · decide
  constructor
  · apply float_of_decimal
    · rw [unsigned_of_head hhead, hdec]
    · exact stripped_of_forall hspace
  · apply float_of_decimal
    · exact hdec
    · refine stripped_of_forall fun c hc => ?_
      rcases List.mem_cons.mp hc with rfl | hc
      · decide
      · exact hspace c hc

theorem isDigit_of_mem_toDigits {n : ℕ} {c : Char} (hc : c ∈ Nat.toDigits 10 n) : c.isDigit = true :=
  Nat.isDigit_of_mem_toDigits (by decide) (by decide) hc

theorem float_intText (n : ℤ) : Plethoralib.float (intText n) = true := by
  have hboth : ∀ n, Plethoralib.float (Nat.toDigits 10 n) = true ∧ Plethoralib.float ('-' :: Nat.toDigits 10 n) = true :=
    fun n => float_of_digits (fun c hc => Or.inl (isDigit_of_mem_toDigits hc))
      (fun c hc => isDigit_of_mem_toDigits (List.mem_of_mem_head? hc))
      (FloatText.decimal_digits (fun c hc => isDigit_of_mem_toDigits hc) Nat.toDigits_ne_nil)
  cases n with
  | ofNat n => exact (hboth n).1
  | negSucc n => exact (hboth (n + 1)).2

namespace PyObject

variable {F : Floats} {a b v : PyObject F}

theorem exists_str_of_numeric (h : v.Numeric) : ∃ t, v.str = .ok t ∧ Plethoralib.float t = true := by
  cases v with
  | int n => exact ⟨intText n, rfl, float_intText n⟩
  | float x => exact ⟨F.str x, rfl, F.reads x⟩
  | bool b => exact h.elim
  | text t => exact h.elim

theorem isNumber_of_numeric (h : v.Numeric) : v.isNumber = true := by
  obtain ⟨t, ht, hf⟩ := exists_str_of_numeric h
  rw [isNumber, ht]
  exact hf

theorem isBoolean_of_numeric (h : v.Numeric) : v.isBoolean = .ok false := by
  obtain ⟨t, ht, hf⟩ := exists_str_of_numeric h
  have hb : showsBoolean t = false := by
    by_contra hb
    rw [not_float_of_isBoolean (by simpa using hb)] at hf
    cases hf
  rw [isBoolean, ht, ← hb]
  rfl

theorem valueType_of_numeric (h : v.Numeric) : v.valueType = .ok .number := by
  rw [valueType, isBoolean_of_numeric h, isNumber_of_numeric h]
  rfl

/-- Arithmetic with a number gives one. -/
theorem numeric_of_arith {ints : ℤ → ℤ → ℤ} {floats : F.carrier → F.carrier → F.carrier} (ha : a.Numeric)
    (h : arith ints floats a b = some v) : v.Numeric := by
  cases a with
  | int m =>
    cases b with
    | float y =>
      obtain ⟨x, -, rfl⟩ := Option.map_eq_some_iff.mp h
      trivial
    | bool c =>
      cases h
      trivial
    | int n =>
      cases h
      trivial
    | text t => cases h
  | float x =>
    cases b with
    | float y =>
      cases h
      trivial
    | bool c =>
      obtain ⟨y, -, rfl⟩ := Option.map_eq_some_iff.mp h
      trivial
    | int n =>
      obtain ⟨y, -, rfl⟩ := Option.map_eq_some_iff.mp h
      trivial
    | text t => cases h
  | bool c => exact ha.elim
  | text t => exact ha.elim

theorem add_eq_arith (ha : a.Numeric) : a.add b = arith (· + ·) F.add a b := by
  cases a with
  | int n => rfl
  | float x => rfl
  | bool c => exact ha.elim
  | text t => exact ha.elim

theorem numeric_of_add (ha : a.Numeric) (h : a.add b = some v) : v.Numeric :=
  numeric_of_arith ha ((add_eq_arith ha).symm.trans h)

theorem numeric_of_sub (ha : a.Numeric) (h : a.sub b = some v) : v.Numeric := numeric_of_arith ha h

end PyObject

/-! ### The store -/

structure Store (F : Floats) where
  storename : Basestring
  metrics : List (Basestring × PyObject F) := []
  metricprops : List (Basestring × MetricProperties) := []
  numbertypeLookup : List Basestring := []
  notnumbertypeLookup : List Basestring := []

/-- `VERSIONTAG`. -/
def versionName : Basestring := .unicode "VERSION".toList

def version : Basestring := .unicode "1.0.0".toList

namespace Store

variable {F : Floats} (s : Store F)

/-- `__metricsInitialised`. -/
def isReady : Bool :=
  match s.metrics.lookup versionName with
  | some (.text t) => t = version
  | _ => false

def getType (name : Basestring) : Option MetricType := (s.metricprops.lookup name).map (·.type)

def setStoreValue (name : Basestring) (value : PyObject F) : Store F := { s with metrics := put name value s.metrics }

/-- The checks of `setMetric` on the type. A value whose type cannot be told is
an exception, and refused. -/
def accepts (name : Basestring) (value : PyObject F) : Bool :=
  match s.getType name with
  | none => false
  | some thetype => decide (thetype = .text) || decide (value.valueType = .ok thetype)

def setMetric (name : Option Basestring) (value : Option (PyObject F)) : Store F × Bool :=
  match name, value with
  | some name, some value =>
    if s.isReady && s.accepts name value then (s.setStoreValue name value, true) else (s, false)
  | _, _ => (s, false)

def getMetric (name : Option Basestring) : Option (PyObject F) :=
  match name with
  | some name => if s.isReady then s.metrics.lookup name else none
  | none => none

/-- False, once the name is logged. -/
def failed (name : Option Basestring) : Except PythonError Bool :=
  match name with
  | some name => name.str.map fun _ => false
  | none => .ok false

/-- The type check of the two methods below, remembered at the first access. A
number's text is not one of a truth value, so the second test raises nothing. -/
def isNumberTypeMetric (name : Basestring) (value : PyObject F) : Store F × Bool :=
  if name ∈ s.numbertypeLookup then (s, true)
  else if name ∈ s.notnumbertypeLookup then (s, false)
  else if value.isNumber && decide (value.isBoolean = .ok false) then
    ({ s with numbertypeLookup := name :: s.numbertypeLookup }, true)
  else ({ s with notnumbertypeLookup := name :: s.notnumbertypeLookup }, false)

/-- What `incrMetric` and `decrMetric` share: the metric gets the result of the
operation, and one without a value gets the first. -/
def changeBy (op : PyObject F → PyObject F → Option (PyObject F)) (first : Option (PyObject F))
    (name : Option Basestring) (delta : Option (PyObject F)) : Store F × Except PythonError Bool :=
  match name, s.getMetric name, delta with
  | some n, some value, some d =>
    let checked := s.isNumberTypeMetric n value
    if checked.2 && d.isNumber then
      match op value d with
      | some v => ((checked.1.setMetric name (some v)).1, .ok (checked.1.setMetric name (some v)).2)
      | none => (checked.1, failed name)
    else (checked.1, failed name)
  | _, some _, _ => (s, failed name)
  | _, none, _ => ((s.setMetric name first).1, .ok (s.setMetric name first).2)

def incrMetric (name : Option Basestring) (delta : Option (PyObject F)) : Store F × Except PythonError Bool :=
  s.changeBy PyObject.add (some (delta.getD (.int 0))) name delta

def decrMetric (name : Option Basestring) (delta : Option (PyObject F)) : Store F × Except PythonError Bool :=
  s.changeBy PyObject.sub (some (.int 0)) name delta

/-- `__addMetricProperties`. -/
def addMetricProperties (name : Basestring) (properties : MetricProperties) : Store F :=
  if (s.metrics.lookup name).isSome then { s with metricprops := put name properties s.metricprops } else s

/-- What `addMetric` logs in the end. -/
def logAdded (name : Basestring) (value : PyObject F) : Except PythonError Unit := do
  let _ ← name.str
  let _ ← s.storename.str
  let _ ← value.str

/-- `addMetric`. It gives None where the store is not ready. -/
def addMetric (name : Option Basestring) (value : Option (PyObject F)) (properties : Option MetricProperties) :
    Store F × Except PythonError (Option Bool) :=
  match name, value with
  | some n, some v =>
    if s.isReady then
      let stored := s.setStoreValue n v
      match properties.elim (v.valueType.map fun thetype => { type := thetype }) Except.ok with
      | .error _ => (stored, (failed name).map some) -- the value stays
      | .ok p =>
        (stored.addMetricProperties n p,
          match s.logAdded n v with
          | .ok _ => .ok (some true)
          | .error _ => (failed name).map some)
    else (s, .ok none)
  | _, _ => (s, (failed name).map some)

/-! ### Initialisation -/

/-- What a metric that is read from a file is added with. -/
def valueOf : Value → PyObject F
  | .number n => .int n
  | .text t => .text (.unicode t)
  | .boolean b => .bool b

/-- The loop of `addMetricsFromFile`, over the metrics of the file. An exception
ends it, and the constructor catches it. -/
def addMetrics : List Metric → Store F → Store F
  | [], s => s
  | m :: metrics, s =>
    match s.addMetric (some (.unicode m.name)) (some (valueOf m.value)) (some m.properties) with
    | (s', .ok _) => addMetrics metrics s'
    | (s', .error _) => s'

def addMetricVersion : Store F := s.setStoreValue versionName (.text version)

/-- `__initMetricStore`, with the metrics of the configuration file in the order
of their dictionary. It logs the name of the store first. -/
def initMetricStore (metrics : List Metric) : Except PythonError (Store F) := do
  if s.isReady then return s
  else
    let _ ← s.storename.str
    return addMetrics metrics s.addMetricVersion

/-! ### What a call does -/

variable {s} {n m : Basestring} {value v : PyObject F}

theorem isReady_iff : s.isReady = true ↔ s.metrics.lookup versionName = some (.text version) := by
  unfold isReady
  split
  · rename_i t ht
    rw [ht]
    simp
  · rename_i hno
    refine iff_of_false Bool.false_ne_true fun h => ?_
    exact hno version h

@[simp] theorem lookup_setStoreValue :
    (s.setStoreValue n v).metrics.lookup m = if m = n then some v else s.metrics.lookup m :=
  lookup_put n m v s.metrics

@[simp] theorem getType_setStoreValue : (s.setStoreValue n v).getType m = s.getType m := rfl

@[simp] theorem metrics_isNumberTypeMetric : (s.isNumberTypeMetric n value).1.metrics = s.metrics := by
  unfold isNumberTypeMetric
  repeat' split
  all_goals rfl

@[simp] theorem metricprops_isNumberTypeMetric : (s.isNumberTypeMetric n value).1.metricprops = s.metricprops := by
  unfold isNumberTypeMetric
  repeat' split
  all_goals rfl

@[simp] theorem getType_isNumberTypeMetric : (s.isNumberTypeMetric n value).1.getType m = s.getType m := by
  rw [getType, metricprops_isNumberTypeMetric, getType]

@[simp] theorem isReady_isNumberTypeMetric : (s.isNumberTypeMetric n value).1.isReady = s.isReady := by
  rw [isReady, metrics_isNumberTypeMetric, isReady]

@[simp] theorem accepts_isNumberTypeMetric : (s.isNumberTypeMetric n value).1.accepts m v = s.accepts m v := by
  rw [accepts, getType_isNumberTypeMetric, accepts]

theorem getMetric_eq_some : s.getMetric (some n) = some v ↔ s.isReady = true ∧ s.metrics.lookup n = some v := by
  cases hr : s.isReady <;> simp [getMetric, hr]

theorem setMetric_of_accepts (hr : s.isReady = true) (ha : s.accepts n v = true) :
    s.setMetric (some n) (some v) = (s.setStoreValue n v, true) := by
  simp [setMetric, hr, ha]

/-- `setMetric` stores a value that is accepted, or does nothing. -/
theorem setMetric_cases (s : Store F) (name : Option Basestring) (value : Option (PyObject F)) :
    s.setMetric name value = (s, false) ∨ ∃ n v, name = some n ∧ value = some v ∧ s.isReady = true ∧
      s.accepts n v = true ∧ s.setMetric name value = (s.setStoreValue n v, true) := by
  cases name with
  | none => exact Or.inl rfl
  | some n =>
    cases value with
    | none => exact Or.inl rfl
    | some v =>
      by_cases h : s.isReady = true ∧ s.accepts n v = true
      · exact Or.inr ⟨n, v, rfl, rfl, h.1, h.2, setMetric_of_accepts h.1 h.2⟩
      · left
        rw [← Bool.and_eq_true] at h
        rw [setMetric, if_neg h]

/-- What a call of `incrMetric` or `decrMetric` can do: nothing, or remember a
name, or store the result for a metric that counts as a number, or store the
first value of one that has none. -/
inductive Changed (op : PyObject F → PyObject F → Option (PyObject F)) (s : Store F) : Store F → Prop
  | none : Changed op s s
  | checked (n : Basestring) (value : PyObject F) (stored : s.getMetric (some n) = some value) :
      Changed op s (s.isNumberTypeMetric n value).1
  | changed (n : Basestring) (value d v : PyObject F) (stored : s.getMetric (some n) = some value)
      (number : (s.isNumberTypeMetric n value).2 = true) (result : op value d = some v)
      (accepted : s.accepts n v = true) : Changed op s ((s.isNumberTypeMetric n value).1.setStoreValue n v)
  | first (n : Basestring) (v : PyObject F) (missing : s.getMetric (some n) = Option.none)
      (ready : s.isReady = true) (accepted : s.accepts n v = true) : Changed op s (s.setStoreValue n v)

theorem changeBy_cases (op : PyObject F → PyObject F → Option (PyObject F)) (s : Store F)
    (first : Option (PyObject F)) (name : Option Basestring) (delta : Option (PyObject F)) :
    Changed op s (s.changeBy op first name delta).1 := by
  cases hget : s.getMetric name with
  | none =>
    have he : (s.changeBy op first name delta).1 = (s.setMetric name first).1 := by
      unfold changeBy
      rw [hget]
      cases name <;> rfl
    rw [he]
    rcases setMetric_cases s name first with h | ⟨n, v, rfl, rfl, hr, ha, h⟩
    · rw [h]
      exact .none
    · rw [h]
      exact .first n v hget hr ha
  | some value =>
    cases name with
    | none => cases hget
    | some n =>
      cases delta with
      | none =>
        have he : (s.changeBy op first (some n) none).1 = s := by
          unfold changeBy
          rw [hget]
        rw [he]
        exact .none
      | some d =>
        unfold changeBy
        rw [hget]
        by_cases hc : ((s.isNumberTypeMetric n value).2 && d.isNumber) = true
        · simp only [if_pos hc]
          cases hv : op value d with
          | none => exact .checked n value hget
          | some v =>
            rcases setMetric_cases (s.isNumberTypeMetric n value).1 (some n) (some v) with h | ⟨n', v', hn, hv', -, ha, h⟩
            · simp only [h]
              exact .checked n value hget
            · cases hn
              cases hv'
              simp only [h]
              rw [accepts_isNumberTypeMetric] at ha
              exact .changed n value d v hget ((Bool.and_eq_true _ _).mp hc).1 hv ha
        · simp only [if_neg hc]
          exact .checked n value hget

/-! ### Metrics that are added -/

theorem unicode_inj {a b : Text} : Basestring.unicode a = Basestring.unicode b ↔ a = b :=
  ⟨fun h => congrArg Basestring.chars h, congrArg _⟩

/-- The store with a value and properties under a name. -/
def added (s : Store F) (name : Basestring) (value : PyObject F) (p : MetricProperties) : Store F :=
  { s with metrics := put name value s.metrics, metricprops := put name p s.metricprops }

theorem lookup_added {p : MetricProperties} :
    (s.added n v p).metrics.lookup m = if m = n then some v else s.metrics.lookup m :=
  lookup_put n m v s.metrics

theorem props_added {p : MetricProperties} :
    (s.added n v p).metricprops.lookup m = if m = n then some p else s.metricprops.lookup m :=
  lookup_put n m p s.metricprops

theorem addMetricProperties_setStoreValue {p : MetricProperties} :
    (s.setStoreValue n v).addMetricProperties n p = s.added n v p := by
  rw [addMetricProperties, lookup_setStoreValue, if_pos rfl, Option.isSome_some, if_pos rfl]
  rfl

/-- With properties, a metric is added to a store that is ready. -/
theorem addMetric_some (s : Store F) (n : Basestring) (v : PyObject F) (p : MetricProperties) :
    (s.addMetric (some n) (some v) (some p)).1 = if s.isReady then s.added n v p else s := by
  cases hr : s.isReady with
  | false => simp [addMetric, hr]
  | true =>
    simp only [addMetric, hr, if_true, Option.elim_some]
    exact addMetricProperties_setStoreValue

/-- An ASCII name is logged. -/
theorem addMetric_ok {name : Text} (hn : Ascii name) (s : Store F) (v : PyObject F) (p : MetricProperties) :
    ∃ r, (s.addMetric (some (.unicode name)) (some v) (some p)).2 = .ok r := by
  have hstr : (Basestring.unicode name).str = .ok name := by simp [Basestring.unicode, Basestring.str, hn]
  cases hr : s.isReady with
  | false => exact ⟨none, by simp [addMetric, hr]⟩
  | true =>
    simp only [addMetric, hr, if_true, Option.elim_some, failed, hstr]
    cases s.logAdded (.unicode name) v with
    | error e => exact ⟨some false, rfl⟩
    | ok u => exact ⟨some true, rfl⟩

theorem addMetrics_cons {m : Metric} (hm : Ascii m.name) (ms : List Metric) (s : Store F) :
    addMetrics (m :: ms) s =
      addMetrics ms (if s.isReady then s.added (.unicode m.name) (valueOf m.value) m.properties else s) := by
  obtain ⟨r, hr⟩ := addMetric_ok hm s (valueOf m.value) m.properties
  have hs := addMetric_some s (.unicode m.name) (valueOf m.value) m.properties
  rw [addMetrics, ← hs]
  generalize s.addMetric (some (.unicode m.name)) (some (valueOf m.value)) (some m.properties) = result at hr
  obtain ⟨s', r'⟩ := result
  cases hr
  rfl

/-- Adding metrics remembers nothing about their types. -/
theorem lookups_addMetrics : ∀ {ms : List Metric} {s : Store F}, (∀ m ∈ ms, Ascii m.name) →
    (addMetrics ms s).numbertypeLookup = s.numbertypeLookup ∧
      (addMetrics ms s).notnumbertypeLookup = s.notnumbertypeLookup
  | [], _, _ => ⟨rfl, rfl⟩
  | m :: ms, s, h => by
    rw [addMetrics_cons (h m List.mem_cons_self)]
    obtain ⟨hnumber, hnot⟩ := @lookups_addMetrics ms
      (if s.isReady then s.added (.unicode m.name) (valueOf m.value) m.properties else s)
      fun m hm => h m (List.mem_cons_of_mem _ hm)
    rw [hnumber, hnot]
    split
    · exact ⟨rfl, rfl⟩
    · exact ⟨rfl, rfl⟩

end Store

/-- `getMetricsFromFile`, of the table that is read: an exception is caught, and
the metrics before it stay. -/
def MetricsPropertiesReader.getMetricsFromFile (props : Properties) (keySet : List Text) : List (Text × Metric) :=
  Registering.registered getMetricNameFromPropertyKey (fun metrics name => metrics.lookup name)
    (fun key => (str key).map fun _ => ()) (addMetric props) keySet []

/-- The metrics in a dictionary, each of which the file defines. -/
structure MetricsPropertiesReader.Defined (props : Properties) (metrics : List (Text × Metric)) : Prop where
  nodup : (metrics.map (·.1)).Nodup
  entries : ∀ e ∈ metrics, MetricsPropertiesReader.getMetric props e.1 = .ok e.2

theorem MetricsPropertiesReader.defined_getMetricsFromFile (props : Properties) (keySet : List Text) :
    Defined props (getMetricsFromFile props keySet) := by
  refine Registering.registered_invariant (P := Defined props) (fun metrics n metrics' h hadd => ?_) keySet
    ⟨List.nodup_nil, fun e he => absurd he List.not_mem_nil⟩
  obtain ⟨added, ha, hput⟩ := bind_eq_ok.mp hadd
  cases hput
  refine ⟨nodup_keys_put h.nodup, fun e he => ?_⟩
  rcases mem_put he with rfl | he
  · exact ha
  · exact h.entries e he

theorem MetricsPropertiesReader.getMetric_name {props : Properties} {name : Text} {m : Metric}
    (h : getMetric props name = .ok m) : m.name = name := by
  obtain ⟨p, -, h⟩ := bind_eq_ok.mp h
  obtain ⟨thetype, -, h⟩ := bind_eq_ok.mp h
  obtain ⟨v, -, h⟩ := bind_eq_ok.mp h
  cases h
  rfl

namespace MetricsPropertiesReader.Defined

variable {props : Properties} {items metrics : List (Text × Metric)}

/-- The order of the dictionary does not matter. -/
theorem perm (h : Defined props metrics) (hitems : items.Perm metrics) : Defined props items where
  nodup := (hitems.map _).nodup_iff.mpr h.nodup
  entries e he := h.entries e (hitems.mem_iff.mp he)

theorem getMetric_of_mem (h : Defined props items) {m : Metric} (hm : m ∈ items.map (·.2)) :
    getMetric props m.name = .ok m := by
  obtain ⟨e, he, rfl⟩ := List.mem_map.mp hm
  rw [getMetric_name (h.entries e he), h.entries e he]

theorem ascii (h : Defined props items) {m : Metric} (hm : m ∈ items.map (·.2)) : Ascii m.name :=
  getMetric_ok_ascii (h.getMetric_of_mem hm)

theorem nodup_names (h : Defined props items) : ((items.map (·.2)).map (·.name)).Nodup := by
  have hsame : (items.map (·.2)).map (·.name) = items.map (·.1) := by
    rw [List.map_map]
    exact List.map_congr_left fun e he => getMetric_name (h.entries e he)
  rw [hsame]
  exact h.nodup

end MetricsPropertiesReader.Defined

/-- What the constructor leaves, if it raises nothing. -/
theorem Store.eq_of_initMetricStore {F : Floats} {s : Store F} {storename : Basestring} {metrics : List Metric}
    (h : ({ storename } : Store F).initMetricStore metrics = .ok s) :
    s = addMetrics metrics ({ storename } : Store F).addMetricVersion := by
  obtain ⟨-, -, hs⟩ := bind_eq_ok.mp h
  cases hs
  rfl

end Plethoralib

end Plethora
