/-
# Metrics that count, in a Python agent

`setMetric` takes a value for a metric that is declared a number if the
value's text is one's, and stores the object: after the text `"7"` the metric
holds a text, `"7" + 1` is an exception, and the counter stands still. Exactly
if no such text is accepted, every metric that is declared a number goes on
holding one (`numbersHeld_after_iff`). Each call of `incrMetric` and
`decrMetric` on one then counts exactly if the store is ready and the result
is not too large (`counted_iff`).

Key definitions: `Plethoralib.Store.NumbersHeld`, `Plethoralib.Store.Counts`, `Plethoralib.Store.Sound`.
Key theorems: `Plethoralib.Store.numbersHeld_after_iff`, `Plethoralib.Store.counted_iff`,
`Plethoralib.Store.counting_iff`, `Plethoralib.Store.begins_of_file`.
-/
import Plethora.Agents.Mirror
import Plethora.Agents.PythonStore
import Plethora.Lib.Runs

namespace Plethora

namespace Plethoralib

/-- A call that writes the value of a metric. -/
inductive Write (F : Floats)
  | setMetric (name : Option Basestring) (value : Option (PyObject F))
  | incrMetric (name : Option Basestring) (delta : Option (PyObject F))
  | decrMetric (name : Option Basestring) (delta : Option (PyObject F))

namespace Store

variable {F : Floats}

/-- The store after a call. -/
def after (s : Store F) : Write F → Store F
  | .setMetric name value => (s.setMetric name value).1
  | .incrMetric name delta => (s.incrMetric name delta).1
  | .decrMetric name delta => (s.decrMetric name delta).1

def Writes (s : Store F) (w : Write F) (t : Store F) : Prop := t = s.after w

theorem writes_after (s : Store F) (w : Write F) : Writes s w (s.after w) := rfl

/-! ### What is claimed of a run -/

/-- Each metric that is declared a number holds one. -/
def NumbersHeld (s : Store F) : Prop :=
  ∀ n, s.getType n = some .number → ∃ v, s.metrics.lookup n = some v ∧ v.Numeric

/-- The call on a number metric, with a number, returns True and has left it the
result of the operation. -/
def Counted (op : PyObject F → PyObject F → Option (PyObject F)) (s : Store F)
    (call : Store F × Except PythonError Bool) (name : Option Basestring) (delta : Option (PyObject F)) : Prop :=
  ∀ n d, name = some n → delta = some d → s.getType n = some .number → d.Numeric →
    call.2 = .ok true ∧ ∃ value v, s.metrics.lookup n = some value ∧ op value d = some v ∧
      call.1.metrics.lookup n = some v

def Counts (s : Store F) : Write F → Prop
  | .setMetric _ _ => True
  | .incrMetric name delta => Counted PyObject.add s (s.incrMetric name delta) name delta
  | .decrMetric name delta => Counted PyObject.sub s (s.decrMetric name delta) name delta

/-! ### The condition on a step -/

/-- A value that a number metric accepts is a number, and not a text that reads
as one. -/
def SetsNumber (s : Store F) (name : Option Basestring) (value : Option (PyObject F)) : Prop :=
  ∀ n v, name = some n → value = some v → s.isReady = true → s.getType n = some .number → s.accepts n v = true →
    v.Numeric

/-- The store is ready, does not remember the metric as no number, and the
result of the operation is not too large for a floating-point number. -/
def Countable (op : PyObject F → PyObject F → Option (PyObject F)) (s : Store F) (name : Option Basestring)
    (delta : Option (PyObject F)) : Prop :=
  ∀ n d, name = some n → delta = some d → s.getType n = some .number → d.Numeric →
    s.isReady = true ∧ (n ∈ s.numbertypeLookup ∨ n ∉ s.notnumbertypeLookup) ∧
      ∀ value, s.metrics.lookup n = some value → (op value d).isSome = true

def Sound (s : Store F) : Write F → Prop
  | .setMetric name value => s.SetsNumber name value
  | .incrMetric name delta => Countable PyObject.add s name delta
  | .decrMetric name delta => Countable PyObject.sub s name delta

/-! ### What a step keeps -/

variable {s t : Store F}

theorem numbersHeld_of_eq (h : s.NumbersHeld) (hm : t.metrics = s.metrics) (hp : t.metricprops = s.metricprops) :
    t.NumbersHeld := by
  intro n hn
  rw [getType, hp] at hn
  rw [hm]
  exact h n hn

/-- A metric that is stored keeps the rest as it is. -/
theorem numbersHeld_setStoreValue {n : Basestring} {v : PyObject F} (h : s.NumbersHeld) :
    (s.setStoreValue n v).NumbersHeld ↔ (s.getType n = some .number → v.Numeric) := by
  constructor
  · intro h' hn
    obtain ⟨v', hv', hnum⟩ := h' n hn
    rw [lookup_setStoreValue, if_pos rfl] at hv'
    rw [Option.some.inj hv']
    exact hnum
  · intro hv m hm
    rw [getType_setStoreValue] at hm
    rw [lookup_setStoreValue]
    by_cases hmn : m = n
    · rw [if_pos hmn]
      exact ⟨v, rfl, hv (hmn ▸ hm)⟩
    · rw [if_neg hmn]
      exact h m hm

/-- Counting keeps a number a number. -/
theorem numbersHeld_of_changed {op : PyObject F → PyObject F → Option (PyObject F)}
    (hop : ∀ {a b v : PyObject F}, a.Numeric → op a b = some v → v.Numeric) (h : s.NumbersHeld)
    (hc : Changed op s t) : t.NumbersHeld := by
  cases hc with
  | none => exact h
  | checked n value stored =>
    exact numbersHeld_of_eq h metrics_isNumberTypeMetric metricprops_isNumberTypeMetric
  | changed n value d v stored number result accepted =>
    have hchecked : (s.isNumberTypeMetric n value).1.NumbersHeld :=
      numbersHeld_of_eq h metrics_isNumberTypeMetric metricprops_isNumberTypeMetric
    refine (numbersHeld_setStoreValue hchecked).mpr fun hn => ?_
    rw [getType_isNumberTypeMetric] at hn
    obtain ⟨value', hvalue', hnum⟩ := h n hn
    rw [(getMetric_eq_some.mp stored).2] at hvalue'
    obtain rfl := Option.some.inj hvalue'
    exact hop hnum result
  | first n v missing ready accepted =>
    refine (numbersHeld_setStoreValue h).mpr fun hn => ?_
    obtain ⟨value, hvalue, -⟩ := h n hn
    rw [getMetric_eq_some.mpr ⟨ready, hvalue⟩] at missing
    cases missing

/-- **What a call keeps.** -/
theorem numbersHeld_after_iff (h : s.NumbersHeld) (w : Write F) :
    (s.after w).NumbersHeld ↔ ∀ name value, w = .setMetric name value → s.SetsNumber name value := by
  cases w with
  | setMetric name value =>
    have hset : (s.after (.setMetric name value)).NumbersHeld ↔ s.SetsNumber name value := by
      rcases setMetric_cases s name value with hs | ⟨n, v, rfl, rfl, hr, ha, hs⟩
      · rw [after, hs]
        refine iff_of_true h fun n v hn hv hr _ ha => ?_
        subst hn hv
        rw [setMetric_of_accepts hr ha] at hs
        cases (Prod.mk.inj hs).2
      · rw [after, hs, numbersHeld_setStoreValue h]
        constructor
        · intro hv n' v' hn hv' _ htype _
          cases hn
          cases hv'
          exact hv htype
        · exact fun hsets htype => hsets n v rfl rfl hr htype ha
    rw [hset]
    constructor
    · intro hs name' value' he
      cases he
      exact hs
    · exact fun hall => hall name value rfl
  | incrMetric name delta =>
    exact iff_of_true (numbersHeld_of_changed PyObject.numeric_of_add h (changeBy_cases ..)) nofun
  | decrMetric name delta =>
    exact iff_of_true (numbersHeld_of_changed PyObject.numeric_of_sub h (changeBy_cases ..)) nofun

/-! ### Which calls count -/

theorem isNumberTypeMetric_of_numeric {n : Basestring} {value : PyObject F} (hv : value.Numeric) :
    (s.isNumberTypeMetric n value).2 = true ↔ n ∈ s.numbertypeLookup ∨ n ∉ s.notnumbertypeLookup := by
  unfold isNumberTypeMetric
  by_cases h : n ∈ s.numbertypeLookup
  · simp [h]
  · by_cases h' : n ∈ s.notnumbertypeLookup
    · simp [h, h']
    · simp [h, h', PyObject.isNumber_of_numeric hv, PyObject.isBoolean_of_numeric hv]

variable {op : PyObject F → PyObject F → Option (PyObject F)}

theorem accepts_numeric {n : Basestring} {v : PyObject F} (hn : s.getType n = some .number) (hv : v.Numeric) :
    s.accepts n v = true := by
  simp [accepts, hn, PyObject.valueType_of_numeric hv]

theorem failed_ne_true (name : Option Basestring) : failed name ≠ .ok true := by
  intro h
  cases name with
  | none => cases h
  | some n =>
    rw [failed] at h
    cases hs : n.str with
    | error e =>
      rw [hs] at h
      cases h
    | ok x =>
      rw [hs] at h
      cases h

section Call

variable {n : Basestring} {value d : PyObject F} (first : Option (PyObject F))

/-- A store that is not ready counts nothing. -/
theorem changeBy_of_not_ready (hr : s.isReady = false) :
    s.changeBy op first (some n) (some d) = (s, .ok false) := by
  have hget : s.getMetric (some n) = none := by simp [getMetric, hr]
  have hset : s.setMetric (some n) first = (s, false) := by cases first <;> simp [setMetric, hr]
  simp only [changeBy, hget, hset]

variable (hget : s.getMetric (some n) = some value)
include hget

theorem changeBy_of_not_number (hm : (s.isNumberTypeMetric n value).2 = false) :
    (s.changeBy op first (some n) (some d)).2 = failed (some n) := by
  simp [changeBy, hget, hm]

variable (hm : (s.isNumberTypeMetric n value).2 = true) (hd : d.isNumber = true)
include hm hd

theorem changeBy_of_overflow (hv : op value d = none) :
    (s.changeBy op first (some n) (some d)).2 = failed (some n) := by
  simp only [changeBy, hget, hm, hd, Bool.and_self, if_true, hv]

theorem changeBy_of_result {v : PyObject F} (hv : op value d = some v) (ha : s.accepts n v = true) :
    s.changeBy op first (some n) (some d) = ((s.isNumberTypeMetric n value).1.setStoreValue n v, .ok true) := by
  have hset : (s.isNumberTypeMetric n value).1.setMetric (some n) (some v) =
      ((s.isNumberTypeMetric n value).1.setStoreValue n v, true) := by
    apply setMetric_of_accepts
    · rw [isReady_isNumberTypeMetric]
      exact (getMetric_eq_some.mp hget).1
    · rw [accepts_isNumberTypeMetric, ha]
  simp only [changeBy, hget, hm, hd, Bool.and_self, if_true, hv, hset]

end Call

/-- A call counts exactly if it can. -/
theorem counted_iff (hop : ∀ {a b v : PyObject F}, a.Numeric → op a b = some v → v.Numeric) (h : s.NumbersHeld)
    (first : Option (PyObject F)) (name : Option Basestring) (delta : Option (PyObject F)) :
    Counted op s (s.changeBy op first name delta) name delta ↔ Countable op s name delta := by
  refine forall₂_congr fun n d => forall₄_congr fun hname hdelta hn hd => ?_
  subst hname hdelta
  obtain ⟨value, hvalue, hnum⟩ := h n hn
  have hmemo := isNumberTypeMetric_of_numeric (s := s) (n := n) hnum
  have hd' := PyObject.isNumber_of_numeric hd
  cases hr : s.isReady with
  | false =>
    -- nothing is counted
    refine iff_of_false ?_ fun hc => Bool.false_ne_true hc.1
    rw [changeBy_of_not_ready first hr]
    intro hc
    cases hc.1
  | true =>
    have hget := getMetric_eq_some.mpr ⟨hr, hvalue⟩
    cases hm : (s.isNumberTypeMetric n value).2 with
    | false =>
      refine iff_of_false ?_ fun hc => ?_
      · rw [changeBy_of_not_number first hget hm]
        exact fun hc => failed_ne_true _ hc.1
      · rw [hmemo.mpr hc.2.1] at hm
        cases hm
    | true =>
      cases hv : op value d with
      | none =>
        refine iff_of_false ?_ fun hc => ?_
        · rw [changeBy_of_overflow first hget hm hd' hv]
          exact fun hc => failed_ne_true _ hc.1
        · have hsome := hc.2.2 value hvalue
          rw [hv] at hsome
          cases hsome
      | some v =>
        rw [changeBy_of_result first hget hm hd' hv (accepts_numeric hn (hop hnum hv))]
        refine iff_of_true ?_ ⟨rfl, hmemo.mp hm, fun value' hvalue' => ?_⟩
        · exact ⟨rfl, value, v, hvalue, hv, by rw [lookup_setStoreValue, if_pos rfl]⟩
        · rw [hvalue] at hvalue'
          obtain rfl := Option.some.inj hvalue'
          rw [hv]
          rfl

/-! ### Runs -/

variable {steps : List (Store F × Write F)}

theorem setsNumber_of_sound {w : Write F} (h : s.Sound w) (name : Option Basestring) (value : Option (PyObject F))
    (he : w = .setMetric name value) : s.SetsNumber name value := by
  subst he
  exact h

theorem counts_iff_sound {w : Write F} (h : s.NumbersHeld)
    (hset : ∀ name value, w = .setMetric name value → s.SetsNumber name value) : s.Counts w ↔ s.Sound w := by
  cases w with
  | setMetric name value => exact iff_of_true trivial (hset name value rfl)
  | incrMetric name delta => exact counted_iff PyObject.numeric_of_add h _ name delta
  | decrMetric name delta => exact counted_iff PyObject.numeric_of_sub h _ name delta

/-- **Every number metric holds a number and counts, exactly if it does to
begin with and every step is sound.** -/
theorem counting_iff (h : Run Writes s steps t) :
    (Throughout NumbersHeld steps t ∧ ∀ p ∈ steps, Counts p.1 p.2) ↔
      s.NumbersHeld ∧ ∀ p ∈ steps, Sound p.1 p.2 := by
  have hstep : ∀ (s : Store F) (w : Write F) (t : Store F), Writes s w t → s.NumbersHeld →
      (t.NumbersHeld ↔ ∀ name value, w = .setMetric name value → s.SetsNumber name value) := by
    rintro s w t rfl hs
    exact numbersHeld_after_iff hs w
  constructor
  · rintro ⟨hall, hcounts⟩
    have h0 := h.first hall
    have hset := (Run.invariant_iff hstep h h0).mp hall
    exact ⟨h0, fun p hp => (counts_iff_sound (hall.1 p hp) (hset p hp)).mp (hcounts p hp)⟩
  · rintro ⟨h0, hsound⟩
    have hset : ∀ p ∈ steps, ∀ name value, p.2 = .setMetric name value → p.1.SetsNumber name value :=
      fun p hp => setsNumber_of_sound (hsound p hp)
    have hall := (Run.invariant_iff hstep h h0).mpr hset
    exact ⟨hall, fun p hp => (counts_iff_sound (hall.1 p hp) (hset p hp)).mpr (hsound p hp)⟩

/-! ### A store that is initialised from a file -/

/-- No number metric is remembered as none. -/
def Unbarred (s : Store F) : Prop := ∀ n, s.getType n = some .number → n ∉ s.notnumbertypeLookup

theorem unbarred_isNumberTypeMetric {n : Basestring} {value : PyObject F} (h : s.Unbarred) (hs : s.NumbersHeld)
    (hv : s.metrics.lookup n = some value) : (s.isNumberTypeMetric n value).1.Unbarred := by
  intro m hm
  rw [getType_isNumberTypeMetric] at hm
  have hnot := h m hm
  by_cases hmn : m = n
  · subst hmn
    obtain ⟨v, hlookup, hnum⟩ := hs m hm
    rw [hv] at hlookup
    obtain rfl := Option.some.inj hlookup
    simp only [isNumberTypeMetric, hnot, if_false, PyObject.isNumber_of_numeric hnum,
      PyObject.isBoolean_of_numeric hnum, decide_true, Bool.and_self, if_true]
    split
    · exact hnot
    · exact hnot
  · unfold isNumberTypeMetric
    repeat' split
    · exact hnot
    · exact hnot
    · exact hnot
    · simp [hmn, hnot]

theorem unbarred_of_changed {op : PyObject F → PyObject F → Option (PyObject F)} (h : s.Unbarred)
    (hs : s.NumbersHeld) (hc : Changed op s t) : t.Unbarred := by
  cases hc with
  | none => exact h
  | checked n value stored => exact unbarred_isNumberTypeMetric h hs (getMetric_eq_some.mp stored).2
  | changed n value d v stored number result accepted =>
    exact unbarred_isNumberTypeMetric h hs (getMetric_eq_some.mp stored).2
  | first n v missing ready accepted => exact h

/-- While number metrics hold numbers, the lookup keeps none of them from
counting. -/
theorem unbarred_run (h : Run Writes s steps t) (h0 : s.Unbarred) (hall : Throughout NumbersHeld steps t) :
    Throughout Unbarred steps t := by
  have hstep : ∀ (s : Store F) (w : Write F) (t : Store F), Writes s w t → s.Unbarred → s.NumbersHeld →
      t.Unbarred := by
    rintro s w t rfl hs hn
    cases w with
    | setMetric name value =>
      rcases setMetric_cases s name value with he | ⟨n, v, -, -, -, -, he⟩
      · rw [after, he]
        exact hs
      · rw [after, he]
        exact hs
    | incrMetric name delta => exact unbarred_of_changed hs hn (changeBy_cases ..)
    | decrMetric name delta => exact unbarred_of_changed hs hn (changeBy_cases ..)
  exact @Run.invariant _ _ Writes Unbarred (fun s _ => s.NumbersHeld) _ _ _ hstep h h0 hall.1

theorem numbersHeld_added {n : Basestring} {v : PyObject F} {p : MetricProperties} (h : s.NumbersHeld)
    (hv : p.type = .number → v.Numeric) : (s.added n v p).NumbersHeld := by
  intro m hm
  rw [getType, props_added] at hm
  rw [lookup_added]
  by_cases hmn : m = n
  · rw [if_pos hmn] at hm ⊢
    exact ⟨v, rfl, hv (Option.some.inj hm)⟩
  · rw [if_neg hmn] at hm ⊢
    exact h m hm

theorem numbersHeld_addMetrics : ∀ {ms : List Metric} {s : Store F}, (∀ m ∈ ms, Ascii m.name) →
    (∀ m ∈ ms, m.properties.type = .number → ∃ k, m.value = .number k) → s.NumbersHeld → (addMetrics ms s).NumbersHeld
  | [], _, _, _, h => h
  | m :: ms, s, hascii, hnumber, h => by
    rw [addMetrics_cons (hascii m List.mem_cons_self)]
    apply numbersHeld_addMetrics
    · exact fun m hm => hascii m (List.mem_cons_of_mem _ hm)
    · exact fun m hm => hnumber m (List.mem_cons_of_mem _ hm)
    · split
      · refine numbersHeld_added h fun ht => ?_
        obtain ⟨k, hk⟩ := hnumber m List.mem_cons_self ht
        rw [hk]
        trivial
      · exact h

theorem number_of_getMetric {props : Properties} {name : Text} {m : Metric}
    (h : MetricsPropertiesReader.getMetric props name = .ok m) (ht : m.properties.type = .number) :
    ∃ k, m.value = .number k := by
  obtain ⟨p, -, h⟩ := bind_eq_ok.mp h
  obtain ⟨thetype, -, h⟩ := bind_eq_ok.mp h
  obtain ⟨v, hv, h⟩ := bind_eq_ok.mp h
  cases h
  change thetype = .number at ht
  rw [ht] at hv
  cases hn : MetricsPropertiesReader.getNumber (props.getProperty name) with
  | error e =>
    rw [MetricsPropertiesReader.validValue, hn] at hv
    cases hv
  | ok k =>
    rw [MetricsPropertiesReader.validValue, hn] at hv
    cases hv
    exact ⟨k, rfl⟩

/-- **From every file, the store begins so.** -/
theorem begins_of_file {props : Properties} {keySet : List Text} {items : List (Text × Metric)} {storename : Basestring}
    (hitems : items.Perm (MetricsPropertiesReader.getMetricsFromFile props keySet))
    (hinit : initMetricStore ({ storename } : Store F) (items.map (·.2)) = .ok s) : s.NumbersHeld ∧ s.Unbarred := by
  have hdefined := (MetricsPropertiesReader.defined_getMetricsFromFile props keySet).perm hitems
  have hnumber : ∀ m ∈ items.map (·.2), m.properties.type = .number → ∃ k, m.value = .number k := fun m hm =>
    number_of_getMetric (hdefined.getMetric_of_mem hm)
  rw [eq_of_initMetricStore hinit]
  refine ⟨numbersHeld_addMetrics (fun m => hdefined.ascii) hnumber nofun, fun n _ => ?_⟩
  rw [(lookups_addMetrics fun m => hdefined.ascii).2]
  exact List.not_mem_nil

/-! ### A counter -/

/-- The text of `n / 2`. -/
def halfText (n : ℕ) : Text := Nat.toDigits 10 (n / 2) ++ '.' :: (if n % 2 = 0 then ['0'] else ['5'])

theorem float_halfText (n : ℕ) :
    Plethoralib.float (halfText n) = true ∧ Plethoralib.float ('-' :: halfText n) = true := by
  have hdigits : ∀ c ∈ Nat.toDigits 10 (n / 2), c.isDigit = true := fun c hc => isDigit_of_mem_toDigits hc
  have hlast : ∀ c ∈ (if n % 2 = 0 then ['0'] else ['5']), c.isDigit = true := by split <;> decide
  refine float_of_digits (fun c hc => ?_) (fun c hc => ?_)
    (FloatText.decimal_point hdigits Nat.toDigits_ne_nil hlast)
  · rcases List.mem_append.mp hc with hc | hc
    · exact Or.inl (hdigits c hc)
    · rcases List.mem_cons.mp hc with rfl | hc
      · exact Or.inr rfl
      · exact Or.inl (hlast c hc)
  · rw [halfText, List.head?_append_of_ne_nil _ Nat.toDigits_ne_nil] at hc
    exact hdigits c (List.mem_of_mem_head? hc)

/-- Halves, which are floating-point numbers as long as they are not large. -/
def halves : Floats where
  carrier := ℤ
  str n := if n < 0 then '-' :: halfText n.natAbs else halfText n.natAbs
  reads n := by
    split
    · exact (float_halfText _).2
    · exact (float_halfText _).1
  ofInt n := some (2 * n)
  add := (· + ·)
  sub := (· - ·)

def rateName : Basestring := .unicode "rate".toList

/-- A store that is initialised from a file with the line `rate=5`. -/
def counter : Store halves where
  storename := .unicode "plethora".toList
  metrics := [(versionName, .text version), (rateName, .int 5)]
  metricprops := [(rateName, { displayname := "rate".toList, type := .number })]

theorem counter_initialised :
    ({ storename := .unicode "plethora".toList } : Store halves).initMetricStore
      ((MetricsPropertiesReader.getMetricsFromFile (oneLine "rate".toList "5".toList) ["rate".toList]).map (·.2)) =
        .ok counter := by
  rfl

/-- It is set to a number, and incremented by another. -/
def setAndIncr (v d : PyObject halves) : List (Write halves) :=
  [.setMetric (some rateName) (some v), .incrMetric (some rateName) (some d)]

/-- One and a half. -/
def oneAndHalf : PyObject halves := .float (3 : ℤ)

theorem counting_iff_counter :
    (Throughout NumbersHeld (stepsOf after counter (setAndIncr (.int 7) oneAndHalf))
        ((setAndIncr (.int 7) oneAndHalf).foldl after counter) ∧
      ∀ p ∈ stepsOf after counter (setAndIncr (.int 7) oneAndHalf), Counts p.1 p.2) ∧
    ((setAndIncr (.int 7) oneAndHalf).foldl after counter).metrics.lookup rateName = some (.float (17 : ℤ)) := by
  have hbegins := begins_of_file (List.Perm.refl _) counter_initialised
  refine ⟨(counting_iff (Run.of_next writes_after counter _)).mpr ⟨hbegins.1, fun p hp => ?_⟩, rfl⟩
  rcases List.mem_cons.mp hp with rfl | hp
  · intro n v hn hv _ _ _
    cases hn
    cases hv
    trivial
  · rw [List.mem_singleton.mp hp]
    intro n d hn hd _ _
    cases hn
    cases hd
    refine ⟨rfl, Or.inr List.not_mem_nil, fun value hvalue => ?_⟩
    cases hvalue
    rfl

/-- Set to the text `7`, the metric no longer counts. -/
theorem counter_stopped :
    ¬ (∀ (F : Floats) (props : Properties) (keySet : List Text) (items : List (Text × Metric)) (storename : Basestring)
        (s t : Store F) (steps : List (Store F × Write F)),
      items.Perm (MetricsPropertiesReader.getMetricsFromFile props keySet) →
      ({ storename } : Store F).initMetricStore (items.map (·.2)) = .ok s → Run Writes s steps t →
      Throughout NumbersHeld steps t ∧ ∀ p ∈ steps, Counts p.1 p.2) ∧
    (counter.setMetric (some rateName) (some (.text (.unicode "7".toList)))).2 = true ∧
    ((counter.setMetric (some rateName) (some (.text (.unicode "7".toList)))).1.incrMetric (some rateName)
      (some (.int 1))).2 = .ok false := by
  have hset : (counter.setMetric (some rateName) (some (.text (.unicode "7".toList)))).2 = true := rfl
  have hincr : ((counter.setMetric (some rateName) (some (.text (.unicode "7".toList)))).1.incrMetric (some rateName)
      (some (.int 1))).2 = .ok false := rfl
  refine ⟨fun h => ?_, hset, hincr⟩
  have hclaim := (h halves _ _ _ _ _ _ _ (List.Perm.refl _) counter_initialised
    (Run.of_next writes_after counter (setAndIncr (.text (.unicode "7".toList)) (.int 1)))).2 _
    (List.mem_cons_of_mem _ List.mem_cons_self)
  have htrue := (hclaim rateName (.int 1) rfl rfl rfl trivial).1
  cases hincr.symm.trans htrue

end Store

end Plethoralib

end Plethora
