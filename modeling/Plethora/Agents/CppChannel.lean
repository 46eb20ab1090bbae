/-
# The metrics of a C++ agent and their types

`Channel` and `Metrics`. The store keeps pointers to `BaseMetric`, and what the
type of a metric is was settled when it was added: by its configuration, or
from its first value. The accessors look a metric up by its name, and cast it
down to the type of the accessor. Where that is not the metric's own, the
behaviour of the program is undefined.

`getTextMetric` returns a pointer into a string that ends with the call, so
what it points to is undefined whatever the metric is; and so is a sum that is
no `long`. Another call is defined exactly if it is of the type of the metric it
names, or names none. The types in a store do not change, so for that the store
that the calls begin with decides.

Key definitions: `Cpp.Channel.addMetric`, `Cpp.Metrics.setValue`, `Cpp.Operation.perform`,
`Cpp.Safe`, `Cpp.Matches`, `Cpp.Fits`, `Cpp.Operation.lasting`.
Key theorems: `Cpp.perform_of_mismatch`, `Cpp.safe_iff`, `Cpp.downcasts_iff`.
-/
import Plethora.Agents.CppHandler
import Plethora.Lib.Runs

namespace Plethora

namespace Cpp

/-! ### Adding metrics -/

namespace Autil

def isNumeric (t : Text) : Bool := decide (t ≠ []) && t.all Char.isDigit

def isBoolean (t : Text) : Bool :=
  t ∈ ["TRUE", "true", "FALSE", "false", "1", "0", "YES", "yes", "NO", "no"].map String.toList

def getBool (t : Text) : Bool := t ∈ ["TRUE", "true", "YES", "yes", "1"].map String.toList

/-- The number that the digits at the front of a text show. -/
def leading (t : Text) : ℕ := (t.takeWhile Char.isDigit).foldl (fun n c => 10 * n + (c.toNat - 48)) 0

/-- `atoi`: a number that is too large ends at the bounds of a `long`, and is
cut off to an `int`. -/
def getNumber (t : Text) : Int64 :=
  let number : ℤ :=
    match t.dropWhile fun c => c = ' ' || (9 ≤ c.toNat && c.toNat ≤ 13) with
    | '-' :: t => -leading t
    | '+' :: t => leading t
    | t => leading t
  (Int32.ofInt (max (-2 ^ 63) (min number (2 ^ 63 - 1)))).toInt64

end Autil

namespace Channel

def valueType (textvalue : Text) : MetricType :=
  if Autil.isNumeric textvalue then .number else if Autil.isBoolean textvalue then .boolean else .text

/-- The type that `addMetric` settles on, `none` for `UNKNOWN_TYPE`. -/
def theType (type : Option MetricType) (textvalue : Text) : Option MetricType :=
  if type = some .unspecified ∨ type = some .invalid then some (valueType textvalue) else type

def firstValue (type : Option MetricType) (textvalue : Text) : Value :=
  match theType type textvalue with
  | some .boolean => .boolean (Autil.getBool textvalue)
  | some .number => .number (Autil.getNumber textvalue)
  | _ => .text textvalue

/-- The metric that `addMetric` makes. -/
def addMetric (name textvalue : Text) (type : Option MetricType) (props : MetricProperties) : BaseMetric where
  name
  value := firstValue type textvalue
  properties := { props with type := (firstValue type textvalue).resolveType }
  resolved := rfl

/-- A metric is of the type that it is declared with, or that its first value
shows. -/
theorem addMetric_type (name : Text) {textvalue : Text} {type : Option MetricType} {t : MetricType}
    (props : MetricProperties) (h : theType type textvalue = some t) (ht : t = .number ∨ t = .text ∨ t = .boolean) :
    (addMetric name textvalue type props).value.resolveType = t := by
  simp only [addMetric, firstValue, h]
  rcases ht with rfl | rfl | rfl
  · rfl
  · rfl
  · rfl

end Channel

namespace Metrics

/-- `std::map::insert`: a metric that is there stays. -/
def insertMetric (m : BaseMetric) : List BaseMetric → List BaseMetric
  | [] => [m]
  | x :: metrics =>
    if m.name = x.name then x :: metrics
    else if before m.name x.name then m :: x :: metrics
    else x :: insertMetric m metrics

theorem names_insertMetric (m : BaseMetric) : ∀ metrics : List BaseMetric,
    (insertMetric m metrics).map (·.name) =
      Ordered.insertKey (fun a b => before a b = true) m.name (metrics.map (·.name))
  | [] => rfl
  | x :: metrics => by
    rw [insertMetric, List.map_cons, Ordered.insertKey, ← names_insertMetric m metrics]
    simp only [apply_ite (List.map BaseMetric.name), List.map_cons]

theorem sorted_insertMetric (m : BaseMetric) {metrics : List BaseMetric}
    (h : (metrics.map (·.name)).Pairwise fun a b => before a b = true) :
    ((insertMetric m metrics).map (·.name)).Pairwise fun a b => before a b = true := by
  rw [names_insertMetric]
  exact Ordered.pairwise_insertKey (fun a b => before a b = true) before_trans before_total m.name h

def addMetric (s : Store) (m : BaseMetric) : Store := ⟨insertMetric m s.metrics, sorted_insertMetric m s.sorted⟩

end Metrics

/-! ### The accessors -/

/-- The store with this metric for the one of its name. -/
def Store.replace (s : Store) (m : BaseMetric) : Store where
  metrics := s.metrics.map fun x => if x.name = m.name then m else x
  sorted := by
    have hnames : (s.metrics.map fun x => if x.name = m.name then m else x).map (·.name) = s.metrics.map (·.name) := by
      rw [List.map_map]
      apply List.map_congr_left
      intro x _
      simp only [Function.comp_apply]
      split
      · rename_i hx
        exact hx.symm
      · rfl
    rw [hnames]
    exact s.sorted

/-- `((Metric<long>*) m)->getValue()`, `none` where the behaviour is undefined. -/
def Value.asNumber : Value → Option Int64
  | .number v => some v
  | _ => none

def Value.asText : Value → Option Text
  | .text v => some v
  | _ => none

def Value.asBool : Value → Option Bool
  | .boolean v => some v
  | _ => none

/-- `Metric<T>::setValue`, after the downcast to the type of the value. -/
def BaseMetric.setValue (m : BaseMetric) (value : Value) : Option BaseMetric :=
  if h : m.value.resolveType = value.resolveType then some { m with value, resolved := m.resolved.trans h } else none

namespace Metrics

variable (s : Store) (name : Text)

/-- What the getters share: a metric that is there is cast down. -/
def get {α : Type} (downcast : Value → Option α) (failure : α) : Option α :=
  match s.getMetric name with
  | none => some failure
  | some m => downcast m.value

def getNumber : Option Int64 := get s name Value.asNumber 0

def getText : Option Text := get s name Value.asText []

def getBool : Option Bool := get s name Value.asBool false

/-- The three `setValue`, each for the values of one type. -/
def setValue (value : Value) : Option (Store × Bool) :=
  match s.getMetric name with
  | none => some (s, false)
  | some m => (m.setValue value).map fun m' => (s.replace m', true)

end Metrics

namespace Channel

variable (s : Store) (name : Text)

/-- The three `setMetric`. -/
def setMetric (value : Value) : Option (Store × Bool) := Metrics.setValue s name value

/-- A result of arithmetic in `long`; overflow is undefined. -/
def inLong (n : ℤ) : Option Int64 := if -2 ^ 63 ≤ n ∧ n < 2 ^ 63 then some (Int64.ofInt n) else none

def plus (delta value : Int64) : Option Int64 := inLong (value.toInt + delta.toInt)

def minus (delta value : Int64) : Option Int64 := inLong (value.toInt - delta.toInt)

/-- What `incrMetric` and `decrMetric` share. -/
def changeMetric (change : Int64 → Option Int64) : Option (Store × Bool) := do
  let value ← Metrics.getNumber s name
  let changed ← change value
  Metrics.setValue s name (.number changed)

def incrMetric (delta : Int64) : Option (Store × Bool) := changeMetric s name (plus delta)

def decrMetric (delta : Int64) : Option (Store × Bool) := changeMetric s name (minus delta)

def getNumberMetric : Option Int64 := Metrics.getNumber s name

/-- The characters at `c_str()` of a temporary string, when it is gone. -/
def dangling (_ : Text) : Option Text := none

def getTextMetric : Option Text := (Metrics.getText s name).bind dangling

def getBooleanMetric : Option Bool := Metrics.getBool s name

end Channel

/-! ### Calls -/

/-- A call of a public method of `Channel`. -/
inductive Operation
  | setMetric (name : Text) (value : Value)
  | incrMetric (name : Text) (delta : Int64)
  | decrMetric (name : Text) (delta : Int64)
  | getNumberMetric (name : Text)
  | getTextMetric (name : Text)
  | getBooleanMetric (name : Text)

/-- What a call returns. -/
inductive Result
  | success (b : Bool)
  | number (n : Int64)
  | text (t : Text)
  | boolean (b : Bool)
  deriving DecidableEq

namespace Operation

def name : Operation → Text
  | setMetric name _ => name
  | incrMetric name _ => name
  | decrMetric name _ => name
  | getNumberMetric name => name
  | getTextMetric name => name
  | getBooleanMetric name => name

/-- The type of metric that a call is for. -/
def type : Operation → MetricType
  | setMetric _ value => value.resolveType
  | incrMetric _ _ => .number
  | decrMetric _ _ => .number
  | getNumberMetric _ => .number
  | getTextMetric _ => .text
  | getBooleanMetric _ => .boolean

/-- What a call makes of the number it reads. -/
def change : Operation → Int64 → Option Int64
  | incrMetric _ delta => Channel.plus delta
  | decrMetric _ delta => Channel.minus delta
  | setMetric _ _ | getNumberMetric _ | getTextMetric _ | getBooleanMetric _ => some

/-- What a call returns outlives the call. -/
def lasting : Operation → Bool
  | getTextMetric _ => false
  | setMetric _ _ | incrMetric _ _ | decrMetric _ _ | getNumberMetric _ | getBooleanMetric _ => true

/-- What a call returns on failure, by its documentation. -/
def failure : Operation → Result
  | setMetric _ _ => .success false
  | incrMetric _ _ => .success false
  | decrMetric _ _ => .success false
  | getNumberMetric _ => .number 0
  | getTextMetric _ => .text []
  | getBooleanMetric _ => .boolean false

/-- What a call does, `none` if its behaviour is undefined. -/
def perform (s : Store) : Operation → Option (Store × Result)
  | setMetric name value => (Channel.setMetric s name value).map fun r => (r.1, .success r.2)
  | incrMetric name delta => (Channel.incrMetric s name delta).map fun r => (r.1, .success r.2)
  | decrMetric name delta => (Channel.decrMetric s name delta).map fun r => (r.1, .success r.2)
  | getNumberMetric name => (Channel.getNumberMetric s name).map fun n => (s, .number n)
  | getTextMetric name => (Channel.getTextMetric s name).map fun t => (s, .text t)
  | getBooleanMetric name => (Channel.getBooleanMetric s name).map fun b => (s, .boolean b)

end Operation

open Operation

/-- What is claimed of a call: its downcasts are to the metric's own type, so
that it is defined; one of another type fails and changes nothing; and it
changes no metric but the one it names. -/
def Safe (s : Store) (op : Operation) : Prop :=
  ∃ t r, op.perform s = some (t, r) ∧
    (∀ m, s.getMetric op.name = some m → m.value.resolveType ≠ op.type → t = s ∧ r = op.failure) ∧
    ∀ n, n ≠ op.name → t.getMetric n = s.getMetric n

/-- If there is a metric of this name, it is of the type of the call. -/
def Matches (s : Store) (op : Operation) : Prop :=
  ∀ m, s.getMetric op.name = some m → m.value.resolveType = op.type

/-- A number that the call changes stays a `long`. -/
def Fits (s : Store) (op : Operation) : Prop :=
  ∀ value, Metrics.getNumber s op.name = some value → (op.change value).isSome = true

/-- What a call leaves: anything, if it is undefined. -/
def Does (s : Store) (op : Operation) (t : Store) : Prop := ∀ t' r, op.perform s = some (t', r) → t = t'

/-! ### What a call does -/

theorem getMetric_name {s : Store} {n : Text} {m : BaseMetric} (h : s.getMetric n = some m) : m.name = n := by
  simpa using List.find?_some h

theorem find_replace (m : BaseMetric) (n : Text) : ∀ metrics : List BaseMetric,
    (metrics.map fun x => if x.name = m.name then m else x).find? (fun x => decide (x.name = n)) =
      (metrics.find? fun x => decide (x.name = n)).map fun x => if n = m.name then m else x
  | [] => rfl
  | x :: metrics => by
    have ih := find_replace m n metrics
    rw [List.map_cons, List.find?_cons, List.find?_cons]
    by_cases hx : x.name = m.name
    · rw [if_pos hx, hx]
      by_cases hn : m.name = n
      · simp [hn]
      · simp [hn, ih]
    · rw [if_neg hx]
      by_cases hn : x.name = n
      · have hnm : n ≠ m.name := fun he => hx (hn.trans he)
        simp [hn, hnm]
      · simp [hn, ih]

variable {s t u : Store} {op : Operation} {m m' : BaseMetric} {n : Text} {v : Value}

theorem getMetric_replace : (s.replace m).getMetric n = (s.getMetric n).map fun x => if n = m.name then m else x :=
  find_replace m n s.metrics

/-- A downcast to this type. -/
def IsDowncast {α : Type} (downcast : Value → Option α) (type : MetricType) : Prop :=
  ∀ v, downcast v = none ↔ v.resolveType ≠ type

theorem isDowncast_asNumber : IsDowncast Value.asNumber .number := by
  intro v
  cases v <;> simp [Value.asNumber, Value.resolveType]

theorem isDowncast_asBool : IsDowncast Value.asBool .boolean := by
  intro v
  cases v <;> simp [Value.asBool, Value.resolveType]

section Missing

variable (h : s.getMetric n = none)
include h

theorem Metrics.get_of_missing {α : Type} (downcast : Value → Option α) (failure : α) :
    Metrics.get s n downcast failure = some failure := by
  rw [Metrics.get, h]

theorem Metrics.setValue_of_missing (v : Value) : Metrics.setValue s n v = some (s, false) := by
  rw [Metrics.setValue, h]

theorem Channel.changeMetric_of_missing {change : Int64 → Option Int64}
    (hfits : ∀ value, Metrics.getNumber s n = some value → (change value).isSome = true) :
    Channel.changeMetric s n change = some (s, false) := by
  have hget : Metrics.getNumber s n = some 0 := Metrics.get_of_missing h _ _
  obtain ⟨changed, hchanged⟩ := Option.isSome_iff_exists.mp (hfits 0 hget)
  simp only [Channel.changeMetric, hget, Option.bind_eq_bind, Option.bind_some, hchanged]
  exact Metrics.setValue_of_missing h _

end Missing

section Stored

variable (h : s.getMetric n = some m)
include h

theorem Metrics.get_of_matches {α : Type} {downcast : Value → Option α} {type : MetricType} (failure : α)
    (hd : IsDowncast downcast type) (ht : m.value.resolveType = type) : ∃ a, Metrics.get s n downcast failure = some a := by
  unfold Metrics.get
  rw [h]
  cases hv : downcast m.value with
  | none => exact absurd ht ((hd _).mp hv)
  | some a => exact ⟨a, hv⟩

theorem Metrics.get_of_mismatch {α : Type} {downcast : Value → Option α} {type : MetricType} (failure : α)
    (hd : IsDowncast downcast type) (ht : m.value.resolveType ≠ type) : Metrics.get s n downcast failure = none := by
  rw [Metrics.get, h]
  exact (hd _).mpr ht

theorem Metrics.setValue_of_matches (ht : m.value.resolveType = v.resolveType) :
    ∃ m', m'.name = n ∧ m'.value = v ∧ Metrics.setValue s n v = some (s.replace m', true) := by
  have hset : m.setValue v = some { m with value := v, resolved := m.resolved.trans ht } := dif_pos ht
  have hname : m.name = n := getMetric_name h
  refine ⟨{ m with value := v, resolved := m.resolved.trans ht }, hname, rfl, ?_⟩
  rw [Metrics.setValue, h]
  simp only [hset, Option.map_some]

theorem Metrics.setValue_of_mismatch (ht : m.value.resolveType ≠ v.resolveType) : Metrics.setValue s n v = none := by
  have hset : m.setValue v = none := dif_neg ht
  rw [Metrics.setValue, h]
  simp only [hset, Option.map_none]

theorem Channel.changeMetric_of_matches {change : Int64 → Option Int64} (ht : m.value.resolveType = .number)
    (hfits : ∀ value, Metrics.getNumber s n = some value → (change value).isSome = true) :
    ∃ m', m'.name = n ∧ m'.value.resolveType = .number ∧
      Channel.changeMetric s n change = some (s.replace m', true) := by
  obtain ⟨value, hget⟩ : ∃ value, Metrics.getNumber s n = some value :=
    Metrics.get_of_matches h 0 isDowncast_asNumber ht
  obtain ⟨changed, hchanged⟩ := Option.isSome_iff_exists.mp (hfits value hget)
  have hmatch : m.value.resolveType = (Value.number changed).resolveType := ht
  obtain ⟨m', hname, hvalue, hset⟩ := Metrics.setValue_of_matches h hmatch
  refine ⟨m', hname, congrArg _ hvalue, ?_⟩
  simp only [Channel.changeMetric, hget, Option.bind_eq_bind, Option.bind_some, hchanged]
  exact hset

theorem Channel.changeMetric_of_mismatch (change : Int64 → Option Int64) (ht : m.value.resolveType ≠ .number) :
    Channel.changeMetric s n change = none := by
  rw [Channel.changeMetric, Metrics.getNumber, Metrics.get_of_mismatch h 0 isDowncast_asNumber ht]
  rfl

end Stored

/-- What the pointer to a text is to is undefined. -/
theorem perform_of_not_lasting (h : op.lasting = false) : op.perform s = none := by
  cases op with
  | getTextMetric n =>
    show (Channel.getTextMetric s n).map _ = none
    unfold Channel.getTextMetric
    cases Metrics.getText s n <;> rfl
  | setMetric | incrMetric | decrMetric | getNumberMetric | getBooleanMetric => cases h

theorem Channel.changeMetric_of_overflow {change : Int64 → Option Int64} {value : Int64}
    (hget : Metrics.getNumber s n = some value) (hnone : change value = none) : Channel.changeMetric s n change = none := by
  simp only [Channel.changeMetric, hget, Option.bind_eq_bind, Option.bind_some, hnone, Option.bind_none]

/-- So is a sum that is no `long`. -/
theorem perform_of_not_fits (h : ¬ Fits s op) : op.perform s = none := by
  obtain ⟨value, hget, hnone⟩ : ∃ value, Metrics.getNumber s op.name = some value ∧ op.change value = none := by
    simpa [Fits] using h
  cases op with
  | incrMetric n d => exact congrArg (Option.map _) (Channel.changeMetric_of_overflow hget hnone)
  | decrMetric n d => exact congrArg (Option.map _) (Channel.changeMetric_of_overflow hget hnone)
  | setMetric | getNumberMetric | getTextMetric | getBooleanMetric => cases hnone

/-- A call on no metric fails. -/
theorem perform_of_missing (hl : op.lasting = true) (hfits : Fits s op) (h : s.getMetric op.name = none) :
    op.perform s = some (s, op.failure) := by
  cases op with
  | setMetric n v => exact congrArg (Option.map _) (Metrics.setValue_of_missing h v)
  | incrMetric n d => exact congrArg (Option.map _) (Channel.changeMetric_of_missing h hfits)
  | decrMetric n d => exact congrArg (Option.map _) (Channel.changeMetric_of_missing h hfits)
  | getNumberMetric n => exact congrArg (Option.map _) (Metrics.get_of_missing h _ _)
  | getTextMetric n => cases hl
  | getBooleanMetric n => exact congrArg (Option.map _) (Metrics.get_of_missing h _ _)

/-- **A call on a metric of another type is undefined.** -/
theorem perform_of_mismatch (h : s.getMetric op.name = some m) (ht : m.value.resolveType ≠ op.type) :
    op.perform s = none := by
  cases op with
  | setMetric n v => exact congrArg (Option.map _) (Metrics.setValue_of_mismatch h ht)
  | incrMetric n d => exact congrArg (Option.map _) (Channel.changeMetric_of_mismatch h _ ht)
  | decrMetric n d => exact congrArg (Option.map _) (Channel.changeMetric_of_mismatch h _ ht)
  | getNumberMetric n => exact congrArg (Option.map _) (Metrics.get_of_mismatch h _ isDowncast_asNumber ht)
  | getTextMetric n => exact perform_of_not_lasting rfl
  | getBooleanMetric n => exact congrArg (Option.map _) (Metrics.get_of_mismatch h _ isDowncast_asBool ht)

/-- What a call does to the store: it changes at most the value of the metric
it names, to another of the type. -/
inductive Changes (s : Store) (op : Operation) : Store → Prop
  | same : Changes s op s
  | value (m' : BaseMetric) (name : m'.name = op.name) (type : m'.value.resolveType = op.type) :
      Changes s op (s.replace m')

/-- A call on a metric of its type is defined. -/
theorem perform_of_matches (hl : op.lasting = true) (hfits : Fits s op) (h : s.getMetric op.name = some m)
    (ht : m.value.resolveType = op.type) :
    ∃ t r, op.perform s = some (t, r) ∧ Changes s op t := by
  cases op with
  | setMetric n v =>
    obtain ⟨m', hname, hvalue, hset⟩ := Metrics.setValue_of_matches h ht
    exact ⟨s.replace m', .success true, congrArg (Option.map _) hset, .value m' hname (congrArg _ hvalue)⟩
  | incrMetric n d =>
    obtain ⟨m', hname, htype, hset⟩ := Channel.changeMetric_of_matches h ht hfits
    exact ⟨s.replace m', .success true, congrArg (Option.map _) hset, .value m' hname htype⟩
  | decrMetric n d =>
    obtain ⟨m', hname, htype, hset⟩ := Channel.changeMetric_of_matches h ht hfits
    exact ⟨s.replace m', .success true, congrArg (Option.map _) hset, .value m' hname htype⟩
  | getNumberMetric n =>
    obtain ⟨value, hget⟩ := Metrics.get_of_matches h 0 isDowncast_asNumber ht
    exact ⟨s, .number value, congrArg (Option.map _) hget, .same⟩
  | getTextMetric n => cases hl
  | getBooleanMetric n =>
    obtain ⟨value, hget⟩ := Metrics.get_of_matches h false isDowncast_asBool ht
    exact ⟨s, .boolean value, congrArg (Option.map _) hget, .same⟩

/-- What makes a call safe, but for the type: what it returns outlives it, and
a number it changes stays a `long`. -/
def Sound (s : Store) (op : Operation) : Prop := op.lasting = true ∧ Fits s op

/-- **A sound call is safe exactly if it is of the type of its metric.** -/
theorem safe_iff : Safe s op ↔ Sound s op ∧ Matches s op := by
  constructor
  · rintro ⟨t, r, hperform, -, -⟩
    refine ⟨⟨?_, ?_⟩, fun m hm => ?_⟩
    · by_contra hl
      rw [perform_of_not_lasting (Bool.eq_false_iff.mpr hl)] at hperform
      cases hperform
    · by_contra hfits
      rw [perform_of_not_fits hfits] at hperform
      cases hperform
    · by_contra ht
      rw [perform_of_mismatch hm ht] at hperform
      cases hperform
  · rintro ⟨⟨hl, hfits⟩, hmatch⟩
    cases hm : s.getMetric op.name with
    | none =>
      exact ⟨s, op.failure, perform_of_missing hl hfits hm, fun m hm' _ => ⟨rfl, rfl⟩, fun _ _ => rfl⟩
    | some m =>
      obtain ⟨t, r, hperform, hchanges⟩ := perform_of_matches hl hfits hm (hmatch m hm)
      refine ⟨t, r, hperform, fun m' hm' hne => absurd (hmatch m' hm') hne, fun n hn => ?_⟩
      cases hchanges with
      | same => rfl
      | value m' hname htype =>
        rw [getMetric_replace, hname]
        simp only [if_neg hn, Option.map_id']

/-! ### Runs -/

/-- The types of the metrics in two stores are the same. -/
def SameTypes (s t : Store) : Prop :=
  ∀ n, (t.getMetric n).map (fun m => m.value.resolveType) = (s.getMetric n).map fun m => m.value.resolveType

theorem SameTypes.matches_iff (h : SameTypes s t) : Matches t op ↔ Matches s op := by
  have hn := h op.name
  unfold Matches
  cases hs : s.getMetric op.name with
  | none =>
    rw [hs, Option.map_none, Option.map_eq_none_iff] at hn
    rw [hn]
  | some m =>
    rw [hs, Option.map_some, Option.map_eq_some_iff] at hn
    obtain ⟨m', hm', htype⟩ := hn
    rw [hm']
    simp only [Option.some.injEq, forall_eq', htype]

/-- A call of the type of its metric keeps all types. -/
theorem sameTypes_of_does (hsound : Sound s op) (hmatch : Matches s op) (h : Does s op t) : SameTypes s t := by
  obtain ⟨hl, hfits⟩ := hsound
  intro n
  cases hm : s.getMetric op.name with
  | none => rw [h s op.failure (perform_of_missing hl hfits hm)]
  | some m =>
    obtain ⟨t', r, hperform, hchanges⟩ := perform_of_matches hl hfits hm (hmatch m hm)
    rw [h t' r hperform]
    cases hchanges with
    | same => rfl
    | value m' hname htype =>
      rw [getMetric_replace]
      by_cases hn : n = op.name
      · rw [hn, hm, Option.map_some, Option.map_some, Option.map_some, if_pos hname.symm, htype, hmatch m hm]
      · simp only [hname, if_neg hn, Option.map_id']

/-- **All calls of a run are safe exactly if each is of the type that its
metric has in the store they begin with**, and sound where it is made. -/
theorem downcasts_iff {steps : List (Store × Operation)} (h : Run Does s steps t) :
    (∀ p ∈ steps, Safe p.1 p.2) ↔ ∀ p ∈ steps, Sound p.1 p.2 ∧ Matches s p.2 := by
  have hrun : ∀ {s₀ : Store}, SameTypes s₀ s →
      ((∀ p ∈ steps, Safe p.1 p.2) ↔ ∀ p ∈ steps, Sound p.1 p.2 ∧ Matches s₀ p.2) := by
    induction h with
    | nil s => exact fun _ => iff_of_true nofun nofun
    | cons step rest ih =>
      rename_i s t u op steps
      intro s₀ hsame
      rw [List.forall_mem_cons, List.forall_mem_cons, safe_iff, hsame.matches_iff]
      refine and_congr_right fun hsafe => ih ?_
      have hkept := sameTypes_of_does hsafe.1 (hsame.matches_iff.mpr hsafe.2) step
      exact fun n => (hkept n).trans (hsame n)
  exact hrun fun _ => rfl

/-- A store with the lines `note : x` and `rate : 5`. -/
def configured : Store :=
  Metrics.addMetric (Metrics.addMetric ⟨[], .nil⟩ (Channel.addMetric "rate".toList "5".toList (some .unspecified)
    { type := .unspecified })) (Channel.addMetric "note".toList "x".toList (some .unspecified) { type := .unspecified })

/-- The store after a call, if that is defined. -/
def leaves (s : Store) (op : Operation) : Store := ((op.perform s).map Prod.fst).getD s

theorem does_leaves (s : Store) (op : Operation) : Does s op (leaves s op) := by
  intro t r h
  rw [leaves, h]
  rfl

/-- Calls on a number, a text and no metric, each of the right type. -/
def typedCalls : List Operation :=
  [.incrMetric "rate".toList 2, .setMetric "note".toList (.text "y".toList), .getBooleanMetric "up".toList]

theorem downcasts_iff_configured : (stepsOf leaves configured typedCalls).Forall fun p => Safe p.1 p.2 := by
  rw [List.forall_iff_forall_mem]
  refine (downcasts_iff (Run.of_next does_leaves configured typedCalls)).mpr fun p hp => ?_
  rcases List.mem_cons.mp hp with rfl | hp
  · refine ⟨⟨rfl, fun value hv => ?_⟩, fun m hm => ?_⟩
    · obtain rfl : 5 = value := Option.some.inj hv
      decide
    · cases hm
      rfl
  · rcases List.mem_cons.mp hp with rfl | hp
    · refine ⟨⟨rfl, fun value hv => rfl⟩, fun m hm => ?_⟩
      cases hm
      rfl
    · rw [List.mem_singleton.mp hp]
      refine ⟨⟨rfl, fun value hv => rfl⟩, fun m hm => ?_⟩
      cases hm

/-- A text for a number: the call casts the metric to one of texts. And the
text of a text metric cannot be read. -/
theorem text_for_number :
    ¬ (∀ (s t : Store) (steps : List (Store × Operation)), Run Does s steps t → ∀ p ∈ steps, Safe p.1 p.2) ∧
    (configured.getMetric "rate".toList).map (fun m => m.value.resolveType) = some .number ∧
    (Operation.setMetric "rate".toList (.text "fast".toList)).perform configured = none ∧
    (Operation.getTextMetric "note".toList).perform configured = none := by
  have hundefined : (Operation.setMetric "rate".toList (.text "fast".toList)).perform configured = none := rfl
  refine ⟨fun h => ?_, rfl, hundefined, perform_of_not_lasting rfl⟩
  obtain ⟨t, r, hperform, -⟩ :=
    h configured _ _ (Run.of_next does_leaves configured [.setMetric "rate".toList (.text "fast".toList)]) _
      List.mem_cons_self
  rw [hundefined] at hperform
  cases hperform

end Cpp

end Plethora
