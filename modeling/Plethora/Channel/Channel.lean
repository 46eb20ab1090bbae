/-
# A channel's number metrics

`Channel` of the Java client and `ChannelMetrics`: an application sets its
metrics, and increments and decrements those that hold a number. A number
metric is one whose value is a `Long`, as `getNumberValue` tests it; any other
is left alone by the increments and decrements, which then return false.

Calls on number metrics keep them number metrics, so every call returns true,
and what a metric holds is its last set value, or the one it started with, plus
what was added since. But `decrMetric(name)` is `incrMetric(name, 1)`: a metric
counts what it should exactly if the decrements by one since its value was
last set come to nothing modulo 2^64 (`counts_iff`).

Key definitions: `ChannelMetrics.getNumberValue`, `Channel.incrMetricBy`,
`Channel.decrMetric`, `Channel.run`, `Channel.expected`, `Channel.Counts`.
Key theorems: `getNumberMetric_run`, `counts_iff`.
-/
import Plethora.Channel.PropertiesMetricsReader
import Mathlib.Algebra.Ring.Int.Defs
import Mathlib.Data.List.DropRight

namespace Plethora

/-- `ChannelMetrics.getNumberValue`. -/
def ChannelMetrics.getNumberValue (metrics : Metrics) (name : Text) : Option Int64 :=
  match metrics.getValue name with
  | some (.long v) => some v
  | _ => none

namespace Channel

/-! ### The calls -/

section Calls

variable (metrics : Metrics) (name : Text)

def getNumberMetric : Option Int64 := ChannelMetrics.getNumberValue metrics name

/-- `setMetric(name, long)`. -/
def setNumber (value : Int64) : Bool × Metrics := metrics.setValue name (some (.long value))

/-- `setMetric(name, String)`, of a string that may be null. -/
def setText (value : Option Text) : Bool × Metrics := metrics.setValue name (value.map .string)

/-- `setMetric(name, boolean)`. -/
def setBoolean (value : Bool) : Bool × Metrics := metrics.setValue name (some (.boolean value))

/-- `incrMetric(name, delta)`. -/
def incrMetricBy (delta : Int64) : Bool × Metrics :=
  match getNumberMetric metrics name with
  | none => (false, metrics)
  | some currentvalue => setNumber metrics name (currentvalue + delta)

/-- `incrMetric(name)`. -/
def incrMetric : Bool × Metrics := incrMetricBy metrics name 1

/-- `decrMetric(name, delta)`. -/
def decrMetricBy (delta : Int64) : Bool × Metrics :=
  match getNumberMetric metrics name with
  | none => (false, metrics)
  | some currentvalue => setNumber metrics name (currentvalue - delta)

/-- `decrMetric(name)`: the call it makes is `incrMetric(name, 1)`. -/
def decrMetric : Bool × Metrics := incrMetricBy metrics name 1

end Calls

inductive Call
  | set (value : Int64)
  | incr
  | incrBy (delta : Int64)
  | decr
  | decrBy (delta : Int64)
  deriving DecidableEq

/-- A call on the metric of a name. -/
structure Operation where
  name : Text
  call : Call

def perform (metrics : Metrics) (op : Operation) : Bool × Metrics :=
  match op.call with
  | .set value => setNumber metrics op.name value
  | .incr => incrMetric metrics op.name
  | .incrBy delta => incrMetricBy metrics op.name delta
  | .decr => decrMetric metrics op.name
  | .decrBy delta => decrMetricBy metrics op.name delta

/-- What the calls return, one after the other, and the registry after them. -/
def run (metrics : Metrics) : List Operation → List Bool × Metrics
  | [] => ([], metrics)
  | op :: ops =>
    let (returned, metrics) := perform metrics op
    let (rest, metrics) := run metrics ops
    (returned :: rest, metrics)

/-! ### What they should count -/

/-- The value a call sets. -/
def Call.value? : Call → Option Int64
  | .set v => some v
  | _ => none

/-- The amount a call should add. -/
def Call.amount : Call → ℤ
  | .set _ => 0
  | .incr => 1
  | .incrBy d => d.toInt
  | .decr => -1
  | .decrBy d => -d.toInt

/-- The calls on one metric. -/
def callsOn (name : Text) (ops : List Operation) : List Call :=
  (ops.filter fun op => op.name = name).map (·.call)

/-- The calls after the last one that sets the value. -/
def sinceSet (calls : List Call) : List Call := calls.rtakeWhile fun c => c.value?.isNone

/-- The value that was set last, or else the one at the start. -/
def lastSet (initial : Int64) (calls : List Call) : Int64 := (calls.reverse.findSome? Call.value?).getD initial

/-- The last set value plus the increments minus the decrements since, modulo
2^64 in two's complement. -/
def expected (initial : Int64) (calls : List Call) : Int64 :=
  Int64.ofInt ((lastSet initial calls).toInt + ((sinceSet calls).map Call.amount).sum)

/-- Every call on a metric that is there returns true, every number metric
holds what it should, and no other metric changes. -/
structure Counts (metrics : Metrics) (ops : List Operation) : Prop where
  returned : (run metrics ops).1 = ops.map fun op => (metrics.get op.name).isSome
  value : ∀ name v, getNumberMetric metrics name = some v →
    getNumberMetric (run metrics ops).2 name = some (expected v (callsOn name ops))
  frame : ∀ name, getNumberMetric metrics name = none ∨ (∀ op ∈ ops, op.name ≠ name) →
    (run metrics ops).2.get name = metrics.get name

/-! ### What they count -/

/-- The value a call leaves. -/
def Call.leaves (v : Int64) : Call → Int64
  | .set w => w
  | .incr => v + 1
  | .incrBy d => v + d
  | .decr => v + 1
  | .decrBy d => v - d

/-- The decrements by one since the value was last set. -/
def decrements (calls : List Call) : ℕ := (sinceSet calls).count .decr

theorem sinceSet_concat (calls : List Call) (c : Call) :
    sinceSet (calls ++ [c]) = if c.value?.isNone then sinceSet calls ++ [c] else [] := by
  cases c <;> simp [sinceSet, Call.value?]

theorem lastSet_concat (v : Int64) (calls : List Call) (c : Call) :
    lastSet v (calls ++ [c]) = c.value?.getD (lastSet v calls) := by
  unfold lastSet
  rw [List.reverse_append, List.reverse_singleton, List.singleton_append, List.findSome?_cons]
  cases c <;> rfl

/-- A call that sets no value adds its amount, and a decrement by one two more. -/
theorem leaves_ofInt {c : Call} (h : c.value? = none) (z : ℤ) :
    Call.leaves (Int64.ofInt z) c = Int64.ofInt (z + c.amount + 2 * (if c = .decr then 1 else 0)) := by
  cases c with
  | set w => cases h
  | incr => simp [Call.leaves, Call.amount]
  | incrBy d => simp [Call.leaves, Call.amount]
  | decr =>
    have hz : z + Call.decr.amount + 2 * (if Call.decr = .decr then 1 else 0) = z + 1 := by
      simp only [Call.amount, if_true]
      omega
    rw [hz, Int64.ofInt_add]
    rfl
  | decrBy d =>
    have hz : z + (Call.decrBy d).amount + 2 * (if Call.decrBy d = .decr then 1 else 0) = z - d.toInt := by
      simp only [Call.amount, reduceCtorEq, if_false]
      omega
    rw [hz, Int64.ofInt_sub, Int64.ofInt_toInt]
    rfl

/-- What the calls leave is what they should, and two for each decrement by
one since the last set value. -/
theorem foldl_leaves (v : Int64) (calls : List Call) :
    calls.foldl Call.leaves v =
      Int64.ofInt ((lastSet v calls).toInt + ((sinceSet calls).map Call.amount).sum + 2 * (decrements calls : ℤ)) := by
  induction calls using List.reverseRecOn with
  | nil => simp [lastSet, sinceSet, decrements]
  | append_singleton calls c ih =>
    rw [List.foldl_append, List.foldl_cons, List.foldl_nil, ih, lastSet_concat]
    unfold decrements
    rw [sinceSet_concat]
    cases hv : c.value? with
    | some w =>
      cases c <;> cases hv
      simp [Call.leaves]
    | none =>
      rw [leaves_ofInt hv, Option.isNone_none, if_pos rfl, Option.getD_none, List.map_append, List.sum_append,
        List.count_append, List.map_singleton, List.sum_singleton, List.count_singleton]
      congr 1
      by_cases hc : c = .decr
      · subst hc
        simp only [if_true, beq_self_eq_true]
        omega
      · simp only [hc, beq_eq_false_iff_ne.mpr hc, if_false, Bool.false_eq_true]
        omega

/-- Two's complement forgets the multiples of 2^64. -/
theorem ofInt_eq_ofInt_iff (a b : ℤ) : Int64.ofInt a = Int64.ofInt b ↔ (2 ^ 64 : ℤ) ∣ a - b := by
  rw [Int64.ofInt_eq_iff_bmod_eq_toInt, Int64.toInt_ofInt]
  exact Int.bmod_eq_bmod_iff_bmod_sub_eq_zero.trans (Int.dvd_iff_bmod_eq_zero ..).symm

theorem foldl_leaves_iff (v : Int64) (calls : List Call) :
    calls.foldl Call.leaves v = expected v calls ↔ 2 ^ 63 ∣ decrements calls := by
  rw [foldl_leaves, expected, ofInt_eq_ofInt_iff]
  omega

section Run

variable {metrics : Metrics} {ops : List Operation} {name : Text} {v w : Int64}

theorem getNumberMetric_eq_some : getNumberMetric metrics name = some v ↔ metrics.getValue name = some (.long v) := by
  unfold getNumberMetric ChannelMetrics.getNumberValue
  cases hv : metrics.getValue name with
  | none => simp
  | some o => cases o <;> simp

/-- A metric that holds a number is there. -/
theorem get_isSome (h : getNumberMetric metrics name = some v) : (metrics.get name).isSome = true := by
  have hv := getNumberMetric_eq_some.mp h
  unfold Metrics.getValue at hv
  cases hm : metrics.get name with
  | none =>
    rw [hm] at hv
    cases hv
  | some m => rfl

theorem getNumberMetric_update_self (h : (metrics.get name).isSome = true) :
    getNumberMetric (metrics.update name (some (.long w))) name = some w := by
  obtain ⟨m, hm⟩ := Option.isSome_iff_exists.mp h
  rw [getNumberMetric_eq_some, Metrics.getValue, Metrics.get_update_self, hm]
  rfl

theorem getNumberMetric_update_ne {other : Text} (h : other ≠ name) (value : Option JavaObject) :
    getNumberMetric (metrics.update name value) other = getNumberMetric metrics other := by
  unfold getNumberMetric ChannelMetrics.getNumberValue Metrics.getValue
  rw [Metrics.get_update_ne metrics value h]

/-- A call on a number metric: it returns true and leaves another number. -/
theorem perform_number {op : Operation} (h : getNumberMetric metrics op.name = some v) :
    perform metrics op = (true, metrics.update op.name (some (.long (op.call.leaves v)))) := by
  have hset : ∀ w : Int64, setNumber metrics op.name w = (true, metrics.update op.name (some (.long w))) := by
    intro w
    apply Prod.ext
    · rw [setNumber, Metrics.setValue_fst, get_isSome h]
      rfl
    · rw [setNumber, Metrics.setValue_snd]
  unfold perform
  cases op.call with
  | set w => exact hset w
  | incr =>
    simp only [incrMetric, incrMetricBy, h]
    exact hset (v + 1)
  | incrBy d =>
    simp only [incrMetricBy, h]
    exact hset (v + d)
  | decr =>
    simp only [decrMetric, incrMetricBy, h]
    exact hset (v + 1)
  | decrBy d =>
    simp only [decrMetricBy, h]
    exact hset (v - d)

/-- A call on a metric that is not there. -/
theorem perform_missing {op : Operation} (h : metrics.get op.name = none) : perform metrics op = (false, metrics) := by
  have hnone : getNumberMetric metrics op.name = none := by
    unfold getNumberMetric ChannelMetrics.getNumberValue Metrics.getValue
    rw [h]
    rfl
  unfold perform
  cases op.call with
  | set w => simp only [setNumber, Metrics.setValue, h]
  | incr => simp only [incrMetric, incrMetricBy, hnone]
  | incrBy d => simp only [incrMetricBy, hnone]
  | decr => simp only [decrMetric, incrMetricBy, hnone]
  | decrBy d => simp only [decrMetricBy, hnone]

/-- A metric the calls may name: one that is not there, or a number. -/
def Callable (metrics : Metrics) (name : Text) : Prop :=
  metrics.get name = none ∨ (getNumberMetric metrics name).isSome = true

/-- What a call does, by what its metric is. -/
theorem perform_cases {op : Operation} (hop : Callable metrics op.name) :
    (metrics.get op.name = none ∧ perform metrics op = (false, metrics)) ∨
      ∃ v, getNumberMetric metrics op.name = some v ∧
        perform metrics op = (true, metrics.update op.name (some (.long (op.call.leaves v)))) := by
  rcases hop with hop | hop
  · exact Or.inl ⟨hop, perform_missing hop⟩
  · obtain ⟨v, hv⟩ := Option.isSome_iff_exists.mp hop
    exact Or.inr ⟨v, hv, perform_number hv⟩

section Step

variable {op : Operation} (hop : Callable metrics op.name)
include hop

theorem perform_fst : (perform metrics op).1 = (metrics.get op.name).isSome := by
  rcases perform_cases hop with ⟨hm, hp⟩ | ⟨v, hv, hp⟩
  · rw [hp, hm]
    rfl
  · rw [hp, get_isSome hv]

/-- A metric that holds no number and one the call does not name are left alone. -/
theorem get_perform (h : getNumberMetric metrics name = none ∨ op.name ≠ name) :
    (perform metrics op).2.get name = metrics.get name := by
  rcases perform_cases hop with ⟨-, hp⟩ | ⟨v, hv, hp⟩
  · rw [hp]
  · have hne : name ≠ op.name := by
      rintro rfl
      rcases h with h | h
      · rw [hv] at h
        cases h
      · exact h rfl
    rw [hp]
    exact Metrics.get_update_ne metrics _ hne

/-- A call changes what its own metric holds. -/
theorem getNumberMetric_perform :
    getNumberMetric (perform metrics op).2 name =
      (getNumberMetric metrics name).map fun v => if op.name = name then op.call.leaves v else v := by
  rcases perform_cases hop with ⟨hm, hp⟩ | ⟨v, hv, hp⟩
  · rw [hp]
    by_cases hn : op.name = name
    · subst hn
      have hnone : getNumberMetric metrics op.name = none := by
        unfold getNumberMetric ChannelMetrics.getNumberValue Metrics.getValue
        rw [hm]
        rfl
      rw [hnone]
      rfl
    · simp only [if_neg hn, Option.map_id']
  · rw [hp]
    by_cases hn : op.name = name
    · subst hn
      simp only [hv, if_true, Option.map_some]
      exact getNumberMetric_update_self (get_isSome hv)
    · simp only [if_neg hn, Option.map_id']
      exact getNumberMetric_update_ne (Ne.symm hn) _

theorem isSome_get_perform : ((perform metrics op).2.get name).isSome = (metrics.get name).isSome := by
  rcases perform_cases hop with ⟨-, hp⟩ | ⟨v, -, hp⟩
  · rw [hp]
  · rw [hp]
    by_cases hn : name = op.name
    · subst hn
      rw [Metrics.get_update_self, Option.isSome_map]
    · rw [Metrics.get_update_ne metrics _ hn]

theorem callable_perform (h : Callable metrics name) : Callable (perform metrics op).2 name := by
  rcases h with h | h
  · left
    have hs : ((perform metrics op).2.get name).isSome = (metrics.get name).isSome := isSome_get_perform hop
    rw [h] at hs
    exact Option.not_isSome_iff_eq_none.mp (by rw [hs]; exact Bool.false_ne_true)
  · right
    rw [getNumberMetric_perform hop, Option.isSome_map]
    exact h

end Step

theorem callsOn_cons (op : Operation) (ops : List Operation) :
    callsOn name (op :: ops) = if op.name = name then op.call :: callsOn name ops else callsOn name ops := by
  unfold callsOn
  by_cases h : op.name = name <;> simp [h]

theorem run_returned : ∀ {ops : List Operation} {metrics : Metrics}, (∀ op ∈ ops, Callable metrics op.name) →
    (run metrics ops).1 = ops.map fun op => (metrics.get op.name).isSome
  | [], _, _ => rfl
  | op :: ops, metrics, h => by
    have hop := h op (List.mem_cons_self ..)
    have hrest : ∀ o ∈ ops, Callable (perform metrics op).2 o.name :=
      fun o ho => callable_perform hop (h o (List.mem_cons_of_mem _ ho))
    show (perform metrics op).1 :: (run (perform metrics op).2 ops).1 = _
    rw [perform_fst hop, run_returned hrest, List.map_cons]
    simp only [isSome_get_perform hop]

/-- What a number metric holds after the calls: each call on it in turn. -/
theorem getNumberMetric_run : ∀ {ops : List Operation} {metrics : Metrics}, (∀ op ∈ ops, Callable metrics op.name) →
    getNumberMetric (run metrics ops).2 name =
      (getNumberMetric metrics name).map fun v => (callsOn name ops).foldl Call.leaves v
  | [], metrics, _ => (Option.map_id' ..).symm
  | op :: ops, metrics, h => by
    have hop := h op (List.mem_cons_self ..)
    have hrest : ∀ o ∈ ops, Callable (perform metrics op).2 o.name :=
      fun o ho => callable_perform hop (h o (List.mem_cons_of_mem _ ho))
    show getNumberMetric (run (perform metrics op).2 ops).2 name = _
    rw [getNumberMetric_run hrest, getNumberMetric_perform hop, Option.map_map, callsOn_cons]
    by_cases hn : op.name = name
    · simp only [if_pos hn, List.foldl_cons]
      rfl
    · simp only [if_neg hn]
      rfl

theorem get_run : ∀ {ops : List Operation} {metrics : Metrics}, (∀ op ∈ ops, Callable metrics op.name) →
    (getNumberMetric metrics name = none ∨ ∀ op ∈ ops, op.name ≠ name) →
    (run metrics ops).2.get name = metrics.get name
  | [], _, _, _ => rfl
  | op :: ops, metrics, h, hname => by
    have hop := h op (List.mem_cons_self ..)
    have hrest : ∀ o ∈ ops, Callable (perform metrics op).2 o.name :=
      fun o ho => callable_perform hop (h o (List.mem_cons_of_mem _ ho))
    have hstep : (perform metrics op).2.get name = metrics.get name :=
      get_perform hop (hname.imp_right fun h => h op (List.mem_cons_self ..))
    have hstill : getNumberMetric (perform metrics op).2 name = none ∨ ∀ o ∈ ops, o.name ≠ name := by
      refine hname.imp (fun hnone => ?_) fun h o ho => h o (List.mem_cons_of_mem _ ho)
      rw [getNumberMetric_perform hop, hnone]
      rfl
    show (run (perform metrics op).2 ops).2.get name = _
    rw [get_run hrest hstill, hstep]

/-- A metric that a properties file defines as a number holds one. -/
theorem callable_of_defined {props : Properties} {keySet : List Text} {sysPropertyPrefix : Option Text}
    (hs : PropertiesMetricsReader.processMetricsConfig props keySet sysPropertyPrefix {} = .ok metrics)
    {m : Metric} (hm : metrics.get name = some m) (ht : m.metricType = .number) : Callable metrics name := by
  obtain ⟨-, hget⟩ := Registering.registerAll_ok (PropertiesMetricsReader.registers props) hs
  have hbuilt : Registering.built (PropertiesMetricsReader.getMetric props) name = some m := by
    have hname := hget name
    rw [hm] at hname
    by_cases hn : name ∈ (keySet.filter (PropertiesMetricsReader.isMetricKey sysPropertyPrefix)).map
        getMetricNameFromPropertyKey
    · exact ((if_pos hn).symm.trans hname.symm)
    · exact absurd (hname.trans (if_neg hn)) (Option.some_ne_none m)
  obtain ⟨v, hv, hadmits⟩ : ∃ v, m.value = some v ∧ Metrics.admits m.metricType v = true := by
    unfold Registering.built at hbuilt
    cases hg : PropertiesMetricsReader.getMetric props name with
    | error e =>
      rw [hg] at hbuilt
      cases hbuilt
    | ok b =>
      rw [hg] at hbuilt
      obtain ⟨type, -, ht⟩ := bind_eq_ok.mp hg
      exact Metrics.value_of_getMetricOf ((Except.ok.inj ht).trans hbuilt)
  right
  rw [ht] at hadmits
  cases v with
  | long n =>
    rw [Option.isSome_iff_exists]
    refine ⟨n, getNumberMetric_eq_some.mpr ?_⟩
    rw [Metrics.getValue, hm]
    exact hv
  | string _ | character _ | boolean _ | short _ | integer _ | double _ | float _ | other _ _ => cases hadmits

end Run

/-- **A channel counts exactly if the decrements by one come to nothing.** The
calls are on number metrics or on metrics that are not there. -/
theorem counts_iff (metrics : Metrics) (ops : List Operation) (hops : ∀ op ∈ ops, Callable metrics op.name) :
    Counts metrics ops ↔
      ∀ name, (getNumberMetric metrics name).isSome = true → 2 ^ 63 ∣ decrements (callsOn name ops) := by
  constructor
  · intro h name hname
    obtain ⟨v, hv⟩ := Option.isSome_iff_exists.mp hname
    have hheld := h.value name v hv
    rw [getNumberMetric_run hops, hv, Option.map_some] at hheld
    exact (foldl_leaves_iff v _).mp (Option.some.inj hheld)
  · intro h
    refine ⟨run_returned hops, fun name v hv => ?_, fun name hname => get_run hops hname⟩
    rw [getNumberMetric_run hops, hv, Option.map_some]
    exact congrArg some ((foldl_leaves_iff v _).mpr (h name (by rw [hv]; rfl)))

/-- A channel with one metric, which starts at 5. -/
def counter : Metrics := ({} : Metrics).put "rate".toList (.init "rate".toList (.long 5) {} Metric.made_default)

theorem getNumberMetric_counter (n : Text) :
    getNumberMetric counter n = if n = "rate".toList then some 5 else none := by
  by_cases h : n = "rate".toList
  · subst h
    rfl
  · rw [if_neg h]
    unfold getNumberMetric ChannelMetrics.getNumberValue Metrics.getValue counter
    rw [Metrics.get_put_ne _ _ h]
    rfl

theorem counts_iff_counter :
    Counts counter [⟨"rate".toList, .incrBy 7⟩, ⟨"rate".toList, .decrBy 2⟩, ⟨"rate".toList, .incr⟩] := by
  refine (counts_iff counter _ fun op hop => Or.inr ?_).mpr fun n hn => ?_
  · have hname : op.name = "rate".toList := by
      simp only [List.mem_cons, List.not_mem_nil, or_false] at hop
      rcases hop with rfl | rfl | rfl <;> rfl
    rw [getNumberMetric_counter, if_pos hname]
    rfl
  · have hname : n = "rate".toList := by
      by_contra hne
      rw [getNumberMetric_counter, if_neg hne] at hn
      cases hn
    subst hname
    have hzero : decrements (callsOn "rate".toList [⟨"rate".toList, .incrBy 7⟩, ⟨"rate".toList, .decrBy 2⟩,
        ⟨"rate".toList, .incr⟩]) = 0 := rfl
    rw [hzero]
    exact Nat.dvd_zero _

/-- A decrement of 5 leaves 6. -/
theorem counter_incremented : ¬ Counts counter [⟨"rate".toList, .decr⟩] := by
  intro h
  have hvalue := h.value "rate".toList 5 rfl
  revert hvalue
  decide

end Channel

end Plethora
