/-
# The variables and the syntax the MIB declares

The MIB declares a metric's syntax from the type it was declared with; the
agent makes a variable of the value from the class it is of. The two agree
where the value fits the type (`Fits`): a string, or an object of a foreign
class, which is sent as a text, for a text; a number or a truth value, which is
sent as one, for a number; for a boolean, enumerated as `true(1)` and
`false(2)`, the value true, or a number that is one of the two. False is sent
as 0, which is neither.

So the variables are legal throughout a run exactly if no boolean metric is
ever made, since one starts out false, and every value stored fits:
`allLegal_iff`. The ports among the meta module's text metrics are numbers
from the first time they are refreshed (`port_not_fits`).

Key definitions: `Permits`, `Fits`, `Site.AllLegal`, `Site.Fitting`.
Key theorems: `permits_iff`, `Effect.legal_iff`, `allLegal_iff`.
-/
import Plethora.Server.Site
import Plethora.Snmp.Mib

namespace Plethora

/-- The variables of `getSyntaxByType(type)`: any octet string, any integer,
or one of the two numbers of the enumeration. -/
def Permits : MetricType → Variable → Prop
  | .text, .octetString _ => True
  | .number, .integer32 _ => True
  | .boolean, .integer32 i => i = 1 ∨ i = 2
  | _, _ => False

/-- The values that a variable of the syntax is made of. -/
def Fits : MetricType → JavaObject → Prop
  | .text, .string _ => True
  | .text, .other _ _ => True
  | .number, .boolean _ => True
  | .number, v => v.intValue.isSome = true
  | .boolean, .boolean b => b = true
  | .boolean, v => v.intValue = some 1 ∨ v.intValue = some 2
  | _, _ => False

namespace OidToMetricBridge

theorem objectToVariable_number {v : JavaObject} {i : Int32} (h : v.intValue = some i) :
    objectToVariable (some v) = .ok (.integer32 i) := by
  have hs : Util.typeIsString v.getClassName = false := by
    rw [Util.typeIsString_getClassName]
    cases v <;> first | rfl | cases h
  simp only [objectToVariable, hs, Util.typeIsNumber_getClassName, h, Option.isSome_some, if_true]
  rfl

/-- What a value becomes. -/
theorem objectToVariable_eq : ∀ v : JavaObject, objectToVariable (some v) =
    match v with
    | .string s => .ok (.octetString s)
    | .character _ => .error .classCast
    | .boolean b => .ok (.integer32 (if b then 1 else 0))
    | .short i => .ok (.integer32 i.toInt32)
    | .integer i => .ok (.integer32 i)
    | .long i => .ok (.integer32 i.toInt32)
    | .double i => .ok (.integer32 i)
    | .float i => .ok (.integer32 i)
    | .other c _ => .ok (.octetString ("Unsupported object type ".toList ++ c))
  | .string _ | .character _ | .boolean _ => rfl
  | .short _ | .integer _ | .long _ | .double _ | .float _ => objectToVariable_number rfl
  | .other c h => by
    have hs := Util.typeIsString_getClassName (.other c h)
    have hn := Util.typeIsNumber_getClassName (.other c h)
    have hb := Util.typeIsBoolean_getClassName (.other c h)
    simp only [objectToVariable, hs, hn, hb, JavaObject.intValue, Option.isSome_none]
    rfl

/-- The variable is legal exactly if the value fits. -/
theorem permits_iff (type : MetricType) (v : JavaObject) :
    (∃ x, objectToVariable (some v) = .ok x ∧ Permits type x) ↔ Fits type v := by
  rw [objectToVariable_eq]
  cases type with
  | boolean =>
    cases v with
    | boolean b => cases b <;> simp [Permits, Fits]
    | _ => simp [Permits, Fits, JavaObject.intValue]
  | _ => cases v <;> simp [Permits, Fits, JavaObject.intValue]

end OidToMetricBridge

namespace Site

/-- Every value is sent as a variable of its metric's syntax. -/
def AllLegal (s : Site) : Prop :=
  ∀ name m v, s.metrics.get name = some m → m.value = some v →
    ∃ x, OidToMetricBridge.objectToVariable (some v) = .ok x ∧ Permits m.properties.type x

/-- No boolean metric is made, and a value stored in a metric fits its type. -/
def Fitting (s : Site) (e : Event) : Prop :=
  (∀ name p, e.taken name = some p → p.type ≠ .boolean) ∧
  ∀ name v m, e.stored = some (name, some v) → s.metrics.get name = some m → Fits m.properties.type v

variable {s s' : Site} {e : Event}

/-- A step keeps the variables legal exactly if what it makes and stores fits. -/
theorem Effect.legal_iff (h : Effect s e s') (hs : s.AllLegal) : s'.AllLegal ↔ s.Fitting e := by
  constructor
  · intro hs'
    refine ⟨fun name p ht hp => ?_, fun name v m hst hm => ?_⟩
    · obtain ⟨v, made, hv, hm⟩ := h.get_taken ht
      rw [hp] at hv
      cases hv
      have hfits := (OidToMetricBridge.permits_iff _ _).mp (hs' name _ _ hm rfl)
      change Fits p.type _ at hfits
      rw [hp] at hfits
      cases hfits
    · have hget := h.get_stored hst
      rw [hm] at hget
      exact (OidToMetricBridge.permits_iff _ _).mp (hs' name (m.setValueAsObject (some v)) v hget rfl)
  · rintro ⟨hmade, hstored⟩ name m v hm hv
    cases ht : e.taken name with
    | some p =>
      obtain ⟨v', made, hv', hm'⟩ := h.get_taken ht
      obtain rfl : m = _ := Option.some.inj (hm.symm.trans hm')
      obtain rfl : v' = v := Option.some.inj hv
      rw [OidToMetricBridge.permits_iff]
      show Fits p.type v'
      have hne := hmade name _ ht
      cases hp : p.type with
      | boolean => exact absurd hp hne
      | number | text =>
        rw [hp] at hv'
        cases hv'
        trivial
      | unspecified | invalid =>
        rw [hp] at hv'
        cases hv'
    | none =>
      by_cases hst : ∃ w, e.stored = some (name, w)
      · obtain ⟨w, hst⟩ := hst
        rw [h.get_stored hst, Option.map_eq_some_iff] at hm
        obtain ⟨old, hold, rfl⟩ := hm
        obtain rfl : w = some v := hv
        exact (OidToMetricBridge.permits_iff _ _).mpr (hstored name v old hst hold)
      · rw [h.get_neither ht (not_exists.mp hst)] at hm
        exact hs name m v hm hv

theorem allLegal_of_fresh (h : s.Fresh) : s.AllLegal := by
  intro name m v hm
  rw [h.1] at hm
  cases hm

/-- What GET answers for a metric its arcs reach. -/
theorem getValueforOID_of_reaches {agent : SnmpAgent} (hi : agent.metricService.immediateAccess = false)
    {a b : UInt32} {m : Metric} (h : agent.Reaches a b m) :
    agent.getValueforOID (agent.rootOid.append [a, b]) = OidToMetricBridge.objectToVariable m.value ∧
      ∃ name, agent.metricService.metrics.get name = some m := by
  obtain ⟨module, metric, hat, hm⟩ := agent.reaches_iff.mp h
  have hv : agent.metricService.metricValue (some m) = .ok m.value := by
    simp [MetricService.metricValue, hi]
  have hg := SnmpAgent.getValueforOID_metricOid hat
  rw [SnmpAgent.metricOid, UInt32.ofNat_toNat, UInt32.ofNat_toNat, MetricService.metricVariable,
    MetricService.getMetricByName, hm] at hg
  refine ⟨hg.trans ?_, ?_⟩
  · show (agent.metricService.metricValue (some m) >>= OidToMetricBridge.objectToVariable) = _
    rw [hv]
    rfl
  · cases hn : NameResolver.resolveMetricName metric module with
    | none =>
      rw [hn] at hm
      cases hm
    | some name =>
      rw [hn] at hm
      exact ⟨name, Except.ok.inj hm⟩

/-- **When GET answers what the MIB declares.** Through a run from the start
every value is sent as a variable of its metric's syntax exactly if no boolean
metric is made and all values stored fit; and then an agent that answers out
of the registry answers every metric its arcs reach so. -/
theorem allLegal_iff {steps : List (Site × Event)} (h : Run Step s steps s') (hs : s.Fresh) :
    (Throughout AllLegal steps s' ↔ ∀ p ∈ steps, Fitting p.1 p.2) ∧
    (Throughout AllLegal steps s' → ∀ t ∈ s' :: steps.map (·.1), ∀ agent : SnmpAgent,
      agent.metricService.metrics = t.metrics → agent.metricService.immediateAccess = false →
      ∀ a b m, agent.Reaches a b m → m.value ≠ none →
        ∃ x, agent.getValueforOID (agent.rootOid.append [a, b]) = .ok x ∧ Permits m.properties.type x) := by
  refine ⟨h.invariant_iff (fun s e t hst hi => hst.effect.legal_iff hi) (allLegal_of_fresh hs), ?_⟩
  intro hall t ht agent hmetrics hi a b m hreach hv
  have hlegal : t.AllLegal := by
    rcases List.mem_cons.mp ht with rfl | ht
    · exact hall.2
    · obtain ⟨p, hp, rfl⟩ := List.mem_map.mp ht
      exact hall.1 p hp
  obtain ⟨v, hv⟩ := Option.ne_none_iff_exists'.mp hv
  obtain ⟨hget, name, hm⟩ := getValueforOID_of_reaches hi hreach
  rw [hmetrics] at hm
  rw [hget, hv]
  exact hlegal name m v hm hv

/-- A long that is read, and made anew when the module connects again. -/
theorem allLegal_iff_rediscovered : Throughout AllLegal rediscovered reconnected := by
  refine (allLegal_iff run_rediscovered (fresh_start _ _)).1.mpr ?_
  have hmade : ∀ e : Event, e.described = [("Load".toList, loadProperties "java.lang.Long")] → ∀ name p,
      e.taken name = some p → p.type ≠ .boolean := by
    intro e he name p ht
    obtain ⟨d, hd, -, rfl⟩ := exists_of_taken ht
    rw [he] at hd
    obtain rfl := List.mem_singleton.mp hd
    decide
  simp only [rediscovered, List.forall_mem_cons]
  refine ⟨⟨hmade _ rfl, fun name v m hst => ?_⟩, ⟨fun name p ht => ?_, fun name v m hst hm => ?_⟩,
    ⟨hmade _ rfl, fun name v m hst => ?_⟩, fun p hp => absurd hp List.not_mem_nil⟩
  · cases hst
  · cases ht
  · cases hst
    obtain rfl := Option.some.inj (get_connected.symm.trans hm)
    rfl
  · cases hst

/-- A boolean attribute starts out false, which is sent as 0. -/
theorem false_not_legal :
    ¬ (∀ (s s' : Site) (steps : List (Site × Event)), Run Step s steps s' → s.Fresh → Throughout AllLegal steps s') ∧
    OidToMetricBridge.objectToVariable (some (.boolean false)) = .ok (.integer32 0) ∧
      ¬ Permits .boolean (.integer32 0) := by
  have hzero : ¬ Permits .boolean (.integer32 0) := by simp [Permits]
  refine ⟨fun hall => ?_, rfl, hzero⟩
  have h := (hall _ _ _ (run_connecting "jvm" "java.lang.Boolean" none) (fresh_start _ _)).2
  obtain ⟨x, hx, hp⟩ := h "hackorama.jvm.Load".toList
    (Metric.init "hackorama.jvm.Load".toList (.boolean false) (loadProperties "java.lang.Boolean") (by decide))
    (.boolean false) (by decide) rfl
  cases hx
  exact hzero hp

end Site

/-- A port is a number, and its metric a text. -/
theorem port_not_fits (c : MetaConfiguration) (memberList : Text) :
    ∃ e ∈ MetaModule.entries c memberList, e.metricName = "http_port".toList ∧
      e.value = some (.integer c.httpPort) ∧ (MetaModule.buildProperties e).type = .text ∧
      ¬ Fits (MetaModule.buildProperties e).type (.integer c.httpPort) := by
  have he : MetaModule.Entry.mk "http_port".toList "HTTP Port".toList
      "The HTTP listen point port number for this metrics server".toList (some (.integer c.httpPort)) ∈
      MetaModule.entries c memberList := by
    refine List.mem_append_left _ ?_
    unfold MetaModule.serverEntries
    exact List.mem_of_getElem? (i := 4) rfl
  exact ⟨_, he, rfl, rfl, rfl, fun h => h⟩

end Plethora
