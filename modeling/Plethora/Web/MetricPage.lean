/-
# A long over HTTP and over SNMP

`MetricRequestHandler` answers `/get/name` with the text of the metric's value,
in the type's format if there is a formatter for it; there is none for the
default type. The web handler puts blanks for the angle brackets of the path
first, so a name with these asks for another metric. An SNMP GET of the
metric's OID answers with the `Integer32` of the value, which has the low 32
bits of a long.

So the agent answers with the number of a long exactly if an int holds it, and
the page with the same one exactly if the name is left as it is, or what is
made of it names a metric of that number (`getValueforOID_long_iff`).

Key definitions: `JavaObject.toText`, `Formatters`, `MetricRequestHandler`,
`SnmpAgent.nameAt`, `SnmpAgent.Prints`, `SnmpAgent.SendsLong`.
Key theorems: `handle_get`, `getValueforOID_long`, `getValueforOID_long_iff`.
-/
import Plethora.Server.Ports
import Plethora.Snmp.Typing
import Plethora.Snmp.Walk
import Plethora.Web.WebHandler

namespace Plethora

/-- `object.toString()`, over that of the other classes. -/
def JavaObject.toText (others : JavaObject → Text) : JavaObject → Text
  | .string t => t
  | .character c => [c]
  | .boolean b => if b then "true".toList else "false".toList
  | .short v => (toString v.toInt).toList
  | .integer v => (toString v.toInt).toList
  | .long v => (toString v.toInt).toList
  | o => others o

/-- The formatters there are, by their `formatMetric`. -/
structure Formatters where
  json : Text → Text → Except JavaError Text
  xml : Text → Text → Except JavaError Text
  siteScope : Text → Text → Except JavaError Text

namespace Formatters

def getKnownDataTypes : List DATA_TYPE := [.JSON, .XML, .SITESCOPE]

def getformatter (formatters : Formatters) : DATA_TYPE → Option (Text → Text → Except JavaError Text)
  | .JSON => some formatters.json
  | .XML => some formatters.xml
  | .SITESCOPE => some formatters.siteScope
  | .TXT => none
  | .CSV => none

end Formatters

structure MetricRequestHandler where
  metricService : MetricService
  formatterManager : Formatters
  /-- The texts of floating-point numbers and other objects. -/
  others : JavaObject → Text

namespace MetricRequestHandler

def DEFAULT : Text := "null".toList

variable (H : MetricRequestHandler)

/-- `getValue(param)`: a metric that cannot be read is shown as one without a
value. -/
def getValue (param : Text) : Text :=
  match H.metricService.getMetricByName (some param) with
  | .error _ => DEFAULT
  | .ok none => DEFAULT
  | .ok (some object) => object.toText H.others

def formatResponse (name value : Text) (type : DATA_TYPE) : Text :=
  match H.formatterManager.getformatter type with
  | none => value
  | some formatMetric =>
    match formatMetric name value with
    | .ok text => text
    | .error _ => value

/-- `getResponse(param, type)`; the encoding is UTF-8, which is there. -/
def getResponse (param : Text) (type : DATA_TYPE) : Except ResponseError (List UInt8) :=
  .ok (Utf8.encode (H.formatResponse param (H.getValue param) type))

/-- The page handler with this handler for `get`, among the others. -/
def page (R : DynamicPageHandler.Responses) : DynamicPageHandler :=
  DynamicPageHandler.create { R with metric := H.getResponse } Formatters.getKnownDataTypes

/-- The web handler with this page, and static pages or none. -/
def web (R : DynamicPageHandler.Responses) (static : Option StaticPageHandler) : WebHandler := ⟨some (H.page R), static⟩

/-- `/get/name` shows the value in plain text. -/
theorem handleRequest_get (R : DynamicPageHandler.Responses) (name : Text) :
    (H.page R).handleRequest ("/get/".toList ++ name) = .ok (some (Utf8.encode (H.getValue name))) := by
  have hget := DynamicPageHandler.lookup_get { R with metric := H.getResponse } Formatters.getKnownDataTypes
  have hwell := DynamicPageHandler.create_wellNamed { R with metric := H.getResponse } Formatters.getKnownDataTypes
  exact DynamicPageHandler.handleRequest_of_form hwell (.plain hget)

/-- So does the request, of the name without angle brackets. -/
theorem handle_get (R : DynamicPageHandler.Responses) (static : Option StaticPageHandler) (fs : FileSystem) (name : Text) :
    (H.web R static).handle fs (some ("/get/".toList ++ name)) =
      .ok (Utf8.encode (H.getValue (WebHandler.sanitizePath name))) := by
  have hpath : WebHandler.sanitizePath ("/get/".toList ++ name) = "/get/".toList ++ WebHandler.sanitizePath name :=
    List.map_append
  rw [WebHandler.handle_ok_iff_getResponse]
  apply WebHandler.getResponse_of_dynamic
  rw [hpath, handleRequest_get]

end MetricRequestHandler

namespace SnmpAgent

variable (agent : SnmpAgent)

/-- The full name of the metric at the arcs `a.b`. -/
def nameAt (a b : UInt32) : Option Text :=
  (agent.metricService.metricAt a.toNat b.toNat).bind fun p => NameResolver.resolveMetricName p.2 p.1

/-- The current value of a metric. -/
def Holds (name : Text) (value : Option JavaObject) : Prop :=
  ∃ m, agent.metricService.metrics.get name = some m ∧ agent.metricService.metricValue (some m) = .ok value

/-- The metric of this name has a value that prints so. -/
def Prints (others : JavaObject → Text) (name text : Text) : Prop :=
  ∃ object, agent.Holds name (some object) ∧ object.toText others = text

/-- GET answers with the number of the long, and the page shows the same one. -/
def SendsLong (web : WebHandler) (fs : FileSystem) (a b : UInt32) (name : Text) (v : Int64) : Prop :=
  ∃ i : Int32, agent.getValueforOID (agent.rootOid.append [a, b]) = .ok (.integer32 i) ∧ i.toInt = v.toInt ∧
    web.handle fs (some ("/get/".toList ++ name)) = .ok (Utf8.encode (toString i.toInt).toList)

variable {agent} {a b : UInt32} {name : Text} {value : Option JavaObject}

theorem getMetricByName_of_holds (h : agent.Holds name value) :
    agent.metricService.getMetricByName (some name) = .ok value := by
  obtain ⟨m, hm, hv⟩ := h
  rw [MetricService.getMetricByName, Metrics.getMetric, hm]
  exact hv

/-- GET of a metric's OID. -/
theorem getValueforOID_of_holds (hn : agent.nameAt a b = some name) (h : agent.Holds name value) :
    agent.getValueforOID (agent.rootOid.append [a, b]) = OidToMetricBridge.objectToVariable value := by
  obtain ⟨⟨module, metric⟩, hat, hname⟩ := Option.bind_eq_some_iff.mp hn
  have hget := getValueforOID_metricOid hat
  rw [metricOid, UInt32.ofNat_toNat, UInt32.ofNat_toNat] at hget
  rw [hget, MetricService.metricVariable, hname, getMetricByName_of_holds h]
  rfl

/-- The number that a long is sent as. -/
theorem getValueforOID_long {v : Int64} (hn : agent.nameAt a b = some name) (h : agent.Holds name (some (.long v))) :
    agent.getValueforOID (agent.rootOid.append [a, b]) = .ok (.integer32 v.toInt32) := by
  rw [getValueforOID_of_holds hn h, OidToMetricBridge.objectToVariable_eq]

/-- The low bits of a long are its number if an int holds it. -/
theorem toInt_toInt32_eq_iff (v : Int64) : v.toInt32.toInt = v.toInt ↔ InInt v.toInt := by
  constructor
  · intro h
    rw [← h]
    exact toInt_inInt _
  · intro h
    rw [Int64.toInt_toInt32]
    exact (Int32.toInt_ofInt (n := v.toInt)).symm.trans (toInt_ofInt h)

theorem holds_of_getMetricByName {object : JavaObject}
    (h : agent.metricService.getMetricByName (some name) = .ok (some object)) : agent.Holds name (some object) := by
  rw [MetricService.getMetricByName, Metrics.getMetric] at h
  cases hm : agent.metricService.metrics.get name with
  | none =>
    rw [hm] at h
    cases h
  | some m =>
    rw [hm] at h
    exact ⟨m, hm, h⟩

/-- What the page shows but for its default text is printed for a value. -/
theorem getValue_eq_iff {formatters : Formatters} {others : JavaObject → Text} {text : Text}
    (ht : text ≠ MetricRequestHandler.DEFAULT) :
    MetricRequestHandler.getValue ⟨agent.metricService, formatters, others⟩ name = text ↔ agent.Prints others name text := by
  unfold MetricRequestHandler.getValue Prints
  constructor
  · intro h
    split at h
    · exact absurd h.symm ht
    · exact absurd h.symm ht
    · rename_i object hget
      exact ⟨object, holds_of_getMetricByName hget, h⟩
  · rintro ⟨object, hholds, hprints⟩
    rw [getMetricByName_of_holds hholds]
    exact hprints

theorem toString_ne_default (v : ℤ) : (toString v).toList ≠ MetricRequestHandler.DEFAULT := by
  intro h
  have hletter : 'n' ∈ (toString v).toList := by
    rw [h]
    decide
  rcases mem_toString hletter with hsign | hdigit
  · exact absurd hsign (by decide)
  · exact absurd hdigit (by decide)

/-- **A long is sent as the number it is** exactly if an int holds it; and the
page of the metric's name shows that number exactly if it is asked for under
this name, or a metric that prints the same has the name that is left. -/
theorem getValueforOID_long_iff (formatters : Formatters) (others : JavaObject → Text)
    (R : DynamicPageHandler.Responses) (static : Option StaticPageHandler) (fs : FileSystem) {v : Int64}
    (hn : agent.nameAt a b = some name) (h : agent.Holds name (some (.long v))) :
    agent.SendsLong (MetricRequestHandler.web ⟨agent.metricService, formatters, others⟩ R static) fs a b name v ↔
      (-2 ^ 31 ≤ v.toInt ∧ v.toInt < 2 ^ 31) ∧
        (WebHandler.sanitizePath name = name ∨
          agent.Prints others (WebHandler.sanitizePath name) (toString v.toInt).toList) := by
  have hpage : ∀ i : ℤ, (MetricRequestHandler.web ⟨agent.metricService, formatters, others⟩ R static).handle fs
      (some ("/get/".toList ++ name)) = .ok (Utf8.encode (toString i).toList) ↔
        agent.Prints others (WebHandler.sanitizePath name) (toString i).toList := fun i => by
    rw [MetricRequestHandler.handle_get, Except.ok.injEq, Utf8.encode_injective.eq_iff,
      getValue_eq_iff (toString_ne_default i)]
  constructor
  · rintro ⟨i, hi, hv, hshown⟩
    rw [getValueforOID_long hn h] at hi
    obtain rfl : v.toInt32 = i := by injection Except.ok.inj hi
    rw [hpage, hv] at hshown
    exact ⟨(toInt_toInt32_eq_iff v).mp hv, Or.inr hshown⟩
  · rintro ⟨hv, hname⟩
    have hnumber := (toInt_toInt32_eq_iff v).mpr hv
    refine ⟨v.toInt32, getValueforOID_long hn h, hnumber, ?_⟩
    rw [hpage, hnumber]
    rcases hname with hsame | hprints
    · rw [hsame]
      exact ⟨_, h, rfl⟩
    · exact hprints

/-- An agent that reads this long live. -/
def measuring (v : Int64) : SnmpAgent :=
  { oneMetric "cpu".toList with
    metricService := { (oneMetric "cpu".toList).metricService with
      immediateAccess := true
      getValue := fun _ _ => .ok (some (.long v)) } }

theorem measuring_holds (v : Int64) : (measuring v).nameAt 1 1 = some "hackorama.app.cpu".toList ∧
    (measuring v).Holds "hackorama.app.cpu".toList (some (.long v)) :=
  ⟨rfl, _, rfl, rfl⟩

/-- Formatters that leave the value as it is. -/
def plainFormatters : Formatters :=
  ⟨fun _ value => .ok value, fun _ value => .ok value, fun _ value => .ok value⟩

theorem getValueforOID_long_iff_seven :
    (measuring 7).SendsLong
      (MetricRequestHandler.web ⟨(measuring 7).metricService, plainFormatters, fun _ => "0.0".toList⟩
        DynamicPageHandler.echoes none) StaticPageHandler.siblings 1 1 "hackorama.app.cpu".toList 7 :=
  (getValueforOID_long_iff _ _ _ _ _ (measuring_holds 7).1 (measuring_holds 7).2).mpr ⟨by decide, Or.inl (by decide)⟩

/-- A long beyond the ints is sent as the least of them. -/
theorem not_getValueforOID_long_wrapped :
    (measuring 2147483648).getValueforOID ((measuring 2147483648).rootOid.append [1, 1]) =
      .ok (.integer32 (-2147483648)) ∧
    ¬ (measuring 2147483648).SendsLong
      (MetricRequestHandler.web ⟨(measuring 2147483648).metricService, plainFormatters, fun _ => "0.0".toList⟩
        DynamicPageHandler.echoes none) StaticPageHandler.siblings 1 1 "hackorama.app.cpu".toList 2147483648 := by
  obtain ⟨hn, h⟩ := measuring_holds 2147483648
  refine ⟨getValueforOID_long hn h, ?_⟩
  rintro ⟨i, hi, hv, -⟩
  rw [getValueforOID_long hn h] at hi
  obtain rfl : (2147483648 : Int64).toInt32 = i := by injection Except.ok.inj hi
  revert hv
  decide

end SnmpAgent

end Plethora
