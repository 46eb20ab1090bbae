/-
# The web interface of a Python agent

`Metrics.requestHandler` of plethoralib: which metric a request reaches and
what is done with it.

The server's `URLBuilder` puts the name of a metric, and a value to set, into
the URL as they are. What of the URL gets into the request line, and from there
to the handler as the path of the request, is `HttpRequest.received`. The agent
splits the query at the separators, decodes the arguments, and decodes them
again where it uses them. So a request reaches its metric exactly if the texts
in it are carried and plain, and the page's own path comes through:
`requests_reach_iff`. A character is written for the bytes it has on the way
and in the store, in one encoding.

Key definitions: `Plethoralib.Metrics.requestHandler`,
`Plethoralib.Metrics.receives`, `Connector.Located`, `Connector.Passes`.
Key theorems: `valueOf_received`, `requests_reach_iff`.
-/
import Plethora.Data.RemoteModule
import Plethora.Lib.HttpRequest
import Plethora.Lib.QueryString

namespace Plethora

open HttpRequest QueryString

namespace Connector

variable (c : Connector)

/-- The host ends where the port begins, and the path of the page has no query
of its own. -/
structure Located : Prop where
  host : ∀ d ∈ c.host, d ∉ "/?#".toList
  path : ∀ path, c.path = some path → '?' ∉ path

/-- The path of the page, with the slash it begins with. -/
def pagePath : Text :=
  match c.path with
  | none => []
  | some path => '/' :: path

/-- The page is asked for under its path. -/
def Passes (T : Transport) : Prop := T.Passes c.pagePath

end Connector

namespace Plethoralib

/-- What a request does. -/
inductive Handled
  | printValue (name : Text)
  | setValue (name value : Text)
  | printMetrics
  | printNames
  | printAllProps
  | printProps (name : Text)
  | printDefault
deriving DecidableEq

def versionTag : Text := "VERSION".toList

def argGetMetric : Text := "get".toList
def argDataFormat : Text := "as".toList
def argSetMetric : Text := "set".toList
def argMetricValue : Text := "with".toList
def argMetricProps : Text := "props".toList
def argList : Text := "list".toList

/-- The interface to a data store with these keys. -/
structure Metrics where
  keys : List Text

namespace Metrics

variable (m : Metrics)

/-- All keys but the version tag. -/
def metricNames : List Text := m.keys.filter fun k => k ≠ versionTag

def validMetric (name : Text) : Bool := name ∈ m.metricNames

/-- `__getArgsFromRequest`, of the path of the request. -/
def getArgsFromRequest (path : Text) : Text → List Text :=
  match path.dropWhile (· ≠ '?') with
  | [] => fun _ => []
  | _ :: query => parseQs query

variable (args : Text → List Text)

/-- `__getArgValue`, `none` for a name that is no key. -/
def getArgValue (name : Text) : Option Text := valueOf args name

def hasArgWithValue (name : Text) : Bool := getArgValue args name ≠ none ∧ getArgValue args name ≠ some []

def defaultFormat : Text := "json".toList

def formats : List Text := ["json".toList, "text".toList, "csv".toList]

def resolveDataType : Text :=
  match getArgValue args argDataFormat with
  | none => defaultFormat
  | some format => if format ∈ formats then format else defaultFormat

def handleGet : Handled :=
  match getArgValue args argGetMetric with
  | none => .printDefault
  | some name => if m.validMetric name then .printValue name else .printDefault

def handleSet : Handled :=
  match getArgValue args argSetMetric, getArgValue args argMetricValue with
  | some name, some value =>
    if m.validMetric name && hasArgWithValue args argMetricValue then .setValue name value else .printDefault
  | _, _ => .printDefault

def handleList : Handled :=
  match getArgValue args argList with
  | none => .printDefault
  | some value =>
    if value = "metrics".toList then .printMetrics
    else if value = "names".toList then .printNames
    else if value = "props".toList then .printAllProps
    else .printDefault

def handleProps : Handled :=
  match getArgValue args argMetricProps with
  | none => .printDefault
  | some name => if m.validMetric name then .printProps name else .printDefault

/-- `requestHandler`: the data format, and what it prints in it. -/
def requestHandler (path : Text) : Text × Handled :=
  let args := getArgsFromRequest path
  (resolveDataType args,
    if hasArgWithValue args argGetMetric then m.handleGet args
    else if hasArgWithValue args argSetMetric then m.handleSet args
    else if hasArgWithValue args argList then handleList args
    else if hasArgWithValue args argMetricProps then m.handleProps args
    else .printDefault)

/-- What the agent does with the request for a URL; `none` if its server finds
no path in the request. -/
def receives (T : Transport) (url : Text) : Option (Text × Handled) := (T.received url).map m.requestHandler

/-! ### The arguments of a request -/

/-- The arguments that a request has if this is what it does. -/
def Asked : Handled → Prop
  | .printValue name => getArgValue args argGetMetric = some name
  | .setValue name value =>
    getArgValue args argSetMetric = some name ∧ getArgValue args argMetricValue = some value
  | .printMetrics => getArgValue args argList = some "metrics".toList
  | .printNames => getArgValue args argList = some "names".toList
  | .printAllProps => getArgValue args argList = some "props".toList
  | .printProps name => getArgValue args argMetricProps = some name
  | .printDefault => True

variable {args} in
theorem asked_ite {p : Prop} [Decidable p] {done : Handled} (h : Asked args done) :
    Asked args (if p then done else .printDefault) := by
  by_cases hp : p
  · rw [if_pos hp]
    exact h
  · rw [if_neg hp]
    trivial

theorem asked_handleGet : Asked args (m.handleGet args) := by
  unfold handleGet
  split
  · trivial
  · rename_i name hg
    have hasked : Asked args (.printValue name) := hg
    exact asked_ite hasked

theorem asked_handleProps : Asked args (m.handleProps args) := by
  unfold handleProps
  split
  · trivial
  · rename_i name hg
    have hasked : Asked args (.printProps name) := hg
    exact asked_ite hasked

theorem asked_handleSet : Asked args (m.handleSet args) := by
  unfold handleSet
  split
  · rename_i name value hn hw
    have hasked : Asked args (.setValue name value) := ⟨hn, hw⟩
    exact asked_ite hasked
  · trivial

theorem asked_handleList : Asked args (handleList args) := by
  unfold handleList
  split
  · trivial
  · rename_i value hl
    by_cases hm : value = "metrics".toList
    · rw [if_pos hm]
      exact hl.trans (congrArg some hm)
    · rw [if_neg hm]
      by_cases hn : value = "names".toList
      · rw [if_pos hn]
        exact hl.trans (congrArg some hn)
      · rw [if_neg hn]
        by_cases hp : value = "props".toList
        · rw [if_pos hp]
          exact hl.trans (congrArg some hp)
        · rw [if_neg hp]
          trivial

/-- Whatever a request does, its arguments ask for it. -/
theorem asked_requestHandler (path : Text) : Asked (getArgsFromRequest path) (m.requestHandler path).2 := by
  simp only [requestHandler]
  split
  · exact m.asked_handleGet _
  · split
    · exact m.asked_handleSet _
    · split
      · exact asked_handleList _
      · split
        · exact m.asked_handleProps _
        · trivial

/-! ### The requests of the server -/

/-- A name that none of the parameters' names contains a sign of. -/
theorem isName_of_not_mem {name : Text} (h : ∀ c ∈ name, c ∉ "&;+%=".toList) : IsName name where
  ampersand hm := absurd (h _ hm) (by decide)
  semicolon hm := absurd (h _ hm) (by decide)
  plus hm := absurd (h _ hm) (by decide)
  escaped he := absurd (h _ he.mem) (by decide)
  equals hm := absurd (h _ hm) (by decide)

variable {m} {T : Transport} {c : Connector} {n v : Text}

theorem validMetric_of_mem (h : n ∈ m.metricNames) : m.validMetric n = true := decide_eq_true h

theorem hasArgWithValue_of_some {args : Text → List Text} {name value : Text} (h : getArgValue args name = some value)
    (hne : value ≠ []) : hasArgWithValue args name = true := by
  simp [hasArgWithValue, h, hne]

theorem hasArgWithValue_of_none {args : Text → List Text} {name : Text} (h : getArgValue args name = none) :
    hasArgWithValue args name = false := by
  simp [hasArgWithValue, h]

theorem getArgValue_single {name : Text} (hname : IsName name) (h : Plain n) (hne : n ≠ []) (key : Text) :
    getArgValue (parseQs (name ++ '=' :: n)) key = if name = key then some n else none :=
  valueOf_single hname h hne key

section Requests

variable (hc : c.Located)
include hc

/-- The URL of the page with a query, in its parts. -/
theorem exists_url (query : Text) : ∃ authority, (∀ d ∈ authority, d ∉ "/?#".toList) ∧
    c.buildURL ++ '?' :: query = url authority c.pagePath query := by
  have hport : ∀ d ∈ (toString c.port).toList, d ∉ "/?#".toList := by
    intro d hd hsign
    have hdigits : (toString c.port).toList = Nat.toDigits 10 c.port := by simp [Nat.repr, toString]
    rw [hdigits] at hd
    have hdigit := Nat.isDigit_of_mem_toDigits (by decide) (by decide) hd
    have hsigns : ∀ e ∈ "/?#".toList, ¬ e.isDigit = true := by decide
    exact hsigns d hsign hdigit
  refine ⟨c.host ++ ':' :: (toString c.port).toList, fun d hd => ?_, ?_⟩
  · rcases List.mem_append.mp hd with hd | hd
    · exact hc.host d hd
    · rcases List.mem_cons.mp hd with rfl | hd
      · decide
      · exact hport d hd
  · unfold url Connector.buildURL Connector.pagePath Connector.origin
    cases c.path <;> simp only [List.append_assoc, List.nil_append, List.cons_append]

theorem mark_not_mem_pagePath : '?' ∉ c.pagePath := by
  unfold Connector.pagePath
  cases hp : c.path with
  | none => exact List.not_mem_nil
  | some path => simpa using hc.path path hp

omit hc in
theorem pagePath_cases : c.pagePath = [] ∨ ∃ rest, c.pagePath = '/' :: rest := by
  unfold Connector.pagePath
  cases c.path with
  | none => exact Or.inl rfl
  | some path => exact Or.inr ⟨path, rfl⟩

/-- **What a request is made of**: if it does anything, the page's path came
through, and what of the query is carried asks for that. -/
theorem valueOf_received {query format : Text} {done : Handled}
    (h : m.receives T (c.buildURL ++ '?' :: query) = some (format, done)) (hd : done ≠ .printDefault) :
    c.Passes T ∧ Asked (parseQs (carried query)) done := by
  obtain ⟨authority, ha, hurl⟩ := exists_url hc query
  obtain ⟨path, hpath, hdone⟩ := Option.map_eq_some_iff.mp h
  have hasked := m.asked_requestHandler path
  rw [hdone] at hasked
  rw [hurl] at hpath
  rcases query_received ha (mark_not_mem_pagePath hc) pagePath_cases hpath with hnone | ⟨hpass, hquery⟩
  · -- no query, no arguments
    have hargs : getArgsFromRequest path = fun _ => [] := by
      simp only [getArgsFromRequest, hnone]
    rw [hargs] at hasked
    cases done with
    | printDefault => exact absurd rfl hd
    | setValue name value => exact absurd hasked.1 nofun
    | printValue name | printMetrics | printNames | printAllProps | printProps name => exact absurd hasked nofun
  · have hargs : getArgsFromRequest path = parseQs (carried query) := by
      simp only [getArgsFromRequest, hquery]
    rw [hargs] at hasked
    exact ⟨hpass, hasked⟩

/-- A query that is carried is read whole. -/
theorem receives_of_carried {query : Text} (hp : c.Passes T) (hquery : Carried query) (hend : Ended query) :
    ∃ path, getArgsFromRequest path = parseQs query ∧
      m.receives T (c.buildURL ++ '?' :: query) = some (m.requestHandler path) := by
  obtain ⟨authority, ha, hurl⟩ := exists_url hc query
  obtain ⟨path, hpath, hread⟩ :=
    received_of_carried ha (mark_not_mem_pagePath hc) pagePath_cases hp hquery hend
  refine ⟨path, by simp only [getArgsFromRequest, hread], ?_⟩
  rw [receives, hurl, hpath, Option.map_some]

end Requests

/-! ### The texts in a request -/

section Texts

variable {name : Text} (hname : IsName name) (hsent : Carried (name ++ ['='])) (hne : n ≠ [])
include hsent

theorem carried_argument_iff : Carried (name ++ '=' :: n) ↔ Carried n := by
  have hsplit : name ++ '=' :: n = (name ++ ['=']) ++ n := by simp
  rw [hsplit, carried_append]
  exact and_iff_right hsent

omit hsent in
include hne in
theorem ended_argument_iff : Ended (name ++ '=' :: n) ↔ Ended n := by
  have hsplit : name ++ '=' :: n = (name ++ ['=']) ++ n := by simp
  rw [hsplit, ended_append hne]

include hname hne

/-- One argument read as its value is carried whole, and plain. -/
theorem single_of_valueOf (h : getArgValue (parseQs (carried (name ++ '=' :: n))) name = some n) :
    Plain n ∧ Carried n ∧ Ended n := by
  have hlen := length_le_of_valueOf h
  have hwhole : carried (name ++ '=' :: n) = name ++ '=' :: n := by
    refine (carried_isPrefix _).eq_of_length_le ?_
    simp only [List.length_append, List.length_cons]
    omega
  rw [hwhole] at h
  obtain ⟨hcarried, hend⟩ := carried_eq_iff.mp hwhole
  exact ⟨(valueOf_single_iff hname hne).mp h, (carried_argument_iff hsent).mp hcarried, (ended_argument_iff hne).mp hend⟩

end Texts

section Requests

variable (hc : c.Located) (hn : n ∈ m.metricNames) (hne : n ≠ [])
include hc hn hne

theorem receives_buildGetMetricRequest_iff :
    m.receives T (URLBuilder.buildGetMetricRequest c.buildURL n) = some (defaultFormat, .printValue n) ↔
      c.Passes T ∧ Plain n ∧ Carried n ∧ Ended n := by
  have hname : IsName argGetMetric := isName_of_not_mem (by decide)
  have hsent : Carried (argGetMetric ++ ['=']) := ⟨by decide, by decide⟩
  have hurl : URLBuilder.buildGetMetricRequest c.buildURL n = c.buildURL ++ '?' :: (argGetMetric ++ '=' :: n) :=
    List.append_assoc ..
  rw [hurl]
  constructor
  · intro h
    obtain ⟨hpass, hasked⟩ := valueOf_received hc h nofun
    exact ⟨hpass, single_of_valueOf hname hsent hne hasked⟩
  · rintro ⟨hpass, h, hcarried, hend⟩
    obtain ⟨path, hargs, hreceives⟩ := receives_of_carried (m := m) hc hpass
      ((carried_argument_iff hsent).mpr hcarried) ((ended_argument_iff hne).mpr hend)
    have hvalue := getArgValue_single hname h hne
    have hget : getArgValue (parseQs (argGetMetric ++ '=' :: n)) argGetMetric = some n :=
      (hvalue argGetMetric).trans (if_pos rfl)
    have hformat : getArgValue (parseQs (argGetMetric ++ '=' :: n)) argDataFormat = none :=
      (hvalue argDataFormat).trans (if_neg (by decide))
    rw [hreceives, requestHandler, hargs]
    simp only [resolveDataType, hformat, hasArgWithValue_of_some hget hne, handleGet, hget, validMetric_of_mem hn,
      if_true]

theorem receives_buildMetricPropsRequest_iff :
    m.receives T (URLBuilder.buildMetricPropsRequest c.buildURL n) = some (defaultFormat, .printProps n) ↔
      c.Passes T ∧ Plain n ∧ Carried n ∧ Ended n := by
  have hname : IsName argMetricProps := isName_of_not_mem (by decide)
  have hsent : Carried (argMetricProps ++ ['=']) := ⟨by decide, by decide⟩
  have hurl : URLBuilder.buildMetricPropsRequest c.buildURL n = c.buildURL ++ '?' :: (argMetricProps ++ '=' :: n) :=
    List.append_assoc ..
  rw [hurl]
  constructor
  · intro h
    obtain ⟨hpass, hasked⟩ := valueOf_received hc h nofun
    exact ⟨hpass, single_of_valueOf hname hsent hne hasked⟩
  · rintro ⟨hpass, h, hcarried, hend⟩
    obtain ⟨path, hargs, hreceives⟩ := receives_of_carried (m := m) hc hpass
      ((carried_argument_iff hsent).mpr hcarried) ((ended_argument_iff hne).mpr hend)
    have hvalue := getArgValue_single hname h hne
    have hprops : getArgValue (parseQs (argMetricProps ++ '=' :: n)) argMetricProps = some n :=
      (hvalue argMetricProps).trans (if_pos rfl)
    have hother : ∀ key, argMetricProps ≠ key → getArgValue (parseQs (argMetricProps ++ '=' :: n)) key = none :=
      fun key hk => (hvalue key).trans (if_neg hk)
    rw [hreceives, requestHandler, hargs]
    simp only [resolveDataType, hother argDataFormat (by decide),
      hasArgWithValue_of_none (hother argGetMetric (by decide)),
      hasArgWithValue_of_none (hother argSetMetric (by decide)),
      hasArgWithValue_of_none (hother argList (by decide)), hasArgWithValue_of_some hprops hne,
      handleProps, hprops, validMetric_of_mem hn, if_true, Bool.false_eq_true, if_false]

theorem receives_buildSetMetricRequest_iff :
    m.receives T (URLBuilder.buildSetMetricRequest c.buildURL n v) = some (defaultFormat, .setValue n v) ↔
      c.Passes T ∧ (Plain n ∧ Carried n) ∧ Plain v ∧ Carried v ∧ Ended v ∧ v ≠ [] := by
  have hset : IsName argSetMetric := isName_of_not_mem (by decide)
  have hwith : IsName argMetricValue := isName_of_not_mem (by decide)
  have hsentSet : Carried (argSetMetric ++ ['=']) := ⟨by decide, by decide⟩
  have hsentWith : Carried (argMetricValue ++ ['=']) := ⟨by decide, by decide⟩
  have hurl : URLBuilder.buildSetMetricRequest c.buildURL n v =
      c.buildURL ++ '?' :: ((argSetMetric ++ '=' :: n) ++ '&' :: (argMetricValue ++ '=' :: v)) := by
    rw [URLBuilder.buildSetMetricRequest, URLBuilder.addRequest, URLBuilder.buildRequest, argSetMetric,
      argMetricValue]
    simp only [List.append_assoc, List.cons_append]
  have hmark : Carried ['&'] := ⟨by decide, by decide⟩
  have hcarried : Carried ((argSetMetric ++ '=' :: n) ++ '&' :: (argMetricValue ++ '=' :: v)) ↔
      Carried n ∧ Carried v := by
    have hsplit : (argSetMetric ++ '=' :: n) ++ '&' :: (argMetricValue ++ '=' :: v) =
        (argSetMetric ++ '=' :: n) ++ (['&'] ++ (argMetricValue ++ '=' :: v)) := rfl
    rw [hsplit, carried_append, carried_argument_iff hsentSet, @carried_append ['&'], carried_argument_iff hsentWith]
    exact and_congr_right fun _ => and_iff_right hmark
  have hended : v ≠ [] → (Ended ((argSetMetric ++ '=' :: n) ++ '&' :: (argMetricValue ++ '=' :: v)) ↔ Ended v) := by
    intro hv
    have hsplit : (argSetMetric ++ '=' :: n) ++ '&' :: (argMetricValue ++ '=' :: v) =
        (argSetMetric ++ '=' :: n ++ '&' :: (argMetricValue ++ ['='])) ++ v := by simp
    rw [hsplit, ended_append hv]
  rw [hurl]
  constructor
  · intro h
    obtain ⟨hpass, hn', hv'⟩ := valueOf_received hc h nofun
    have hlen := length_le_of_valueOf_pair (by decide) hn' hv'
    have hwhole : carried ((argSetMetric ++ '=' :: n) ++ '&' :: (argMetricValue ++ '=' :: v)) =
        (argSetMetric ++ '=' :: n) ++ '&' :: (argMetricValue ++ '=' :: v) := by
      refine (carried_isPrefix _).eq_of_length_le ?_
      simp only [List.length_append, List.length_cons]
      omega
    rw [hwhole] at hn' hv'
    obtain ⟨hc', hend⟩ := carried_eq_iff.mp hwhole
    obtain ⟨hcn, hcv⟩ := hcarried.mp hc'
    obtain ⟨hp, hp', hv⟩ := (valueOf_pair_iff hset hwith (by decide) hne).mp ⟨hn', hv'⟩
    exact ⟨hpass, ⟨hp, hcn⟩, hp', hcv, (hended hv).mp hend, hv⟩
  · rintro ⟨hpass, ⟨h, hcn⟩, h', hcv, hend, hne'⟩
    obtain ⟨path, hargs, hreceives⟩ := receives_of_carried (m := m) hc hpass (hcarried.mpr ⟨hcn, hcv⟩)
      ((hended hne').mpr hend)
    have hn' : getArgValue (parseQs ((argSetMetric ++ '=' :: n) ++ '&' :: (argMetricValue ++ '=' :: v))) argSetMetric =
        some n := by
      rw [getArgValue, valueOf_pair hset hwith h h' hne hne', if_pos rfl]
    have hv' : getArgValue (parseQs ((argSetMetric ++ '=' :: n) ++ '&' :: (argMetricValue ++ '=' :: v)))
        argMetricValue = some v := by
      rw [getArgValue, valueOf_pair hset hwith h h' hne hne', if_neg (by decide), if_pos rfl]
    have hother : ∀ key, argSetMetric ≠ key → argMetricValue ≠ key →
        getArgValue (parseQs ((argSetMetric ++ '=' :: n) ++ '&' :: (argMetricValue ++ '=' :: v))) key = none := by
      intro key hk hk'
      rw [getArgValue, valueOf_pair hset hwith h h' hne hne', if_neg hk, if_neg hk']
    rw [hreceives, requestHandler, hargs]
    simp only [resolveDataType, hother argDataFormat (by decide) (by decide),
      hasArgWithValue_of_none (hother argGetMetric (by decide) (by decide)), hasArgWithValue_of_some hn' hne,
      hasArgWithValue_of_some hv' hne', handleSet, hn', hv', validMetric_of_mem hn, Bool.and_self, if_true,
      Bool.false_eq_true, if_false]

end Requests

/-- Paths without `.` and `..` are sent as they are. -/
def plainTransport : Transport where
  normalized path := path
  normalized_sublist path := List.Sublist.refl path
  takesVersion version := version = "HTTP/1.0".toList ∨ version = "HTTP/1.1".toList
  takes := by decide

/-- An agent with a metric of this name. -/
def oneMetric (name : Text) : Metrics := ⟨[versionTag, name]⟩

def demo : Connector := ⟨"demo".toList, 443, some "plethora.py".toList⟩

theorem demo_located : demo.Located where
  host := by decide
  path path h := by
    cases h
    decide

theorem demo_passes : demo.Passes plainTransport := ⟨by decide, by decide⟩

end Metrics

end Plethoralib

end Plethora
