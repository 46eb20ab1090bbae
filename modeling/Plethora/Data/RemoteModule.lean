/-
# Modules with a remote end

`WebModule` and `JMXModule`: how each checks its remote end, discovers its
metrics and reads one. The remote end is what it answers to each request,
numbered in the order they are made; the JSON library is a parameter
(`OrgJson`), and so is whether the module's URL is one `java.net.URL` takes,
which its scheme, host and port decide for all requests alike.

A web request that fails with an I/O error is followed by `reconnect`, also
when it was made by the discovery of a `connect` in progress. So
`WebModule.connect` calls itself, through `remoteRequest`, at any depth, and
is tied here over the depth of the call stack. A JMX discovery never
reconnects: it gives up on any error of `getMBeanInfo`.

Key definitions: `WebModule.remoteRequest`, `WebModule.discoverMetrics`,
`WebModule.connect`, `JMXModule.discoverMetrics`, `JMXModule.connect`,
`RemoteModule.connect`, `RemoteModule.getValue`.
-/
import Plethora.Data.Module

namespace Plethora

/-- What the modules use of `org.json`: each member of the object a text
parses to, `none` where the library throws `JSONException`. -/
structure OrgJson where
  getString : Text → Text → Option Text
  get : Text → Text → Option JavaObject
  /-- `getJSONArray(name)`, then `getString(i)` for every `i`. -/
  getStrings : Text → Text → Option (List Text)

/-- `RemoteModule.isValidMetricAndModuleConnected`. -/
def isValidMetricAndModuleConnected (metric : Text) : Java Bool := do
  let s ← Eff.get
  return metric ≠ [] && s.module.connected

/-! ### `URLBuilder` -/

namespace URLBuilder

def buildRequest (url name value : Text) : Text := url ++ '?' :: name ++ '=' :: value

def addRequest (request name value : Text) : Text := request ++ '&' :: name ++ '=' :: value

def buildGetMetricRequest (url metric : Text) : Text := buildRequest url "get".toList metric

def buildMetricPropsRequest (url metric : Text) : Text := buildRequest url "props".toList metric

def buildListNamesRequest (url : Text) : Text := buildRequest url "list".toList "names".toList

def buildSetMetricRequest (url metric value : Text) : Text :=
  addRequest (buildRequest url "set".toList metric) "with".toList value

end URLBuilder

/-! ### `Connector` -/

/-- Where the page of an agent is. -/
structure Connector where
  host : Text
  port : ℕ
  path : Option Text

namespace Connector

/-- What a URL of the agent has before the path. -/
def origin (c : Connector) : Text := "https://".toList ++ c.host ++ ':' :: (toString c.port).toList

def buildURL (c : Connector) : Text :=
  match c.path with
  | none => c.origin
  | some path => c.origin ++ '/' :: path

end Connector

/-! ### `WebModule` -/

/-- How the remote end takes one HTTP request. -/
inductive Reply
  | text (body : Text)
  | ioException

structure WebModule where
  url : Text
  validUrl : Bool
  /-- The answer to the request with this number for this URL. -/
  remote : ℕ → Text → Reply
  json : OrgJson

namespace WebModule

variable (w : WebModule) (reconnect : Java Bool)

/-- `connector.getResponse(url)`: null for a malformed URL, `error` for an I/O
exception. -/
def getResponse (url : Text) (s : Running) : Except Unit (Option Text) :=
  if w.validUrl then
    match w.remote s.module.requests.length url with
    | .text body => .ok (some body)
    | .ioException => .error ()
  else .ok none

/-- How the remote end answers the request with this number. -/
def answered (i : ℕ) (url : Text) : Except Unit (Option Text) :=
  if w.validUrl then
    match w.remote i url with
    | .text body => .ok (some body)
    | .ioException => .error ()
  else .ok none

/-- `remoteRequest(url, retry)`. -/
def remoteRequest (url : Text) (retry : Bool) (describe : Option Text → RemoteEvent) :
    Java (Option Text) := do
  let s ← Eff.get
  match w.getResponse url s with
  | .ok response => do
    Module.record (describe response)
    return response
  | .error _ => do
    Module.record (describe none)
    if retry then do
      let _ ← reconnect -- retry failed connection
      return none
    else return none

/-- The status page of a live agent says 204. -/
def saysAlive (response : Option Text) : Bool :=
  match response with
  | none => false
  | some body => decide ("204".toList <:+: body)

def connectionStatus : Java Bool := do
  let response ← w.remoteRequest reconnect w.url false fun r => .status (saysAlive r)
  return saysAlive response

/-- The names in a reply to the list request, `none` if it holds no list. -/
def listedNames (response : Option Text) : Option (List Text) :=
  response.bind fun body => w.json.getStrings body "plethora".toList

def getMetricNamesList : Java (List Text) := do
  let response ← w.remoteRequest reconnect (URLBuilder.buildListNamesRequest w.url) true
    fun r => .discovery (w.listedNames r)
  return (w.listedNames response).getD []

/-- The properties in a reply to the property request. -/
def decodeProperties (body : Text) : Except JavaError MetricProperties := do
  let options := w.json.getString body "options".toList
  let level ← OptionString.getLevel options
  let type ← OptionString.getType options
  let writable ← OptionString.getWritable options
  return ((({ level, type, writable } : MetricProperties).setDisplayname
    (w.json.getString body "displayname".toList)).setDescription
      (w.json.getString body "description".toList))

def getMetricProperties (metric : Text) : Java (Option MetricProperties) := do
  let response ← w.remoteRequest reconnect (URLBuilder.buildMetricPropsRequest w.url metric) true
    fun r => .property metric r.isSome
  match response with
  | none => return none
  | some body => do
    let properties ← Eff.lift (w.decodeProperties body)
    return some properties

/-- The loop of `discoverMetrics` over the names. -/
def discoverAll : List Text → Java Unit
  | [] => return ()
  | metricname :: names => do
    let properties ← w.getMetricProperties reconnect metricname
    match properties with
    | none => discoverAll names
    | some properties => do
      Module.addMetric metricname properties
      discoverAll names

def discoverMetrics : Java Unit := do
  let names ← w.getMetricNamesList reconnect
  w.discoverAll reconnect names

def getRemoteGenericMetric (metric : Text) : Java (Option JavaObject) := do
  let response ← w.remoteRequest reconnect (URLBuilder.buildGetMetricRequest w.url metric) true
    fun r => .value metric r.isSome
  return response.bind fun body => w.json.get body metric

/-- `connect`, on a stack of the given depth. -/
def connect : ℕ → Java Bool
  | 0 => Eff.overflow
  | depth + 1 => Module.connect (w.connectionStatus (connect depth)) (w.discoverMetrics (connect depth))

end WebModule

/-! ### `JMXModule` -/

/-- `MBeanAttributeInfo`. -/
structure MBeanAttributeInfo where
  name : Text
  /-- The name of its Java class. -/
  type : Text
  description : Option Text

/-- How the remote end takes one `getAttribute`. -/
inductive AttributeAnswer
  | value (v : Option JavaObject)
  /-- Attribute or MBean not found, or an exception of the MBean's own. -/
  | jmxException
  | ioException

/-- What the remote end does on one request, whichever it is. -/
structure JMXAnswer where
  connects : Bool
  /-- The attributes of the MBean, `none` for any exception. -/
  info : Option (List MBeanAttributeInfo)
  getAttribute : AttributeAnswer

structure JMXModule where
  remote : ℕ → JMXAnswer
  json : OrgJson

namespace JMXModule

variable (j : JMXModule)

def answer (s : Running) : JMXAnswer := j.remote s.module.requests.length

def connectionStatus : Java Bool := do
  let s ← Eff.get
  Module.record (.status (j.answer s).connects)
  return (j.answer s).connects

def nameToType (type : Text) : MetricType :=
  if type = "java.lang.Long".toList then .number
  else if type = "java.lang.String".toList then .text
  else if type = "java.lang.Boolean".toList then .boolean
  else .invalid

/-- `MetricDescriptionParser.decodeToProperties`. -/
def decodeToProperties (description : Option Text) : Except JavaError MetricProperties := do
  let member (name : Text) : Option Text := description.bind fun d => j.json.getString d name
  let properties := (({} : MetricProperties).setDisplayname (member "name".toList)).setDescription
    (member "description".toList)
  match member "options".toList with
  | none => return properties
  | some options => do
    let type ← OptionString.getType (some options)
    let level ← OptionString.getLevel (some options)
    let writable ← OptionString.getWritable (some options)
    return { properties with type, level, writable }

/-- The loop of `discoverMetrics` over the attributes. -/
def discoverAll : List MBeanAttributeInfo → Java Unit
  | [] => return ()
  | attrib :: attribs => do
    let properties ← Eff.lift (j.decodeToProperties attrib.description)
    Module.addMetric attrib.name { properties with type := nameToType attrib.type }
    discoverAll attribs

def discoverMetrics : Java Unit := do
  let s ← Eff.get
  Module.record (.discovery ((j.answer s).info.map fun attribs => attribs.map (·.name)))
  match (j.answer s).info with
  | none => return ()
  | some attribs => j.discoverAll attribs

def connect : Java Bool := Module.connect j.connectionStatus j.discoverMetrics

/-- `getRemoteValueFromMBean`. A connected module has a server connection. -/
def getRemoteGenericMetric (metric : Text) : Java (Option JavaObject) := do
  let s ← Eff.get
  match (j.answer s).getAttribute with
  | .value v => do
    Module.record (.value metric true)
    return v
  | .jmxException => do
    Module.record (.value metric false)
    return none
  | .ioException => do
    Module.record (.value metric false)
    let _ ← j.connect -- retry failed connection
    return none

end JMXModule

/-! ### `RemoteModule` -/

inductive RemoteModule
  | web (w : WebModule)
  | jmx (j : JMXModule)

namespace RemoteModule

/-- `connect`, and `reconnect`, which only calls it. -/
def connect (depth : ℕ) : RemoteModule → Java Bool
  | .web w => w.connect depth
  | .jmx j => j.connect

def getRemoteGenericMetric (depth : ℕ) (metric : Text) : RemoteModule → Java (Option JavaObject)
  | .web w => w.getRemoteGenericMetric (w.connect depth) metric
  | .jmx j => j.getRemoteGenericMetric metric

def getValue (depth : ℕ) (m : RemoteModule) (metric : Text) : Java (Option JavaObject) := do
  if ← isValidMetricAndModuleConnected metric then m.getRemoteGenericMetric depth metric
  else return none

open Eff in
/-- What the request of a read keeps, the read keeps. -/
theorem keeps_getValue_of {I : Running → Prop} {depth : ℕ} {m : RemoteModule} {metric : Text}
    (h : Keeps I (m.getRemoteGenericMetric depth metric)) : Keeps I (m.getValue depth metric) := by
  unfold getValue isValidMetricAndModuleConnected
  refine keeps_bind (keeps_bind keeps_get fun _ => keeps_pure _) fun b => ?_
  cases b with
  | false => exact keeps_pure _
  | true => exact h

end RemoteModule

end Plethora
