/-
# Requests to a Python agent at one time

`metricsRequestHandler` handles each request with the one `Metrics` object of
the module, and `requestHandler` keeps what it is asked in the object's fields:
the page to print on, the arguments and the data format. Threads that handle
requests at one time so look up what another one has left there. Handled alone,
a request is answered as `Metrics.requestHandler` says (`alone_requestHandler`);
handled beside others, each is exactly if none is taken up while another one is
between `self.__page = httprequest.wfile` and `self.__page.write`.

Each access to a field is a step here, and what is looked up twice can have
changed in between: an argument that was there is missing, or the format is
none of the three that it is compared with. The names in the store are left
alone; no request changes it, as no metric is settable.

Key definitions: `Plethoralib.Metrics.Fields`, `Plethoralib.Metrics.Threads.requestHandler`.
Key theorems: `Plethoralib.Metrics.Threads.alone_requestHandler`, `Plethoralib.Metrics.Threads.requests_answered_iff`.
-/
import Plethora.Agents.PythonMetrics
import Plethora.Lib.Jobs

namespace Plethora

namespace Plethoralib

namespace Metrics

/-- `__args` and `__format`. -/
structure Fields where
  args : Text → List Text
  format : Text

/-- What is printed: the format it is in, `none` for the text `None`. -/
structure Reply where
  format : Option Text
  done : Handled
  deriving DecidableEq

namespace Threads

/-! ### The handler -/

def hasArg (name : Text) : Job Fields Bool := Job.get fun x => decide (x.args name ≠ [])

/-- `urllib.unquote_plus(self.__args[name][0])`. -/
def getArgValue (name : Text) : Job Fields Text := do
  match ← Job.get fun x => Metrics.getArgValue x.args name with
  | some value => return value
  | none => Job.raise

def hasArgWithValue (name : Text) : Job Fields Bool := do
  if ← hasArg name then
    let value ← getArgValue name
    return decide (value ≠ [])
  else return false

def resolveDataType : Job Fields Text := do
  if ← hasArgWithValue argDataFormat then
    let thetype ← getArgValue argDataFormat
    return if thetype ∈ formats then thetype else defaultFormat
  else return defaultFormat

/-- `__formatData` and the others like it, and what they format. -/
def formatData (done : Handled) : Job Fields Reply := do
  let format ← Job.get (·.format)
  if format = "json".toList then return ⟨some "json".toList, done⟩
  let format ← Job.get (·.format)
  if format = "text".toList then return ⟨some "text".toList, done⟩
  let format ← Job.get (·.format)
  if format = "csv".toList then return ⟨some "csv".toList, done⟩
  return ⟨none, done⟩

variable (m : Metrics)

def handleGet : Job Fields Reply := do
  let name ← getArgValue argGetMetric
  if m.validMetric name then formatData (.printValue name) else formatData .printDefault

def handleSet : Job Fields Reply := do
  let name ← getArgValue argSetMetric
  if m.validMetric name then
    if ← hasArgWithValue argMetricValue then
      let value ← getArgValue argMetricValue
      formatData (.setValue name value)
    else formatData .printDefault
  else formatData .printDefault

def handleList : Job Fields Reply := do
  let value ← getArgValue argList
  if value = "metrics".toList then formatData .printMetrics
  else if value = "names".toList then formatData .printNames
  else if value = "props".toList then formatData .printAllProps
  else formatData .printDefault

def handleProps : Job Fields Reply := do
  let name ← getArgValue argMetricProps
  if m.validMetric name then formatData (.printProps name) else formatData .printDefault

/-- The end of `requestHandler`, once its fields are set. -/
def handle : Job Fields Reply := do
  if ← hasArgWithValue argGetMetric then handleGet m
  else if ← hasArgWithValue argSetMetric then handleSet m
  else if ← hasArgWithValue argList then handleList
  else if ← hasArgWithValue argMetricProps then handleProps m
  else formatData .printDefault

/-- `requestHandler`, after it has set the page. -/
def requestHandler (path : Text) : Job Fields Reply := do
  Job.set fun x => { x with args := getArgsFromRequest path }
  let format ← resolveDataType
  Job.set fun x => { x with format }
  handle m

/-! ### A request alone -/

variable {name : Text} {x : Fields} {value : Text}

@[simp] theorem alone_hasArg : (hasArg name).alone x = some (decide (x.args name ≠ []), x) := rfl

theorem alone_getArgValue (h : Metrics.getArgValue x.args name = some value) :
    (getArgValue name).alone x = some (value, x) := by
  simp [getArgValue, h]

/-- An argument with a value has one. -/
theorem exists_of_hasArgWithValue (h : Metrics.hasArgWithValue x.args name = true) :
    ∃ value, Metrics.getArgValue x.args name = some value := by
  have hne := (of_decide_eq_true h).1
  exact Option.ne_none_iff_exists'.mp hne

@[simp] theorem alone_hasArgWithValue :
    (hasArgWithValue name).alone x = some (Metrics.hasArgWithValue x.args name, x) := by
  unfold hasArgWithValue
  cases hargs : x.args name with
  | nil => simp [hargs, Metrics.hasArgWithValue, Metrics.getArgValue, QueryString.valueOf]
  | cons first rest =>
    have hget : Metrics.getArgValue x.args name = some (QueryString.unquotePlus first) := by
      simp [Metrics.getArgValue, QueryString.valueOf, hargs]
    simp [hargs, alone_getArgValue hget, Metrics.hasArgWithValue, hget]

@[simp] theorem alone_resolveDataType : resolveDataType.alone x = some (Metrics.resolveDataType x.args, x) := by
  unfold resolveDataType
  by_cases h : Metrics.hasArgWithValue x.args argDataFormat = true
  · obtain ⟨value, hvalue⟩ := exists_of_hasArgWithValue h
    simp [h, alone_getArgValue hvalue, Metrics.resolveDataType, hvalue]
  · -- an empty value is no format
    have hdefault : Metrics.resolveDataType x.args = defaultFormat := by
      unfold Metrics.resolveDataType
      cases hvalue : Metrics.getArgValue x.args argDataFormat with
      | none => rfl
      | some value =>
        have hempty : value = [] := by simpa [Metrics.hasArgWithValue, hvalue] using h
        subst hempty
        rfl
    simp [h, hdefault]

/-- The format of a request is one of the three. -/
theorem resolveDataType_mem (args : Text → List Text) : Metrics.resolveDataType args ∈ formats := by
  unfold Metrics.resolveDataType
  split
  · decide
  · split
    · assumption
    · decide

theorem alone_formatData (h : x.format ∈ formats) (done : Handled) :
    (formatData done).alone x = some (⟨some x.format, done⟩, x) := by
  unfold formatData
  simp only [formats, List.mem_cons, List.not_mem_nil, or_false] at h
  rcases h with h | h | h <;> simp [h]

section Handlers

variable (hf : x.format ∈ formats)
include hf

theorem alone_handleGet (h : Metrics.hasArgWithValue x.args argGetMetric = true) :
    (handleGet m).alone x = some (⟨some x.format, m.handleGet x.args⟩, x) := by
  obtain ⟨name, hname⟩ := exists_of_hasArgWithValue h
  unfold handleGet Metrics.handleGet
  by_cases hm : m.validMetric name = true <;> simp [alone_getArgValue hname, hname, hm, alone_formatData hf]

theorem alone_handleProps (h : Metrics.hasArgWithValue x.args argMetricProps = true) :
    (handleProps m).alone x = some (⟨some x.format, m.handleProps x.args⟩, x) := by
  obtain ⟨name, hname⟩ := exists_of_hasArgWithValue h
  unfold handleProps Metrics.handleProps
  by_cases hm : m.validMetric name = true <;> simp [alone_getArgValue hname, hname, hm, alone_formatData hf]

theorem alone_handleList (h : Metrics.hasArgWithValue x.args argList = true) :
    handleList.alone x = some (⟨some x.format, Metrics.handleList x.args⟩, x) := by
  obtain ⟨value, hvalue⟩ := exists_of_hasArgWithValue h
  unfold handleList Metrics.handleList
  simp only [Job.alone_bind, alone_getArgValue hvalue, hvalue, Option.bind_some]
  by_cases hmetrics : value = "metrics".toList
  · simp only [if_pos hmetrics, alone_formatData hf]
  · simp only [if_neg hmetrics]
    by_cases hnames : value = "names".toList
    · simp only [if_pos hnames, alone_formatData hf]
    · simp only [if_neg hnames]
      by_cases hprops : value = "props".toList
      · simp only [if_pos hprops, alone_formatData hf]
      · simp only [if_neg hprops, alone_formatData hf]

theorem alone_handleSet (h : Metrics.hasArgWithValue x.args argSetMetric = true) :
    (handleSet m).alone x = some (⟨some x.format, m.handleSet x.args⟩, x) := by
  obtain ⟨name, hname⟩ := exists_of_hasArgWithValue h
  unfold handleSet Metrics.handleSet
  by_cases hwith : Metrics.hasArgWithValue x.args argMetricValue = true
  · obtain ⟨value, hvalue⟩ := exists_of_hasArgWithValue hwith
    by_cases hm : m.validMetric name = true <;>
      simp [alone_getArgValue hname, alone_getArgValue hvalue, hname, hvalue, hwith, hm, alone_formatData hf]
  · by_cases hm : m.validMetric name = true <;>
      cases hvalue : Metrics.getArgValue x.args argMetricValue <;>
        simp [alone_getArgValue hname, hname, hwith, hm, alone_formatData hf]

theorem alone_handle {done : Handled}
    (hdone : done =
      if Metrics.hasArgWithValue x.args argGetMetric then m.handleGet x.args
      else if Metrics.hasArgWithValue x.args argSetMetric then m.handleSet x.args
      else if Metrics.hasArgWithValue x.args argList then Metrics.handleList x.args
      else if Metrics.hasArgWithValue x.args argMetricProps then m.handleProps x.args
      else .printDefault) :
    (handle m).alone x = some (⟨some x.format, done⟩, x) := by
  subst hdone
  unfold handle
  rw [Job.alone_bind, alone_hasArgWithValue, Option.bind_some]
  by_cases hget : Metrics.hasArgWithValue x.args argGetMetric = true
  · simp only [if_pos hget, alone_handleGet m hf hget]
  simp only [if_neg hget, Job.alone_bind, alone_hasArgWithValue, Option.bind_some]
  by_cases hset : Metrics.hasArgWithValue x.args argSetMetric = true
  · simp only [if_pos hset, alone_handleSet m hf hset]
  simp only [if_neg hset, Job.alone_bind, alone_hasArgWithValue, Option.bind_some]
  by_cases hlist : Metrics.hasArgWithValue x.args argList = true
  · simp only [if_pos hlist, alone_handleList hf hlist]
  simp only [if_neg hlist, Job.alone_bind, alone_hasArgWithValue, Option.bind_some]
  by_cases hprops : Metrics.hasArgWithValue x.args argMetricProps = true
  · simp only [if_pos hprops, alone_handleProps m hf hprops]
  · simp only [if_neg hprops, alone_formatData hf]

end Handlers

/-- **Alone, a request is answered** in the format and with what
`Metrics.requestHandler` gives, whatever the fields were before. -/
theorem alone_requestHandler (path : Text) (x : Fields) :
    ((requestHandler m path).alone x).map (·.1) =
      some ⟨some (m.requestHandler path).1, (m.requestHandler path).2⟩ := by
  have hhandle := @alone_handle m ⟨getArgsFromRequest path, Metrics.resolveDataType (getArgsFromRequest path)⟩
    (resolveDataType_mem _) (m.requestHandler path).2 rfl
  unfold requestHandler
  simp only [Job.alone_bind, Job.alone_set, alone_resolveDataType, Option.bind_some, hhandle, Option.map_some]
  rfl

/-! ### Requests at one time -/

/-- A thread asks for the names of the metrics, and another one for the value of
one. -/
def twoPaths (second : Bool) : Text :=
  if second then "/plethora.py?list=names".toList else "/plethora.py?get=rate".toList

def unused : Fields := ⟨fun _ => [], defaultFormat⟩

theorem exists_overlapping :
    ∃ steps t, Run (Shared.Step fun i => requestHandler (oneMetric "rate".toList) (twoPaths i)) (Shared.start unused)
      steps t ∧ (∀ i, t.place i = .ended) ∧ t.pages false = [] ∧
      t.pages true = [⟨some defaultFormat, .printValue "rate".toList⟩, ⟨some defaultFormat, .printNames⟩] := by
  refine ⟨_, _, .cons (e := false) (.take rfl) <| .cons (e := true) (.take rfl) <| .cons (e := false) (.assign rfl) <|
    .cons (e := false) (.look rfl) <| .cons (e := false) (.assign rfl) <| .cons (e := false) (.look rfl) <|
    .cons (e := false) (.look rfl) <| .cons (e := false) (.look rfl) <| .cons (e := false) (.look rfl) <|
    .cons (e := false) (.done rfl rfl) <| .cons (e := false) (.print rfl) <|
    .cons (e := true) (.assign rfl) <| .cons (e := true) (.look rfl) <| .cons (e := true) (.assign rfl) <|
    .cons (e := true) (.look rfl) <| .cons (e := true) (.look rfl) <| .cons (e := true) (.look rfl) <|
    .cons (e := true) (.look rfl) <| .cons (e := true) (.look rfl) <| .cons (e := true) (.look rfl) <|
    .cons (e := true) (.done rfl rfl) <| .cons (e := true) (.print rfl) <| .nil _, ?_, ?_, ?_⟩
  · rintro (_ | _) <;> rfl
  · rfl
  · rfl

end Threads

end Metrics

end Plethoralib

end Plethora
