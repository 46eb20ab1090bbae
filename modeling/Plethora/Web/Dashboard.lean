/-
# The dashboard

`main.js`, the page of the web root that shows the metrics. It asks for the
names of the number metrics until there are some, and makes a button and a
series of points for each. Then it asks for all metrics, again and again: each
reply moves every series one place to the front and puts the new value at its
end, and the series of the selected metric is drawn. A click on a button
selects its metric.

The names are those a selector of jQuery finds by their id: letters, digits,
underscores, hyphens, and dots and colons, which the page escapes (`idOf_jqid`).
What a reply does to a page with such names is told by `refreshData_eq`; what
holds over runs is in `DashboardRuns`.

Key definitions: `Dashboard.State`, `Dashboard.refreshData`, `Dashboard.Event`, `Dashboard.Step`.
Key theorems: `Dashboard.idOf_jqid`, `Dashboard.refreshNumbers_eq`, `Dashboard.refreshData_eq`.
-/
import Plethora.Common.Java
import Plethora.Lib.Runs
import Plethora.Lib.Window

namespace Plethora

namespace Dashboard

def dataPoints : ℕ := 100

def updateInterval : ℤ := 5 * 1000

def retryIntervalSeconds : ℕ := 2

/-! ### The page -/

/-- A value of a point or of a reply. -/
inductive Value (α : Type)
  | null
  | undefined
  | value (v : α)
  deriving DecidableEq

/-- The value, if there is one. -/
def Value.value? {α : Type} : Value α → Option α
  | .value v => some v
  | _ => none

structure Point (α : Type) where
  time : ℤ
  value : Value α
  deriving DecidableEq

structure Button where
  id : Text
  value : Text
  disabled : Bool
  deriving DecidableEq

/-- A row of the table of text metrics. -/
structure Row where
  id : Text
  text : Text
  deriving DecidableEq

/-- The variables of the script, the elements of the page that it changes, and
the requests and timers that are pending. -/
structure State (α : Type) where
  names : List Text := []
  textNames : List Text := []
  data : Text → List (Point α) := fun _ => []
  clicklock : ℕ := 0
  /-- The button that was disabled last. -/
  lastbutton : Option Text := none
  selectedMetric : Option Text := none
  initRetry : ℕ := 1
  messages : Text := []
  graphtitle : Text := []
  graphvalue : Text := []
  /-- What `plot` draws, once it has been redrawn. -/
  graph : Option (List (Point α)) := none
  buttons : List Button := []
  rows : List Row := []
  nameRequests : ℕ := 0
  textNameRequests : ℕ := 0
  metricRequests : ℕ := 0
  retryTimers : ℕ := 0
  updateTimers : ℕ := 0

/-! ### Selectors -/

/-- `anid.replace(/(:|\.)/g, '\\$1')`. -/
def jqesc (anid : Text) : Text := anid.flatMap fun c => if c = ':' ∨ c = '.' then ['\\', c] else [c]

def jqid (anid : Text) : Text := '#' :: jqesc anid

/-- A character of an id that needs no escape. -/
def isWord (c : Char) : Bool := c.isAlphanum || c = '_' || c = '-'

/-- The id in the rest of a selector, with its escapes resolved. -/
def unescaped : Text → Option Text
  | [] => some []
  | c :: t =>
    if c = '\\' then
      match t with
      | [] => none
      | d :: t => (unescaped t).map (d :: ·)
    else if isWord c then (unescaped t).map (c :: ·)
    else none

/-- The id of the elements that a selector of nothing but an id selects. -/
def idOf : Text → Option Text
  | '#' :: t => if t = [] then none else unescaped t
  | _ => none

/-- A name that is an id once its dots and colons are escaped. -/
def Plain (name : Text) : Prop := name ≠ [] ∧ ∀ c ∈ name, isWord c = true ∨ c = ':' ∨ c = '.'

/-! ### What the page shows -/

/-- The time in the message to wait. -/
def formatSeconds (seconds : ℕ) : Text :=
  (toString (seconds / (60 * 60))).toList ++ ':' :: (toString (seconds % (60 * 60) / 60)).toList ++
    ':' :: (toString (seconds % (60 * 60) % 60)).toList

def makeButton (name : Text) : Button := ⟨name, name, false⟩

def makeItem (name : Text) : Row := ⟨name, []⟩

/-- The points of a series before there are values. -/
def initData {α : Type} (now : ℤ) : List (Point α) :=
  (List.range dataPoints).map fun i => ⟨now - dataPoints * updateInterval + i * updateInterval, .null⟩

section Handlers

variable {α : Type} (str : α → Text)

/-- The text of a value in a concatenation. -/
def concatenated : Value α → Text
  | .null => "null".toList
  | .undefined => "undefined".toList
  | .value v => str v

/-- `elem.text(value)`: without a value it reads the text and leaves it. -/
def setText (value : Value α) (old : Text) : Text :=
  match value with
  | .value v => str v
  | _ => old

/-- The first element with the id that the selector is for is changed: the
buttons come before the rows. -/
def onButton (selector : Text) (change : Button → Button) (s : State α) : State α :=
  { s with buttons := s.buttons.map fun b => if idOf selector = some b.id then change b else b }

def onRow (selector : Text) (change : Row → Row) (s : State α) : State α :=
  if s.buttons.any fun b => idOf selector = some b.id then s
  else { s with rows := s.rows.map fun r => if idOf selector = some r.id then change r else r }

def labelOf (name : Text) (value : Value α) : Text := name ++ " = ".toList ++ concatenated str value

def updateButton (name : Text) (value : Value α) (s : State α) : State α :=
  onButton (jqid name) (fun b => { b with value := labelOf str name value }) s

def updateText (name : Text) (value : Value α) (s : State α) : State α :=
  onRow (jqid name) (fun r => { r with text := setText str value r.text }) s

def buttonDisableByValue (name : Text) (s : State α) : State α :=
  onButton (jqid name) (fun b => { b with disabled := true }) { s with lastbutton := some name }

/-! ### The handlers -/

def getMetricNames (s : State α) : State α := { s with nameRequests := s.nameRequests + 1 }

def getTextMetricNames (s : State α) : State α := { s with textNameRequests := s.textNameRequests + 1 }

def getServerData (s : State α) : State α := { s with metricRequests := s.metricRequests + 1 }

def update (s : State α) : State α :=
  let s := getServerData s
  if s.clicklock = 0 then { s with updateTimers := s.updateTimers + 1 } else s

/-- The body of the loop over the number metrics. -/
def refreshNumber (metrics : Text → Value α) (times : Text → ℤ) (s : State α) (name : Text) : State α :=
  updateButton str name (metrics name)
    { s with data := fun n =>
        if n = name then Window.push (dataPoints - 1) (s.data n) ⟨times name, metrics name⟩ else s.data n }

def redrawGraph (selected : Text) (s : State α) : State α := { s with graph := some (s.data selected) }

def refreshData (metrics : Text → Value α) (times : Text → ℤ) (s : State α) : State α :=
  let s := s.names.foldl (refreshNumber str metrics times) s
  let s := s.textNames.foldl (fun s name => updateText str name (metrics name) s) s
  match s.selectedMetric with
  | none => s
  | some selected =>
    { redrawGraph selected s with graphtitle := selected, graphvalue := setText str (metrics selected) s.graphvalue }

def onNamesReceived (names : List Text) (times : Text → ℤ) (s : State α) : State α :=
  match names with
  | [] =>
    { s with
      names := []
      messages := "Waiting for metrics to be available ... ".toList ++ formatSeconds (retryIntervalSeconds * s.initRetry)
      initRetry := s.initRetry + 1
      retryTimers := s.retryTimers + 1 }
  | initialMetric :: _ =>
    let s := { s with
      names := names
      messages := []
      buttons := s.buttons ++ names.map makeButton
      data := fun n => if n ∈ names then initData (times n) else s.data n }
    let s := { getTextMetricNames s with selectedMetric := some initialMetric }
    update (getServerData (buttonDisableByValue initialMetric s))

def onTextNamesReceived (textNames : List Text) (s : State α) : State α :=
  { s with textNames, rows := s.rows ++ textNames.map makeItem }

/-- A click on the button of this name. -/
def onClick (name : Text) (s : State α) : State α :=
  let s := { s with clicklock := 1 }
  let s := { s with
    buttons := s.buttons.map fun b : Button =>
      if b.id = name then { b with disabled := true }
      else if some b.id = s.lastbutton then { b with disabled := false }
      else b
    lastbutton := some name
    selectedMetric := some name }
  update { s with clicklock := 0 }

end Handlers

/-! ### Replies, timers and clicks -/

inductive Event (α : Type)
  | namesReceived (names : List Text) (times : Text → ℤ)
  | textNamesReceived (textNames : List Text)
  | metricsReceived (metrics : Text → Value α) (times : Text → ℤ)
  | namesFailed
  | textNamesFailed
  | metricsFailed
  /-- The timer of `getMetricNames` runs out. -/
  | retry
  /-- A timer of `update` runs out. -/
  | tick
  | click (name : Text)

/-- A reply comes to a pending request, a timer that runs is up, or a button
that is not disabled is clicked. The names of a reply are a set. -/
inductive Step {α : Type} (str : α → Text) : State α → Event α → State α → Prop
  | namesReceived {s : State α} {names : List Text} {times : Text → ℤ} (pending : 0 < s.nameRequests)
      (nodup : names.Nodup) (plain : ∀ n ∈ names, Plain n) :
      Step str s (.namesReceived names times)
        (onNamesReceived names times { s with nameRequests := s.nameRequests - 1 })
  | textNamesReceived {s : State α} {textNames : List Text} (pending : 0 < s.textNameRequests) (nodup : textNames.Nodup)
      (plain : ∀ n ∈ textNames, Plain n) :
      Step str s (.textNamesReceived textNames)
        (onTextNamesReceived textNames { s with textNameRequests := s.textNameRequests - 1 })
  | metricsReceived {s : State α} {metrics : Text → Value α} {times : Text → ℤ} (pending : 0 < s.metricRequests) :
      Step str s (.metricsReceived metrics times)
        (refreshData str metrics times { s with metricRequests := s.metricRequests - 1 })
  | namesFailed {s : State α} (pending : 0 < s.nameRequests) :
      Step str s .namesFailed { s with nameRequests := s.nameRequests - 1 }
  | textNamesFailed {s : State α} (pending : 0 < s.textNameRequests) :
      Step str s .textNamesFailed { s with textNameRequests := s.textNameRequests - 1 }
  | metricsFailed {s : State α} (pending : 0 < s.metricRequests) :
      Step str s .metricsFailed { s with metricRequests := s.metricRequests - 1 }
  | retry {s : State α} (runs : 0 < s.retryTimers) :
      Step str s .retry (getMetricNames { s with retryTimers := s.retryTimers - 1 })
  | tick {s : State α} (runs : 0 < s.updateTimers) : Step str s .tick (update { s with updateTimers := s.updateTimers - 1 })
  | click {s : State α} {b : Button} (shown : b ∈ s.buttons) (enabled : b.disabled = false) :
      Step str s (.click b.id) (onClick b.id s)

/-- The page is opened. -/
def start {α : Type} : State α := getMetricNames {}

/-! ### A page with two metrics -/

def cpu : Text := ['a', '.', 'c']

def heap : Text := ['a', '.', 'h']

/-- The names have come. -/
def named : State Text := onNamesReceived [cpu, heap] (fun _ => 0) { start with nameRequests := 0 }

/-- So has a reply, of one metric. -/
def replied : State Text :=
  refreshData id (fun n => if n = cpu then .value ['7'] else .undefined) (fun _ => 5) { named with metricRequests := 1 }

def twoMetrics : List (State Text × Event Text) :=
  [(start, .namesReceived [cpu, heap] fun _ => 0),
    (named, .metricsReceived (fun n => if n = cpu then .value ['7'] else .undefined) fun _ => 5),
    (replied, .click heap)]

theorem plain_twoMetrics : ∀ n ∈ [cpu, heap], Plain n := by
  intro n hn
  rcases List.mem_pair.mp hn with rfl | rfl
  · exact ⟨by decide, by decide⟩
  · exact ⟨by decide, by decide⟩

theorem run_twoMetrics : Run (Step id) start twoMetrics (onClick heap replied) := by
  refine .cons (.namesReceived (by decide) (by decide) plain_twoMetrics) (.cons ?_ (.cons ?_ (.nil _)))
  · exact .metricsReceived (s := named) (by decide +kernel)
  · exact .click (s := replied) (b := ⟨heap, labelOf id heap .undefined, false⟩) (by decide +kernel) rfl

/-- A reply without values. -/
def valueless : State Text := refreshData id (fun _ => .null) (fun _ => 9) { onClick heap replied with metricRequests := 1 }

theorem run_valueless : Run (Step id) start
    (twoMetrics ++ [(onClick heap replied, .metricsReceived (fun _ => .null) fun _ => 9)]) valueless :=
  run_twoMetrics.concat (.metricsReceived (s := onClick heap replied) (by decide +kernel))

/-! ### Selectors of escaped names -/

theorem unescaped_jqesc : ∀ {name : Text}, (∀ c ∈ name, isWord c = true ∨ c = ':' ∨ c = '.') →
    unescaped (jqesc name) = some name
  | [], _ => rfl
  | c :: name, h => by
    have ih := unescaped_jqesc fun d hd => h d (List.mem_cons_of_mem _ hd)
    rcases h c (List.mem_cons_self ..) with hword | rfl | rfl
    · have hslash : c ≠ '\\' := by
        rintro rfl
        exact absurd hword (by decide)
      have hplain : ¬ (c = ':' ∨ c = '.') := by
        rintro (rfl | rfl) <;> exact absurd hword (by decide)
      have hesc : jqesc (c :: name) = c :: jqesc name := by simp [jqesc, hplain]
      rw [hesc, unescaped.eq_def]
      simp [hslash, hword, ih]
    · have hesc : jqesc (':' :: name) = '\\' :: ':' :: jqesc name := by simp [jqesc]
      rw [hesc, unescaped.eq_def]
      simp [ih]
    · have hesc : jqesc ('.' :: name) = '\\' :: '.' :: jqesc name := by simp [jqesc]
      rw [hesc, unescaped.eq_def]
      simp [ih]

/-- The selector of a plain name selects by that name. -/
theorem idOf_jqid {name : Text} (h : Plain name) : idOf (jqid name) = some name := by
  have hne : jqesc name ≠ [] := by
    intro he
    have hun := unescaped_jqesc h.2
    rw [he, unescaped] at hun
    exact h.1 (Option.some.inj hun).symm
  rw [jqid, idOf, if_neg hne, unescaped_jqesc h.2]

/-! ### What a reply does to the page -/

section Replies

variable {α : Type} {str : α → Text} {metrics : Text → Value α} {times : Text → ℤ}

/-- The series after a reply. -/
def refreshed (metrics : Text → Value α) (times : Text → ℤ) (names : List Text) (data : Text → List (Point α)) (n : Text) :
    List (Point α) :=
  if n ∈ names then Window.push (dataPoints - 1) (data n) ⟨times n, metrics n⟩ else data n

/-- The buttons after a reply. -/
def relabeled (str : α → Text) (metrics : Text → Value α) (names : List Text) (buttons : List Button) : List Button :=
  buttons.map fun b => if b.id ∈ names then { b with value := labelOf str b.id (metrics b.id) } else b

theorem refreshNumbers_eq : ∀ {names : List Text}, names.Nodup → (∀ n ∈ names, Plain n) → ∀ s : State α,
    names.foldl (refreshNumber str metrics times) s =
      { s with data := refreshed metrics times names s.data, buttons := relabeled str metrics names s.buttons }
  | [], _, _, s => by
    have hdata : refreshed metrics times [] s.data = s.data := funext fun n => by simp [refreshed]
    simp [relabeled, hdata]
  | name :: names, hn, hp, s => by
    rw [List.nodup_cons] at hn
    have hid := idOf_jqid (hp name (List.mem_cons_self ..))
    rw [List.foldl_cons, refreshNumbers_eq hn.2 (fun n h => hp n (List.mem_cons_of_mem _ h))]
    have hdata : refreshed metrics times names (refreshNumber str metrics times s name).data =
        refreshed metrics times (name :: names) s.data := by
      funext n
      by_cases he : n = name
      · subst he
        simp [refreshed, refreshNumber, updateButton, onButton, hn.1]
      · simp [refreshed, refreshNumber, updateButton, onButton, he]
    have hbuttons : relabeled str metrics names (refreshNumber str metrics times s name).buttons =
        relabeled str metrics (name :: names) s.buttons := by
      simp only [relabeled, refreshNumber, updateButton, onButton, hid, List.map_map]
      apply List.map_congr_left
      intro b _
      by_cases he : name = b.id
      · simp [he]
      · simp [he, Ne.symm he]
    rw [hdata, hbuttons]
    rfl

/-- The loop over the text metrics changes no more than rows. -/
theorem refreshTexts_eq (str : α → Text) (metrics : Text → Value α) : ∀ (names : List Text) (s : State α), ∃ rows,
    names.foldl (fun s name => updateText str name (metrics name) s) s = { s with rows := rows }
  | [], s => ⟨s.rows, rfl⟩
  | name :: names, s => by
    obtain ⟨rows, h⟩ := refreshTexts_eq str metrics names (updateText str name (metrics name) s)
    refine ⟨rows, ?_⟩
    rw [List.foldl_cons, h, updateText, onRow]
    split <;> rfl

/-- A reply, where a metric is selected. -/
theorem refreshData_eq (str : α → Text) (metrics : Text → Value α) (times : Text → ℤ) {s : State α} {selected : Text}
    (hn : s.names.Nodup) (hp : ∀ n ∈ s.names, Plain n) (hs : s.selectedMetric = some selected) :
    ∃ rows, refreshData str metrics times s =
      { s with
        data := refreshed metrics times s.names s.data
        buttons := relabeled str metrics s.names s.buttons
        rows := rows
        graph := some (refreshed metrics times s.names s.data selected)
        graphtitle := selected
        graphvalue := setText str (metrics selected) s.graphvalue } := by
  obtain ⟨rows, h⟩ := refreshTexts_eq str metrics s.textNames
    { s with data := refreshed metrics times s.names s.data, buttons := relabeled str metrics s.names s.buttons }
  refine ⟨rows, ?_⟩
  rw [refreshData, refreshNumbers_eq hn hp]
  simp only
  rw [h]
  simp only [hs, redrawGraph]

end Replies

end Dashboard

end Plethora
