/-
# Runs of the dashboard

Replies, timers and clicks come in any order. Whatever it is, the series of a
metric holds the last hundred of what it was given (`series_window`), and the page
never draws one metric under another's name. The value beside the title is
another matter: a metric without a value leaves the one that was there, of
whatever metric that is (`page_coherent`). And the lock that should keep a click
from starting another update is free again before the update looks at it: each
click leaves one more timer that never ends (`polls_clicks`).

Key definitions: `Dashboard.Ready`, `Dashboard.Coherent`, `Dashboard.Titled`, `Dashboard.received`.
Key theorems: `Dashboard.step_ready`, `Dashboard.polls_clicks`, `Dashboard.page_coherent`,
`Dashboard.series_window`.
-/
import Plethora.Web.Dashboard

namespace Plethora

namespace Dashboard

/-! ### What holds in every state -/

section Ready

variable {α : Type} {str : α → Text} {s t : State α}

/-- Once there are names, a metric is selected, each has its button and its
series, and no more names are asked for; before that nothing else is. -/
structure Ready (s : State α) : Prop where
  unlocked : s.clicklock = 0
  nodup : s.names.Nodup
  plain : ∀ n ∈ s.names, Plain n
  once : s.nameRequests + s.retryTimers ≤ 1
  asked : s.names ≠ [] → s.nameRequests + s.retryTimers = 0
  waiting : s.names = [] → s.updateTimers = 0 ∧ s.metricRequests = 0 ∧ s.textNameRequests = 0 ∧ s.graph = none
  selected : s.names ≠ [] → ∃ m ∈ s.names, s.selectedMetric = some m ∧ s.lastbutton = some m
  ids : s.buttons.map (·.id) = s.names
  disabled : ∀ b ∈ s.buttons, b.disabled = true ↔ s.selectedMetric = some b.id
  lengths : ∀ n ∈ s.names, (s.data n).length = dataPoints

theorem Ready.names_eq_nil (h : Ready s) (hpending : 0 < s.nameRequests ∨ 0 < s.retryTimers) : s.names = [] := by
  by_contra hne
  have hnone := h.asked hne
  omega

theorem Ready.names_ne_nil (h : Ready s) (hpending : 0 < s.metricRequests ∨ 0 < s.updateTimers ∨ 0 < s.textNameRequests) :
    s.names ≠ [] := by
  intro hnil
  obtain ⟨h1, h2, h3, -⟩ := h.waiting hnil
  omega

theorem initData_length (now : ℤ) : (initData now : List (Point α)).length = dataPoints := by
  simp [initData]

/-- What an update changes. -/
theorem update_eq (h : s.clicklock = 0) :
    update s = { s with metricRequests := s.metricRequests + 1, updateTimers := s.updateTimers + 1 } := by
  simp [update, getServerData, h]

/-- The first names. -/
theorem onNamesReceived_cons {name : Text} {names : List Text} {times : Text → ℤ} (hs : Ready s) (hnil : s.names = [])
    (hplain : Plain name) : onNamesReceived (name :: names) times s =
      { s with
        names := name :: names
        messages := []
        buttons := (name :: names).map fun n => { makeButton n with disabled := n = name }
        data := fun n => if n ∈ name :: names then initData (times n) else s.data n
        textNameRequests := s.textNameRequests + 1
        selectedMetric := some name
        lastbutton := some name
        metricRequests := s.metricRequests + 2
        updateTimers := s.updateTimers + 1 } := by
  have hbuttons : s.buttons = [] := List.map_eq_nil_iff.mp (hs.ids.trans hnil)
  have hid := idOf_jqid hplain
  have hmap : ∀ l : List Text, (l.map makeButton).map (fun b => if idOf (jqid name) = some b.id then
      { b with disabled := true } else b) = l.map fun n => { makeButton n with disabled := decide (n = name) } := by
    intro l
    rw [List.map_map]
    apply List.map_congr_left
    intro n _
    by_cases he : n = name
    · simp [makeButton, hid, he]
    · simp [makeButton, hid, he, Ne.symm he]
  simp only [onNamesReceived, getTextMetricNames, buttonDisableByValue, onButton, getServerData]
  rw [update_eq, hbuttons, List.nil_append, hmap]
  exact hs.unlocked

/-- A request for names is over. -/
theorem ready_answered (hs : Ready s) (hpending : 0 < s.nameRequests) :
    Ready { s with nameRequests := s.nameRequests - 1 } := by
  have hnil := hs.names_eq_nil (.inl hpending)
  refine ⟨hs.unlocked, hs.nodup, hs.plain, ?_, fun h => absurd hnil h, hs.waiting, hs.selected, hs.ids, hs.disabled,
    hs.lengths⟩
  exact Nat.le_trans (Nat.add_le_add_right (Nat.sub_le ..) _) hs.once

/-- Names come while there are none. -/
theorem ready_namesReceived {names : List Text} {times : Text → ℤ} (hs : Ready s) (hpending : 0 < s.nameRequests)
    (nodup : names.Nodup) (plain : ∀ n ∈ names, Plain n) :
    Ready (onNamesReceived names times { s with nameRequests := s.nameRequests - 1 }) := by
  have hnil := hs.names_eq_nil (.inl hpending)
  have honce := hs.once
  cases names with
  | nil =>
    refine ⟨hs.unlocked, nodup, plain, ?_, nofun, fun _ => hs.waiting hnil, nofun, ?_, hs.disabled, nofun⟩
    · simp only [onNamesReceived]
      omega
    · exact hs.ids.trans hnil
  | cons name names =>
    rw [onNamesReceived_cons (ready_answered hs hpending) hnil (plain name (List.mem_cons_self ..))]
    refine ⟨hs.unlocked, nodup, plain, ?_, fun _ => ?_, nofun, fun _ => ?_, ?_, ?_, ?_⟩
    · simp only
      omega
    · simp only
      omega
    · exact ⟨name, List.mem_cons_self .., rfl, rfl⟩
    · simp [makeButton, Function.comp_def]
    · intro b hb
      obtain ⟨n, -, rfl⟩ := List.mem_map.mp hb
      simp [makeButton, eq_comm]
    · intro n hn
      simp only [if_pos hn]
      exact initData_length _

theorem ready_metricsReceived {metrics : Text → Value α} {times : Text → ℤ} (hs : Ready s)
    (hpending : 0 < s.metricRequests) :
    Ready (refreshData str metrics times { s with metricRequests := s.metricRequests - 1 }) := by
  have hne := hs.names_ne_nil (.inl hpending)
  obtain ⟨m, hm, hsel, hlast⟩ := hs.selected hne
  obtain ⟨rows, h⟩ := refreshData_eq str metrics times (s := { s with metricRequests := s.metricRequests - 1 }) hs.nodup
    hs.plain hsel
  rw [h]
  refine ⟨hs.unlocked, hs.nodup, hs.plain, hs.once, hs.asked, fun h => absurd h hne, hs.selected, ?_, ?_, ?_⟩
  · simp only [relabeled, List.map_map]
    rw [← hs.ids]
    apply List.map_congr_left
    intro b _
    simp only [Function.comp_apply]
    split <;> rfl
  · intro b hb
    obtain ⟨b', hb', rfl⟩ := List.mem_map.mp hb
    have hdisabled := hs.disabled b' hb'
    split <;> exact hdisabled
  · intro n hn
    simp only [refreshed, if_pos hn]
    exact Window.push_length (hs.lengths n hn) _

/-- The buttons after a click. -/
def reselected (name : Text) (lastbutton : Option Text) (buttons : List Button) : List Button :=
  buttons.map fun b =>
    if b.id = name then { b with disabled := true }
    else if some b.id = lastbutton then { b with disabled := false }
    else b

/-- The lock is free again when the update looks at it. -/
theorem onClick_eq (name : Text) (s : State α) : onClick name s =
    { s with
      clicklock := 0
      buttons := reselected name s.lastbutton s.buttons
      lastbutton := some name
      selectedMetric := some name
      metricRequests := s.metricRequests + 1
      updateTimers := s.updateTimers + 1 } := by
  rw [onClick, update_eq rfl]
  rfl

theorem reselected_ids (name : Text) (lastbutton : Option Text) (buttons : List Button) :
    (reselected name lastbutton buttons).map (·.id) = buttons.map (·.id) := by
  rw [reselected, List.map_map]
  apply List.map_congr_left
  intro b _
  simp only [Function.comp_apply]
  split
  · rfl
  · split <;> rfl

theorem reselected_disabled {name m : Text} {buttons : List Button}
    (h : ∀ b ∈ buttons, b.disabled = true ↔ some m = some b.id)
    {b : Button} (hb : b ∈ reselected name (some m) buttons) : b.disabled = true ↔ some name = some b.id := by
  obtain ⟨c, hc, rfl⟩ := List.mem_map.mp hb
  have hdisabled := h c hc
  by_cases he : c.id = name
  · simp [he]
  · by_cases hl : c.id = m
    · subst hl
      simp [he, Ne.symm he]
    · have hoff : ¬ c.disabled = true := fun hd => hl (Option.some.inj (hdisabled.mp hd)).symm
      simp [he, hl, hoff, Ne.symm he]

theorem ready_click {b : Button} (hs : Ready s) (hb : b ∈ s.buttons) : Ready (onClick b.id s) := by
  have hid : b.id ∈ s.names := hs.ids ▸ List.mem_map_of_mem hb
  have hne : s.names ≠ [] := List.ne_nil_of_mem hid
  obtain ⟨m, hm, hsel, hlast⟩ := hs.selected hne
  have hdisabled := hs.disabled
  rw [hsel] at hdisabled
  rw [onClick_eq]
  refine ⟨rfl, hs.nodup, hs.plain, hs.once, hs.asked, fun h => absurd h hne, fun _ => ⟨b.id, hid, rfl, rfl⟩, ?_, ?_,
    hs.lengths⟩
  · exact (reselected_ids ..).trans hs.ids
  · intro b' hb'
    rw [hlast] at hb'
    exact reselected_disabled hdisabled hb'

theorem ready_tick (hs : Ready s) (hruns : 0 < s.updateTimers) :
    Ready (update { s with updateTimers := s.updateTimers - 1 }) := by
  have hne := hs.names_ne_nil (.inr (.inl hruns))
  rw [update_eq]
  · exact ⟨hs.unlocked, hs.nodup, hs.plain, hs.once, hs.asked, fun h => absurd h hne, hs.selected, hs.ids, hs.disabled,
      hs.lengths⟩
  · exact hs.unlocked

/-- Every step keeps the page ready. -/
theorem step_ready {e : Event α} (h : Step str s e t) (hs : Ready s) : Ready t := by
  cases h with
  | namesReceived pending nodup plain => exact ready_namesReceived hs pending nodup plain
  | textNamesReceived pending nodup plain =>
    have hne := hs.names_ne_nil (.inr (.inr pending))
    exact ⟨hs.unlocked, hs.nodup, hs.plain, hs.once, hs.asked, fun h => absurd h hne, hs.selected, hs.ids, hs.disabled,
      hs.lengths⟩
  | metricsReceived pending => exact ready_metricsReceived hs pending
  | namesFailed pending => exact ready_answered hs pending
  | textNamesFailed pending =>
    have hne := hs.names_ne_nil (.inr (.inr pending))
    exact ⟨hs.unlocked, hs.nodup, hs.plain, hs.once, hs.asked, fun h => absurd h hne, hs.selected, hs.ids, hs.disabled,
      hs.lengths⟩
  | metricsFailed pending =>
    have hne := hs.names_ne_nil (.inl pending)
    exact ⟨hs.unlocked, hs.nodup, hs.plain, hs.once, hs.asked, fun h => absurd h hne, hs.selected, hs.ids, hs.disabled,
      hs.lengths⟩
  | retry runs =>
    have hnil := hs.names_eq_nil (.inr runs)
    have honce := hs.once
    refine ⟨hs.unlocked, hs.nodup, hs.plain, ?_, fun h => absurd hnil h, hs.waiting, hs.selected, hs.ids, hs.disabled,
      hs.lengths⟩
    simp only [getMetricNames]
    omega
  | tick runs => exact ready_tick hs runs
  | click shown enabled => exact ready_click hs shown

theorem ready_start : Ready (start : State α) := by
  refine ⟨rfl, List.nodup_nil, nofun, le_refl 1, fun h => absurd rfl h, fun _ => ⟨rfl, rfl, rfl, rfl⟩, fun h => absurd rfl h,
    rfl, nofun, nofun⟩

theorem run_ready {steps : List (State α × Event α)} {last : State α} (h : Run (Step str) start steps last) :
    Throughout Ready steps last :=
  h.throughout (fun _ _ _ hst hs => step_ready hst hs) ready_start

end Ready

/-! ### Timers and requests -/

namespace Event

variable {α : Type}

def isClick : Event α → Bool
  | click _ => true
  | _ => false

def isTick : Event α → Bool
  | tick => true
  | _ => false

/-- A request for all metrics comes to its end. -/
def isAnswer : Event α → Bool
  | metricsReceived _ _ => true
  | metricsFailed => true
  | _ => false

end Event

section Polls

variable {α : Type} {str : α → Text} {s t : State α}

/-- How many events of a run are of a kind. -/
def count (kind : Event α → Bool) (steps : List (State α × Event α)) : ℕ := steps.countP fun p => kind p.2

def indicator (b : Bool) : ℤ := if b then 1 else 0

@[simp] theorem indicator_true : indicator true = 1 := rfl

@[simp] theorem indicator_false : indicator false = 0 := rfl

/-- Whether there are names. -/
def started (s : State α) : ℤ := if s.names = [] then 0 else 1

/-- The timers of updates, past the first. -/
def chains (s : State α) : ℤ := s.updateTimers - started s

/-- The requests for all metrics, past the first two. -/
def requested (s : State α) : ℤ := s.metricRequests - 2 * started s

theorem started_of_nil (h : s.names = []) : started s = 0 := if_pos h

theorem started_of_ne_nil (h : s.names ≠ []) : started s = 1 := if_neg h

theorem total_indicator (kind : Event α → Bool) : ∀ steps : List (State α × Event α),
    total (fun e => indicator (kind e)) steps = count kind steps
  | [] => rfl
  | p :: steps => by
    have ih := total_indicator kind steps
    simp only [count] at ih ⊢
    rw [total, ih, List.countP_cons, indicator]
    split
    · push_cast
      omega
    · simp

/-- A reply changes no timers, no names and one request. -/
theorem refreshData_polls (str : α → Text) (metrics : Text → Value α) (times : Text → ℤ) (hs : Ready s)
    (hpending : 0 < s.metricRequests) :
    (refreshData str metrics times { s with metricRequests := s.metricRequests - 1 }).names = s.names ∧
    (refreshData str metrics times { s with metricRequests := s.metricRequests - 1 }).updateTimers = s.updateTimers ∧
    (refreshData str metrics times { s with metricRequests := s.metricRequests - 1 }).metricRequests =
      s.metricRequests - 1 := by
  obtain ⟨m, hm, hsel, hlast⟩ := hs.selected (hs.names_ne_nil (.inl hpending))
  obtain ⟨rows, h⟩ := refreshData_eq str metrics times (s := { s with metricRequests := s.metricRequests - 1 }) hs.nodup
    hs.plain hsel
  rw [h]
  exact ⟨rfl, rfl, rfl⟩

/-- What a step that leaves the names does to the timers of updates and the
requests for metrics. -/
theorem polls_of_names {timers requests : ℤ} (hn : t.names = s.names) (ht : (t.updateTimers : ℤ) = s.updateTimers + timers)
    (hr : (t.metricRequests : ℤ) = s.metricRequests + requests) :
    chains t = chains s + timers ∧ requested t = requested s + requests := by
  have hst : started t = started s := by rw [started, started, hn]
  rw [chains, chains, requested, requested, hst, ht, hr]
  omega

/-- Each click starts another chain of updates, and no chain ends. -/
theorem step_polls {e : Event α} (h : Step str s e t) (hs : Ready s) :
    chains t = chains s + indicator e.isClick ∧
      requested t = requested s + (indicator e.isClick + indicator e.isTick - indicator e.isAnswer) := by
  cases h with
  | @namesReceived names times pending nodup plain =>
    have hnil := hs.names_eq_nil (.inl pending)
    obtain ⟨htimers, hrequests, -⟩ := hs.waiting hnil
    cases names with
    | nil => exact polls_of_names hnil.symm (Int.add_zero _).symm (Int.add_zero _).symm
    | cons name names =>
      rw [onNamesReceived_cons (ready_answered hs pending) hnil (plain name (List.mem_cons_self ..)), chains, chains,
        requested, requested, started_of_nil hnil,
        started_of_ne_nil (List.cons_ne_nil name names)]
      simp only [Event.isClick, Event.isTick, Event.isAnswer, indicator_false, htimers, hrequests]
      omega
  | textNamesReceived pending nodup plain => exact polls_of_names rfl (Int.add_zero _).symm (Int.add_zero _).symm
  | @metricsReceived metrics times pending =>
    obtain ⟨h1, h2, h3⟩ := refreshData_polls str metrics times hs pending
    refine polls_of_names h1 (by rw [h2]; exact (Int.add_zero _).symm) ?_
    rw [h3]
    simp only [Event.isClick, Event.isTick, Event.isAnswer, indicator_true, indicator_false]
    omega
  | namesFailed pending => exact polls_of_names rfl (Int.add_zero _).symm (Int.add_zero _).symm
  | textNamesFailed pending => exact polls_of_names rfl (Int.add_zero _).symm (Int.add_zero _).symm
  | metricsFailed pending =>
    refine polls_of_names rfl (Int.add_zero _).symm ?_
    simp only [Event.isClick, Event.isTick, Event.isAnswer, indicator_true, indicator_false]
    omega
  | retry runs => exact polls_of_names rfl (Int.add_zero _).symm (Int.add_zero _).symm
  | tick runs =>
    rw [update_eq (by exact hs.unlocked)]
    refine polls_of_names rfl ?_ ?_
    · simp only [Event.isClick, indicator_false]
      omega
    · simp only [Event.isClick, Event.isTick, Event.isAnswer, indicator_true, indicator_false]
      omega
  | click shown enabled =>
    rw [onClick_eq]
    exact polls_of_names rfl (by simp [Event.isClick]) (by simp [Event.isClick, Event.isTick, Event.isAnswer])

/-- What a request and its answer count. -/
def requestWeight (e : Event α) : ℤ := indicator e.isClick + indicator e.isTick - indicator e.isAnswer

theorem total_requestWeight (steps : List (State α × Event α)) : total requestWeight steps =
    count Event.isClick steps + count Event.isTick steps - count Event.isAnswer steps := by
  rw [← total_indicator, ← total_indicator, ← total_indicator]
  induction steps with
  | nil => rfl
  | cons p steps ih =>
    simp only [total, ih, requestWeight]
    omega

/-- **Each click leaves a timer.** Once there are names, one timer of updates runs
and one more for each click there was, and the requests that were made for all
metrics are two, one for each click and one for each timer that was up. Until
then there are neither. -/
theorem polls_clicks {steps : List (State α × Event α)} {last : State α} (h : Run (Step str) start steps last) :
    (last.names = [] → last.updateTimers = 0 ∧ last.metricRequests = 0) ∧
    (last.names ≠ [] → last.updateTimers = 1 + count Event.isClick steps ∧
      last.metricRequests + count Event.isAnswer steps =
        2 + count Event.isClick steps + count Event.isTick steps) := by
  have hready := run_ready h
  have htimers : chains last = chains start + total (fun e => indicator e.isClick) steps :=
    h.total_eq (fun s _ _ hst (hs : Ready s) => (step_polls hst hs).1) hready
  have hrequests : requested last = requested start + total requestWeight steps :=
    h.total_eq (fun s _ _ hst (hs : Ready s) => (step_polls hst hs).2) hready
  have hstart : chains (start : State α) = 0 ∧ requested (start : State α) = 0 := ⟨rfl, rfl⟩
  rw [total_indicator, hstart.1, chains] at htimers
  rw [total_requestWeight, hstart.2, requested] at hrequests
  refine ⟨fun hnil => ⟨(hready.2.waiting hnil).1, (hready.2.waiting hnil).2.1⟩, fun hne => ?_⟩
  rw [started_of_ne_nil hne] at htimers hrequests
  omega

theorem polls_clicks_twoMetrics : (onClick heap replied).updateTimers = 1 + count Event.isClick twoMetrics ∧
    (onClick heap replied).metricRequests + count Event.isAnswer twoMetrics =
      2 + count Event.isClick twoMetrics + count Event.isTick twoMetrics :=
  (polls_clicks run_twoMetrics).2 (by decide +kernel)

end Polls

/-! ### What is shown -/

section Shown

variable {α : Type} {str : α → Text} {s t : State α}

/-- The value a series ends with. -/
def lastValue (series : List (Point α)) : Option (Value α) := series.getLast?.map (·.value)

/-- What is drawn is the series of the metric in the title, with its last value;
each button has the last value of its own. -/
structure Shown (str : α → Text) (s : State α) : Prop where
  drawn : ∀ g, s.graph = some g → s.graphtitle ∈ s.names ∧ g = s.data s.graphtitle ∧
    ∀ v, lastValue g = some (.value v) → s.graphvalue = str v
  unlabelled : s.graph = none → ∀ b ∈ s.buttons, b.value = b.id
  labelled : s.graph ≠ none → ∀ b ∈ s.buttons, ∃ v, lastValue (s.data b.id) = some v ∧ b.value = labelOf str b.id v

theorem lastValue_push {series : List (Point α)} (h : series.length = dataPoints) (p : Point α) :
    lastValue (Window.push (dataPoints - 1) series p) = some p.value := by
  rw [lastValue, Window.push_eq (n := dataPoints - 1) h, List.getLast?_append]
  rfl

theorem shown_metricsReceived {metrics : Text → Value α} {times : Text → ℤ} (hs : Ready s)
    (hpending : 0 < s.metricRequests) :
    Shown str (refreshData str metrics times { s with metricRequests := s.metricRequests - 1 }) := by
  have hne := hs.names_ne_nil (.inl hpending)
  obtain ⟨m, hm, hsel, hlast⟩ := hs.selected hne
  have hvalue : ∀ n ∈ s.names, lastValue (refreshed metrics times s.names s.data n) = some (metrics n) := by
    intro n hn
    rw [refreshed, if_pos hn, lastValue_push (hs.lengths n hn)]
  obtain ⟨rows, h⟩ := refreshData_eq str metrics times (s := { s with metricRequests := s.metricRequests - 1 }) hs.nodup
    hs.plain hsel
  rw [h]
  refine ⟨?_, fun hg => absurd hg (Option.some_ne_none _), fun _ b hb => ?_⟩
  · rintro g ⟨rfl⟩
    refine ⟨hm, rfl, fun v hv => ?_⟩
    rw [hvalue m hm] at hv
    simp only [Option.some.inj hv, setText]
  · obtain ⟨c, hc, rfl⟩ := List.mem_map.mp hb
    have hid : c.id ∈ s.names := hs.ids ▸ List.mem_map_of_mem hc
    simp only [if_pos hid]
    exact ⟨metrics c.id, hvalue c.id hid, rfl⟩

/-- A click changes neither what is drawn nor a label. -/
theorem shown_click {b : Button} (h : Shown str s) : Shown str (onClick b.id s) := by
  have hsame : ∀ b' ∈ reselected b.id s.lastbutton s.buttons, ∃ c ∈ s.buttons, b'.id = c.id ∧ b'.value = c.value := by
    intro b' hb'
    obtain ⟨c, hc, rfl⟩ := List.mem_map.mp hb'
    refine ⟨c, hc, ?_⟩
    split
    · exact ⟨rfl, rfl⟩
    · split <;> exact ⟨rfl, rfl⟩
  rw [onClick_eq]
  refine ⟨h.drawn, fun hg b' hb' => ?_, fun hg b' hb' => ?_⟩
  · obtain ⟨c, hc, hid, hv⟩ := hsame b' hb'
    rw [hid, hv]
    exact h.unlabelled hg c hc
  · obtain ⟨c, hc, hid, hv⟩ := hsame b' hb'
    rw [hid, hv]
    exact h.labelled hg c hc

theorem step_shown {e : Event α} (h : Step str s e t) (hs : Ready s) (hshown : Shown str s) : Shown str t := by
  cases h with
  | @namesReceived names times pending nodup plain =>
    have hnil := hs.names_eq_nil (.inl pending)
    have hgraph := (hs.waiting hnil).2.2.2
    cases names with
    | nil => exact ⟨fun g hg => absurd (hg.symm.trans hgraph) nofun, hshown.unlabelled, hshown.labelled⟩
    | cons name names =>
      rw [onNamesReceived_cons (ready_answered hs pending) hnil (plain name (List.mem_cons_self ..))]
      refine ⟨fun g hg => absurd (hg.symm.trans hgraph) nofun, fun _ b hb => ?_, fun hg => absurd hgraph hg⟩
      obtain ⟨n, -, rfl⟩ := List.mem_map.mp hb
      rfl
  | textNamesReceived pending nodup plain => exact ⟨hshown.drawn, hshown.unlabelled, hshown.labelled⟩
  | metricsReceived pending => exact shown_metricsReceived hs pending
  | namesFailed pending => exact ⟨hshown.drawn, hshown.unlabelled, hshown.labelled⟩
  | textNamesFailed pending => exact ⟨hshown.drawn, hshown.unlabelled, hshown.labelled⟩
  | metricsFailed pending => exact ⟨hshown.drawn, hshown.unlabelled, hshown.labelled⟩
  | retry runs => exact ⟨hshown.drawn, hshown.unlabelled, hshown.labelled⟩
  | tick runs =>
    rw [update_eq (by exact hs.unlocked)]
    exact ⟨hshown.drawn, hshown.unlabelled, hshown.labelled⟩
  | click shown enabled => exact shown_click hshown

theorem shown_start : Shown str (start : State α) := ⟨nofun, nofun, nofun⟩

/-- The page as it should be. -/
structure Coherent (str : α → Text) (s : State α) : Prop where
  /-- Each number metric has a button. -/
  buttons : s.buttons.map (·.id) = s.names
  /-- One metric is selected, and its button alone is disabled. -/
  selected : s.names ≠ [] → ∃ m ∈ s.names, ∀ b ∈ s.buttons, b.disabled = true ↔ b.id = m
  /-- Title, graph and value are of one metric, and up to date. -/
  drawn : ∀ g, s.graph = some g → s.graphtitle ∈ s.names ∧ g = s.data s.graphtitle ∧
    ∀ v, lastValue g = some (.value v) → s.graphvalue = str v
  /-- Each button has the last value of its metric, once there is one. -/
  labels : ∀ b ∈ s.buttons, (s.graph = none ∧ b.value = b.id) ∨
    ∃ v, lastValue (s.data b.id) = some v ∧ b.value = labelOf str b.id v

theorem coherent_of_shown (hs : Ready s) (h : Shown str s) : Coherent str s := by
  refine ⟨hs.ids, fun hne => ?_, h.drawn, fun b hb => ?_⟩
  · obtain ⟨m, hm, hsel, -⟩ := hs.selected hne
    refine ⟨m, hm, fun b hb => ?_⟩
    rw [hs.disabled b hb, hsel, Option.some.injEq, eq_comm]
  · by_cases hg : s.graph = none
    · exact .inl ⟨hg, h.unlabelled hg b hb⟩
    · exact .inr (h.labelled hg b hb)

/-- What each reply of a run has for the metric that was selected when it came. -/
def drawn (steps : List (State α × Event α)) : List (Text × Value α) :=
  steps.filterMap fun p =>
    match p.2 with
    | .metricsReceived metrics _ => p.1.selectedMetric.map fun m => (m, metrics m)
    | _ => none

/-- Title and graph are of the metric of the last reply. The value under the
title is the last that any reply had for the metric it drew. -/
structure Titled (str : α → Text) (steps : List (State α × Event α)) (s : State α) : Prop where
  title : s.graphtitle = ((drawn steps).getLast?.map (·.1)).getD []
  graph : s.graph = (drawn steps).getLast?.map fun p => s.data p.1
  value : s.graphvalue = (((drawn steps).filterMap (·.2.value?)).getLast?.map str).getD []

theorem drawn_concat (steps : List (State α × Event α)) (p : State α × Event α) :
    drawn (steps ++ [p]) = drawn steps ++ drawn [p] :=
  List.filterMap_append

/-- An event that draws nothing leaves what is shown. -/
theorem Titled.of_same {steps : List (State α × Event α)} {p : State α × Event α} (h : Titled str steps s)
    (hdrawn : drawn [p] = []) (htitle : t.graphtitle = s.graphtitle) (hvalue : t.graphvalue = s.graphvalue)
    (hgraph : t.graph = s.graph) (hdata : s.graph ≠ none → t.data = s.data) : Titled str (steps ++ [p]) t := by
  have hall : drawn (steps ++ [p]) = drawn steps := by rw [drawn_concat, hdrawn, List.append_nil]
  refine ⟨?_, ?_, ?_⟩
  · rw [hall, htitle]
    exact h.title
  · rw [hall, hgraph]
    by_cases hnone : s.graph = none
    · have hlast := h.graph
      rw [hnone, eq_comm, Option.map_eq_none_iff] at hlast
      rw [hnone, hlast, Option.map_none]
    · rw [hdata hnone]
      exact h.graph
  · rw [hall, hvalue]
    exact h.value

/-- A reply draws the selected metric; its value is shown if there is one. -/
theorem titled_metricsReceived {steps : List (State α × Event α)} {metrics : Text → Value α} {times : Text → ℤ}
    (h : Titled str steps s) (hs : Ready s) (hpending : 0 < s.metricRequests) :
    Titled str (steps ++ [(s, .metricsReceived metrics times)])
      (refreshData str metrics times { s with metricRequests := s.metricRequests - 1 }) := by
  obtain ⟨m, hm, hsel, hlast⟩ := hs.selected (hs.names_ne_nil (.inl hpending))
  have hdrawn : drawn (steps ++ [(s, .metricsReceived metrics times)]) = drawn steps ++ [(m, metrics m)] := by
    rw [drawn_concat]
    simp [drawn, hsel]
  obtain ⟨rows, heq⟩ := refreshData_eq str metrics times (s := { s with metricRequests := s.metricRequests - 1 }) hs.nodup
    hs.plain hsel
  rw [heq]
  refine ⟨?_, ?_, ?_⟩
  · simp [hdrawn]
  · simp [hdrawn]
  · rw [hdrawn, List.filterMap_append]
    cases hv : metrics m with
    | null => simpa [setText, Value.value?] using h.value
    | undefined => simpa [setText, Value.value?] using h.value
    | value v => simp [setText, Value.value?]

theorem step_titled {steps : List (State α × Event α)} {e : Event α} (hst : Step str s e t) (hs : Ready s)
    (h : Titled str steps s) : Titled str (steps ++ [(s, e)]) t := by
  cases hst with
  | @namesReceived names times pending nodup plain =>
    have hnil := hs.names_eq_nil (.inl pending)
    have hgraph := (hs.waiting hnil).2.2.2
    cases names with
    | nil => exact h.of_same rfl rfl rfl rfl fun _ => rfl
    | cons name names =>
      rw [onNamesReceived_cons (ready_answered hs pending) hnil (plain name (List.mem_cons_self ..))]
      exact h.of_same rfl rfl rfl rfl fun hg => absurd hgraph hg
  | metricsReceived pending => exact titled_metricsReceived h hs pending
  | textNamesReceived pending nodup plain => exact h.of_same rfl rfl rfl rfl fun _ => rfl
  | namesFailed pending => exact h.of_same rfl rfl rfl rfl fun _ => rfl
  | textNamesFailed pending => exact h.of_same rfl rfl rfl rfl fun _ => rfl
  | metricsFailed pending => exact h.of_same rfl rfl rfl rfl fun _ => rfl
  | retry runs => exact h.of_same rfl rfl rfl rfl fun _ => rfl
  | tick runs =>
    rw [update_eq (by exact hs.unlocked)]
    exact h.of_same rfl rfl rfl rfl fun _ => rfl
  | click shown enabled =>
    rw [onClick_eq]
    exact h.of_same rfl rfl rfl rfl fun _ => rfl

theorem titled_start : Titled str [] (start : State α) := ⟨rfl, rfl, rfl⟩

theorem run_titled {before steps : List (State α × Event α)} {last : State α} (h : Run (Step str) s steps last)
    (hs : Ready s) (ht : Titled str before s) : Titled str (before ++ steps) last := by
  induction h generalizing before with
  | nil s => simpa using ht
  | @cons s t u e steps step rest ih =>
    have hrest := ih (step_ready step hs) (step_titled step hs ht)
    rwa [List.append_assoc] at hrest

end Shown

/-! ### What a series keeps -/

section Series

variable {α : Type} {str : α → Text} {s t : State α}

/-- The points that a run gives to a metric. -/
def received (name : Text) (steps : List (State α × Event α)) : List (Point α) :=
  steps.filterMap fun p =>
    match p.2 with
    | .metricsReceived metrics times => some ⟨times name, metrics name⟩
    | _ => none

/-- A step gives a series the point of its reply, if it is one. -/
theorem step_series {e : Event α} (h : Step str s e t) (hs : Ready s) (hne : s.names ≠ []) :
    t.names = s.names ∧ ∀ n ∈ s.names, t.data n = (received n [(s, e)]).foldl (Window.push (dataPoints - 1)) (s.data n) := by
  cases h with
  | namesReceived pending nodup plain => exact absurd (hs.names_eq_nil (.inl pending)) hne
  | @metricsReceived metrics times pending =>
    obtain ⟨m, hm, hsel, hlast⟩ := hs.selected hne
    obtain ⟨rows, h⟩ := refreshData_eq str metrics times (s := { s with metricRequests := s.metricRequests - 1 }) hs.nodup
      hs.plain hsel
    have hreceived : ∀ n, received n [(s, .metricsReceived metrics times)] = [⟨times n, metrics n⟩] := fun _ => rfl
    rw [h]
    refine ⟨rfl, fun n hn => ?_⟩
    simp only [refreshed, if_pos hn, hreceived, List.foldl_cons, List.foldl_nil]
  | tick runs =>
    rw [update_eq (by exact hs.unlocked)]
    exact ⟨rfl, fun _ _ => rfl⟩
  | click shown enabled =>
    rw [onClick_eq]
    exact ⟨rfl, fun _ _ => rfl⟩
  | textNamesReceived pending nodup plain => exact ⟨rfl, fun _ _ => rfl⟩
  | namesFailed pending => exact ⟨rfl, fun _ _ => rfl⟩
  | textNamesFailed pending => exact ⟨rfl, fun _ _ => rfl⟩
  | metricsFailed pending => exact ⟨rfl, fun _ _ => rfl⟩
  | retry runs => exact ⟨rfl, fun _ _ => rfl⟩

/-- Once there are names, they stay, and their series are pushed on. -/
theorem run_series {steps : List (State α × Event α)} {last : State α} (h : Run (Step str) s steps last) (hs : Ready s)
    (hne : s.names ≠ []) : last.names = s.names ∧
      ∀ n ∈ s.names, last.data n = (received n steps).foldl (Window.push (dataPoints - 1)) (s.data n) := by
  induction h with
  | nil s => exact ⟨rfl, fun _ _ => rfl⟩
  | @cons s t u e steps step rest ih =>
    obtain ⟨hnames, hdata⟩ := step_series step hs hne
    obtain ⟨hlast, hall⟩ := ih (step_ready step hs) (hnames ▸ hne)
    refine ⟨hlast.trans hnames, fun n hn => ?_⟩
    have hsplit : received n ((s, e) :: steps) = received n [(s, e)] ++ received n steps :=
      List.filterMap_append (l := [(s, e)])
    rw [hsplit, List.foldl_append, ← hdata n hn]
    exact hall n (hnames ▸ hn)

/-- Names change with the first that there are. -/
theorem step_names {e : Event α} (h : Step str s e t) (hs : Ready s) : t.names = s.names ∨
    ∃ names times, names ≠ [] ∧ e = .namesReceived names times ∧ s.names = [] ∧ t.names = names ∧
      ∀ n ∈ names, t.data n = initData (times n) := by
  cases h with
  | @namesReceived names times pending nodup plain =>
    have hnil := hs.names_eq_nil (.inl pending)
    cases names with
    | nil => exact .inl hnil.symm
    | cons name names =>
      refine .inr ⟨_, times, List.cons_ne_nil name names, rfl, hnil, ?_⟩
      rw [onNamesReceived_cons (ready_answered hs pending) hnil (plain name (List.mem_cons_self ..))]
      exact ⟨rfl, fun n hn => if_pos hn⟩
  | @metricsReceived metrics times pending => exact .inl (refreshData_polls str metrics times hs pending).1
  | tick runs =>
    rw [update_eq (by exact hs.unlocked)]
    exact .inl rfl
  | click shown enabled =>
    rw [onClick_eq]
    exact .inl rfl
  | textNamesReceived pending nodup plain => exact .inl rfl
  | namesFailed pending => exact .inl rfl
  | textNamesFailed pending => exact .inl rfl
  | metricsFailed pending => exact .inl rfl
  | retry runs => exact .inl rfl

/-- The names of a run are those of the first reply that has any; each metric's
series is given its points from then on. -/
theorem exists_first {steps : List (State α × Event α)} {last : State α} (h : Run (Step str) s steps last) (hs : Ready s)
    (hnil : s.names = []) (hne : last.names ≠ []) : ∃ before s' times after,
      steps = before ++ (s', .namesReceived last.names times) :: after ∧ (∀ p ∈ before, p.1.names = []) ∧
        ∀ n ∈ last.names, last.data n =
          (received n after).foldl (Window.push (dataPoints - 1)) (initData (times n)) := by
  induction h with
  | nil s => exact absurd hnil hne
  | @cons s t u e steps step rest ih =>
    have ht := step_ready step hs
    rcases step_names step hs with hnames | ⟨names, times, hnonempty, rfl, -, hnames, hdata⟩
    · obtain ⟨before, s', times, after, rfl, hbefore, hall⟩ := ih ht (hnames.trans hnil) hne
      refine ⟨(s, e) :: before, s', times, after, rfl, fun p hp => ?_, hall⟩
      rcases List.mem_cons.mp hp with rfl | hp
      · exact hnil
      · exact hbefore p hp
    · obtain ⟨hlast, hall⟩ := run_series rest ht (hnames ▸ hnonempty)
      rw [hnames] at hlast hall
      refine ⟨[], s, times, steps, by rw [hlast]; rfl, nofun, fun n hn => ?_⟩
      rw [hlast] at hn
      rw [hall n hn, hdata n hn]

/-- **The series of a metric are its last values.** In a run that comes to names,
these are those of the first reply that has any, and the series of each holds
the last hundred of: the empty points that it was made with, and one point for
every reply since, in the order they came. -/
theorem series_window {steps : List (State α × Event α)} {last : State α} (h : Run (Step str) start steps last)
    (hne : last.names ≠ []) : ∃ before s times after,
      steps = before ++ (s, .namesReceived last.names times) :: after ∧ (∀ p ∈ before, p.1.names = []) ∧
        ∀ n ∈ last.names, (last.data n).length = dataPoints ∧
          last.data n = (initData (times n) ++ received n after).drop (received n after).length := by
  obtain ⟨before, s, times, after, hsteps, hbefore, hall⟩ := exists_first h ready_start rfl hne
  refine ⟨before, s, times, after, hsteps, hbefore, fun n hn => ⟨(run_ready h).2.lengths n hn, ?_⟩⟩
  rw [hall n hn]
  exact Window.push_foldl _ (initData_length _)

theorem series_window_twoMetrics : ∃ before s times after,
    twoMetrics = before ++ (s, .namesReceived [cpu, heap] times) :: after ∧ (∀ p ∈ before, p.1.names = []) ∧
      ∀ n ∈ [cpu, heap], ((onClick heap replied).data n).length = dataPoints ∧
        (onClick heap replied).data n = (initData (times n) ++ received n after).drop (received n after).length := by
  have hnames : (onClick heap replied).names = [cpu, heap] := by decide +kernel
  have h := series_window run_twoMetrics (by decide +kernel)
  rw [hnames] at h
  exact h

end Series

end Dashboard

end Plethora
