/-
# When a web module's calls come to an end

A web request that fails is followed by `reconnect`, but for the status
request, whose failure ends the `connect` it belongs to. A list or a property
request that fails is made by a `connect` in progress, and the `connect` it
leads to may ask for the list again, and fail again.

What a call still owes its remote end can be kept as a list (`owed`): a
`connect` owes the status request; a status that says alive adds the list
request, a list its names' property requests, and a list or property request
that fails a status request. The calls, however they nest, are that loop
(`ensures_connect_owed`, `finishes_connect_owed`), so they come to an end
exactly if the list does: `returns_iff_settled`. It need not: an agent that
says it is alive and fails every request for the list keeps the module busy
forever (`busyAgent_connect`).

Key definitions: `WebModule.Request`, `WebModule.spawned`, `WebModule.owed`.
Key theorems: `ensures_connect_owed`, `finishes_connect_owed`, `returns_iff_settled`.
-/
import Plethora.Data.RemoteModule

namespace Plethora

namespace WebModule

/-- The requests a `connect` makes. -/
inductive Request
  | status
  | list
  | props (metric : Text)

variable (w : WebModule)

def Request.url : Request → Text
  | .status => w.url
  | .list => URLBuilder.buildListNamesRequest w.url
  | .props metric => URLBuilder.buildMetricPropsRequest w.url metric

/-- The requests that a request leads to when it is answered so. -/
def spawned : Request → Except Unit (Option Text) → Except JavaError (List Request)
  | .status, .ok response => .ok (if saysAlive response then [.list] else [])
  | .status, .error _ => .ok []
  | .list, .ok response => .ok (((w.listedNames response).getD []).map .props)
  | .list, .error _ => .ok [.status]
  | .props _, .ok none => .ok []
  | .props _, .ok (some body) => (w.decodeProperties body).map fun _ => []
  | .props _, .error _ => .ok [.status]

/-- What is owed after `n` more answers, from request number `i` on; none
after an exception. -/
def owed (i : ℕ) : ℕ → List Request → Option (List Request)
  | 0, pending => some pending
  | _ + 1, [] => some []
  | n + 1, request :: pending =>
    match w.spawned request (w.answered i (request.url w)) with
    | .error _ => none
    | .ok more => owed (i + 1) n (more ++ pending)

/-- Nothing is owed any more, or an exception came. -/
def Settled (pending : Option (List Request)) : Prop := pending = some [] ∨ pending = none

/-! ### The list as time goes by -/

variable {w} {i n : ℕ} {request : Request} {pending more : List Request}

theorem owed_ok (h : w.spawned request (w.answered i (request.url w)) = .ok more) :
    w.owed i (n + 1) (request :: pending) = w.owed (i + 1) n (more ++ pending) := by
  simp only [owed, h]

theorem owed_error {e : JavaError} (h : w.spawned request (w.answered i (request.url w)) = .error e) :
    w.owed i (n + 1) (request :: pending) = none := by
  simp only [owed, h]

/-- What is settled stays as it is. -/
theorem owed_of_settled : ∀ {i n : ℕ} {pending : List Request}, Settled (w.owed i n pending) →
    ∀ k, w.owed i (n + k) pending = w.owed i n pending
  | i, 0, [], _, 0 => rfl
  | i, 0, [], _, k + 1 => by rw [Nat.zero_add]; rfl
  | i, 0, _ :: _, h, _ => by rcases h with h | h <;> cases h
  | i, n + 1, [], _, k => by rw [Nat.succ_add]; rfl
  | i, n + 1, request :: pending, h, k => by
    rw [Nat.succ_add]
    cases hs : w.spawned request (w.answered i (request.url w)) with
    | error e => rw [owed_error hs, owed_error hs]
    | ok more =>
      rw [owed_ok hs] at h
      rw [owed_ok hs, owed_ok hs]
      exact owed_of_settled h k

/-- The list comes to one end only. -/
theorem owed_unique {m : ℕ} (h : w.owed i n pending = some []) : w.owed i m pending ≠ none := by
  intro hm
  have h1 := owed_of_settled (Or.inl h) m
  have h2 := owed_of_settled (Or.inr hm) n
  rw [h, Nat.add_comm] at h1
  rw [hm, h1] at h2
  cases h2

/-! ### A call is the loop over the list -/

/-- How many requests were made. -/
def count (s : Running) : ℕ := s.module.requests.length

variable (w) in
/-- From `s`, owing `before` first, the module comes to `s'` and owes `after`
in its place. -/
def Leads (s : Running) (before : List Request) (s' : Running) (after : List Request) : Prop :=
  ∃ k, ∀ l n, w.owed (count s) (k + n) (before ++ l) = w.owed (count s') n (after ++ l)

variable (w) in
/-- An exception comes before the requests are answered. -/
def Breaks (s : Running) (before : List Request) : Prop :=
  ∃ k, ∀ l, w.owed (count s) k (before ++ l) = none

section Leads

variable {s s' s'' : Running} {before after later : List Request}

theorem Leads.refl (s : Running) (before : List Request) : w.Leads s before s before :=
  ⟨0, fun l n => by rw [Nat.zero_add]⟩

theorem Leads.trans (h : w.Leads s before s' after) (h' : w.Leads s' after s'' later) :
    w.Leads s before s'' later := by
  obtain ⟨k, h⟩ := h
  obtain ⟨k', h'⟩ := h'
  exact ⟨k + k', fun l n => by rw [Nat.add_assoc, h, h']⟩

/-- What is owed besides waits. -/
theorem Leads.append (h : w.Leads s before s' after) (rest : List Request) :
    w.Leads s (before ++ rest) s' (after ++ rest) := by
  obtain ⟨k, h⟩ := h
  exact ⟨k, fun l n => by rw [List.append_assoc, List.append_assoc, h]⟩

theorem Leads.breaks (h : w.Leads s before s' after) (h' : w.Breaks s' after) : w.Breaks s before := by
  obtain ⟨k, h⟩ := h
  obtain ⟨k', h'⟩ := h'
  exact ⟨k + k', fun l => by rw [h, h']⟩

theorem Breaks.append (h : w.Breaks s before) (rest : List Request) : w.Breaks s (before ++ rest) := by
  obtain ⟨k, h⟩ := h
  exact ⟨k, fun l => by rw [List.append_assoc, h]⟩

theorem leads_of_answer (h : w.spawned request (w.answered (count s) (request.url w)) = .ok more)
    (hc : count s' = count s + 1) : w.Leads s [request] s' more :=
  ⟨1, fun l n => by rw [Nat.add_comm, List.singleton_append, owed_ok h, hc]⟩

theorem breaks_of_answer {e : JavaError}
    (h : w.spawned request (w.answered (count s) (request.url w)) = .error e) : w.Breaks s [request] :=
  ⟨1, fun l => by rw [List.singleton_append, owed_error h]⟩

end Leads

variable (w) {reconnect : Java Bool}

theorem ensures_connectionStatus_owed (s : Running) : (w.connectionStatus reconnect).Ensures s
    (fun b s' => w.Leads s [.status] s' (if b then [.list] else [])) fun _ => False := by
  unfold connectionStatus remoteRequest
  refine Eff.ensures_bind (Q := fun r s' => w.Leads s [.status] s' (if saysAlive r then [.list] else [])) ?_
    fun r s' h => Eff.ensures_pure h
  refine Eff.ensures_get_bind ?_
  cases hr : w.getResponse w.url s with
  | ok response =>
    refine Eff.ensures_modify_bind (Eff.ensures_pure ?_)
    have ha : w.answered (count s) (Request.status.url w) = .ok response := hr
    exact leads_of_answer (by rw [ha]; rfl) rfl
  | error _ =>
    refine Eff.ensures_modify_bind (Eff.ensures_pure ?_)
    have ha : w.answered (count s) (Request.status.url w) = .error () := hr
    exact leads_of_answer (by rw [ha]; rfl) rfl

section Ensures

variable (hr : ∀ s, reconnect.Ensures s (fun _ s' => w.Leads s [.status] s' []) fun _ => w.Breaks s [.status])
include hr

/-- A request that is tried again when it fails. -/
theorem ensures_remoteRequest_owed {request : Request} (hs : w.spawned request (.error ()) = .ok [.status])
    (describe : Option Text → RemoteEvent) (s : Running) :
    (w.remoteRequest reconnect (request.url w) true describe).Ensures s
      (fun r s' => (w.answered (count s) (request.url w) = .ok r ∧ count s' = count s + 1) ∨
        (r = none ∧ w.Leads s [request] s' []))
      fun _ => w.Breaks s [request] := by
  unfold remoteRequest
  refine Eff.ensures_get_bind ?_
  cases hres : w.getResponse (request.url w) s with
  | ok response => exact Eff.ensures_modify_bind (Eff.ensures_pure (Or.inl ⟨hres, rfl⟩))
  | error _ =>
    have ha : w.answered (count s) (request.url w) = .error () := hres
    have hl : w.Leads s [request] (s.recorded (describe none)) [.status] :=
      leads_of_answer (by rw [ha, hs]) rfl
    refine Eff.ensures_modify_bind ?_
    refine Eff.ensures_bind (Eff.ensures_mono (hr (s.recorded (describe none))) (fun _ _ h => h)
      fun _ h => hl.breaks h) ?_
    intro b s' h
    exact Eff.ensures_pure (Or.inr ⟨rfl, hl.trans h⟩)

theorem ensures_getMetricProperties_owed (metric : Text) (s : Running) :
    (w.getMetricProperties reconnect metric).Ensures s (fun _ s' => w.Leads s [.props metric] s' [])
      fun _ => w.Breaks s [.props metric] := by
  unfold getMetricProperties
  refine Eff.ensures_bind (w.ensures_remoteRequest_owed hr (rfl : w.spawned (.props metric) _ = _) _ s) ?_
  intro response s' h
  cases response with
  | none =>
    rcases h with ⟨ha, hc⟩ | ⟨-, h⟩
    · exact Eff.ensures_pure (leads_of_answer (by rw [ha]; rfl) hc)
    · exact Eff.ensures_pure h
  | some body =>
    rcases h with ⟨ha, hc⟩ | ⟨h, -⟩
    · refine Eff.ensures_bind (Eff.ensures_lift
        (Q := fun p s2 => w.decodeProperties body = .ok p ∧ count s2 = count s + 1) (fun p hp => ⟨hp, hc⟩) ?_) ?_
      · intro e he
        exact breaks_of_answer (by rw [ha, spawned, he]; rfl)
      · rintro p s2 ⟨hp, hc⟩
        exact Eff.ensures_pure (leads_of_answer (by rw [ha, spawned, hp]; rfl) hc)
    · cases h

theorem ensures_discoverAll_owed : ∀ (names : List Text) (s : Running),
    (w.discoverAll reconnect names).Ensures s (fun _ s' => w.Leads s (names.map .props) s' [])
      fun _ => w.Breaks s (names.map .props)
  | [], s => Eff.ensures_pure (Leads.refl s [])
  | n :: names, s => by
    unfold discoverAll
    refine Eff.ensures_bind (Eff.ensures_mono (w.ensures_getMetricProperties_owed hr n s) (fun _ _ h => h)
      fun _ h => h.append _) ?_
    intro p s1 h
    have hl : w.Leads s ((n :: names).map .props) s1 (names.map .props) := h.append (names.map .props)
    have ih := ensures_discoverAll_owed names s1
    cases p with
    | none => exact Eff.ensures_mono ih (fun _ _ h => hl.trans h) fun _ h => hl.breaks h
    | some p =>
      -- adding the metric asks nothing
      have ih := ensures_discoverAll_owed names (s1.added n p)
      refine Eff.ensures_modify_bind ?_
      exact Eff.ensures_mono ih (fun _ _ h => hl.trans h) fun _ h => hl.breaks h

theorem ensures_discoverMetrics_owed (s : Running) : (w.discoverMetrics reconnect).Ensures s
    (fun _ s' => w.Leads s [.list] s' []) fun _ => w.Breaks s [.list] := by
  unfold discoverMetrics getMetricNamesList
  refine Eff.ensures_bind (Q := fun names s' => w.Leads s [.list] s' (names.map .props))
    (Eff.ensures_bind (w.ensures_remoteRequest_owed hr (rfl : w.spawned .list _ = _) _ s) ?_) ?_
  · rintro r s' (⟨ha, hc⟩ | ⟨rfl, h⟩)
    · exact Eff.ensures_pure (leads_of_answer (by rw [ha]; rfl) hc)
    · exact Eff.ensures_pure h
  · intro names s' hl
    exact Eff.ensures_mono (w.ensures_discoverAll_owed hr names s') (fun _ _ h => hl.trans h)
      fun _ h => hl.breaks h

end Ensures

/-- What a `connect` that returns asked for is what it owed. -/
theorem ensures_connect_owed : ∀ (depth : ℕ) (s : Running), (w.connect depth).Ensures s
    (fun _ s' => w.Leads s [.status] s' []) fun _ => w.Breaks s [.status]
  | 0, _ => Eff.ensures_overflow
  | depth + 1, s => by
    unfold connect Module.connect Module.setConnected
    refine Eff.ensures_modify_bind ?_
    refine Eff.ensures_bind (Eff.ensures_mono (w.ensures_connectionStatus_owed _) (fun _ _ h => h)
      fun _ h => h.elim) ?_
    intro b s1 hl
    have hs : w.Leads s [.status] s1 (if b then [.list] else []) := hl
    cases b with
    | false => exact Eff.ensures_get_bind (Eff.ensures_pure hs)
    | true =>
      refine Eff.ensures_bind (Eff.ensures_mono
        (w.ensures_discoverMetrics_owed (ensures_connect_owed depth) s1) (fun _ _ h => h)
        fun _ h => hs.breaks h) ?_
      intro _ s2 h
      exact Eff.ensures_modify_bind (Eff.ensures_get_bind (Eff.ensures_pure (hs.trans h)))

/-! ### A list that is settled, and the depth of stack it takes -/

/-- What is owed from `s` on is settled within `n` answers. -/
def Within (n : ℕ) (s : Running) (pending : List Request) : Prop := Settled (w.owed (count s) n pending)

variable {w} in
theorem Within.answer {s s' : Running} (h : w.Within (n + 1) s (request :: pending))
    (ha : w.spawned request (w.answered (count s) (request.url w)) = .ok more) (hc : count s' = count s + 1) :
    w.Within n s' (more ++ pending) := by
  rwa [Within, owed_ok ha, ← hc] at h

variable {w} in
theorem not_within_zero {s : Running} : ¬ w.Within 0 s (request :: pending) := by
  rintro (h | h) <;> cases h

theorem finishes_connectionStatus {s : Running} (h : w.Within (n + 1) s (.status :: pending)) :
    (w.connectionStatus reconnect).Finishes s
      fun b s' => w.Within n s' ((if b then [.list] else []) ++ pending) := by
  unfold connectionStatus remoteRequest
  refine Eff.finishes_bind (Q := fun r s' => w.Within n s' ((if saysAlive r then [.list] else []) ++ pending)) ?_
    fun r s' h => Eff.finishes_pure h
  refine Eff.finishes_get_bind ?_
  cases hr : w.getResponse w.url s with
  | ok response =>
    have ha : w.answered (count s) (Request.status.url w) = .ok response := hr
    exact Eff.finishes_modify_bind (Eff.finishes_pure (h.answer (by rw [ha]; rfl) rfl))
  | error _ =>
    have ha : w.answered (count s) (Request.status.url w) = .error () := hr
    exact Eff.finishes_modify_bind (Eff.finishes_pure (h.answer (by rw [ha]; rfl) rfl))

section Finishes

variable {depth : ℕ} (hr : ∀ n ≤ depth, ∀ s pending, w.Within n s (.status :: pending) →
  reconnect.Finishes s fun _ s' => ∃ m < n, w.Within m s' pending)
include hr

theorem finishes_remoteRequest {s : Running} (hn : n ≤ depth)
    (hs : w.spawned request (.error ()) = .ok [.status]) (describe : Option Text → RemoteEvent)
    (h : w.Within (n + 1) s (request :: pending)) :
    (w.remoteRequest reconnect (request.url w) true describe).Finishes s
      fun r s' => (w.answered (count s) (request.url w) = .ok r ∧ count s' = count s + 1) ∨
        (r = none ∧ ∃ m ≤ n, w.Within m s' pending) := by
  unfold remoteRequest
  refine Eff.finishes_get_bind ?_
  cases hres : w.getResponse (request.url w) s with
  | ok response => exact Eff.finishes_modify_bind (Eff.finishes_pure (Or.inl ⟨hres, rfl⟩))
  | error _ =>
    have ha : w.answered (count s) (request.url w) = .error () := hres
    have hp : w.Within n (s.recorded (describe none)) (.status :: pending) := h.answer (by rw [ha, hs]) rfl
    refine Eff.finishes_modify_bind (Eff.finishes_bind (hr n hn _ pending hp) ?_)
    rintro b s' ⟨m, hm, h⟩
    exact Eff.finishes_pure (Or.inr ⟨rfl, m, hm.le, h⟩)

theorem finishes_getMetricProperties {s : Running} (metric : Text) (hn : n ≤ depth)
    (h : w.Within (n + 1) s (.props metric :: pending)) :
    (w.getMetricProperties reconnect metric).Finishes s fun _ s' => ∃ m ≤ n, w.Within m s' pending := by
  unfold getMetricProperties
  refine Eff.finishes_bind (w.finishes_remoteRequest hr hn (rfl : w.spawned (.props metric) _ = _) _ h) ?_
  intro response s' h'
  cases response with
  | none =>
    rcases h' with ⟨ha, hc⟩ | ⟨-, h'⟩
    · have hw : w.Within n s' ([] ++ pending) := h.answer (by rw [ha]; rfl) hc
      exact Eff.finishes_pure ⟨n, le_rfl, hw⟩
    · exact Eff.finishes_pure h'
  | some body =>
    rcases h' with ⟨ha, hc⟩ | ⟨h', -⟩
    · refine Eff.finishes_bind (Eff.finishes_lift
        (Q := fun p s2 => w.decodeProperties body = .ok p ∧ count s2 = count s + 1) fun p hp => ⟨hp, hc⟩) ?_
      rintro p s2 ⟨hp, hc⟩
      have hw : w.Within n s2 ([] ++ pending) := h.answer (by rw [ha, spawned, hp]; rfl) hc
      exact Eff.finishes_pure ⟨n, le_rfl, hw⟩
    · cases h'

theorem finishes_discoverAll : ∀ (names : List Text) {n : ℕ} {s : Running}, n ≤ depth →
    w.Within n s (names.map .props ++ pending) →
    (w.discoverAll reconnect names).Finishes s fun _ s' => ∃ m ≤ n, w.Within m s' pending
  | [], n, s, _, h => Eff.finishes_pure ⟨n, le_rfl, h⟩
  | _ :: _, 0, s, _, h => absurd h not_within_zero
  | x :: names, n + 1, s, hn, h => by
    unfold discoverAll
    refine Eff.finishes_bind (w.finishes_getMetricProperties hr x (n.le_succ.trans hn) h) ?_
    rintro p s1 ⟨m, hm, h1⟩
    have hle : m ≤ n + 1 := hm.trans n.le_succ
    cases p with
    | none =>
      refine Eff.finishes_mono (finishes_discoverAll names (hle.trans hn) h1) ?_
      rintro _ s2 ⟨m', hm', h2⟩
      exact ⟨m', hm'.trans hle, h2⟩
    | some p =>
      refine Eff.finishes_modify_bind ?_
      have h2 : w.Within m (s1.added x p) (names.map .props ++ pending) := h1
      refine Eff.finishes_mono (finishes_discoverAll names (hle.trans hn) h2) ?_
      rintro _ s2 ⟨m', hm', h2⟩
      exact ⟨m', hm'.trans hle, h2⟩

theorem finishes_discoverMetrics {s : Running} (hn : n ≤ depth) (h : w.Within n s (.list :: pending)) :
    (w.discoverMetrics reconnect).Finishes s fun _ s' => ∃ m ≤ n, w.Within m s' pending := by
  cases n with
  | zero => exact absurd h not_within_zero
  | succ n =>
    have hle : n ≤ depth := n.le_succ.trans hn
    unfold discoverMetrics getMetricNamesList
    refine Eff.finishes_bind (Q := fun names s' => ∃ m ≤ n, w.Within m s' (names.map .props ++ pending))
      (Eff.finishes_bind (w.finishes_remoteRequest hr hle (rfl : w.spawned .list _ = _) _ h) ?_) ?_
    · rintro r s' (⟨ha, hc⟩ | ⟨rfl, h'⟩)
      · exact Eff.finishes_pure ⟨n, le_rfl, h.answer (by rw [ha]; rfl) hc⟩
      · exact Eff.finishes_pure h'
    · rintro names s' ⟨m, hm, h'⟩
      refine Eff.finishes_mono (w.finishes_discoverAll hr names (hm.trans hle) h') ?_
      rintro _ s2 ⟨m', hm', h2⟩
      exact ⟨m', hm'.trans (hm.trans n.le_succ), h2⟩

end Finishes

/-- A stack as deep as there are answers to come is deep enough: every nested
`connect` is answered at least once. -/
theorem finishes_connect : ∀ (depth : ℕ), ∀ n ≤ depth, ∀ s pending, w.Within n s (.status :: pending) →
    (w.connect depth).Finishes s fun _ s' => ∃ m < n, w.Within m s' pending
  | _, 0, _, s, _, h => absurd h not_within_zero
  | 0, n + 1, hn, _, _, _ => absurd hn (Nat.not_succ_le_zero n)
  | depth + 1, n + 1, hn, s, pending, h => by
    unfold connect Module.connect Module.setConnected
    have hle : n ≤ depth := Nat.le_of_succ_le_succ hn
    refine Eff.finishes_modify_bind (Eff.finishes_bind (w.finishes_connectionStatus h) ?_)
    intro b s1 h1
    cases b with
    | false => exact Eff.finishes_get_bind (Eff.finishes_pure ⟨n, n.lt_succ_self, h1⟩)
    | true =>
      refine Eff.finishes_bind (w.finishes_discoverMetrics (finishes_connect depth) hle h1) ?_
      rintro _ s2 ⟨m, hm, h2⟩
      exact Eff.finishes_modify_bind (Eff.finishes_get_bind (Eff.finishes_pure ⟨m, Nat.lt_succ_of_le hm, h2⟩))

/-! ### When the calls return -/

/-- The call returns. -/
def Returned {α : Type} (call : ℕ → Java α) (s : Running) : Prop := ∃ depth a s', call depth s = .returned a s'

/-- The call comes to an end, by an exception perhaps. -/
def Ended {α : Type} (call : ℕ → Java α) (s : Running) : Prop :=
  Returned call s ∨ ∃ depth e s', call depth s = .thrown e s'

/-- What the status request with this number leads to is answered in the end. -/
def Answered (i : ℕ) : Prop := ∃ n, w.owed i n [.status] = some []

/-- Or an exception comes before that. -/
def Over (i : ℕ) : Prop := ∃ n, Settled (w.owed i n [.status])

theorem returned_connect_iff (s : Running) : Returned w.connect s ↔ w.Answered (count s) := by
  constructor
  · rintro ⟨depth, b, s', h⟩
    obtain ⟨k, hk⟩ := (w.ensures_connect_owed depth s).returned h
    exact ⟨k + 0, hk [] 0⟩
  · rintro ⟨n, hn⟩
    rcases Eff.finishes_cases (w.finishes_connect n n le_rfl s [] (Or.inl hn)) with ⟨b, s', h, -⟩ | ⟨e, s', h⟩
    · exact ⟨n, b, s', h⟩
    · obtain ⟨k, hk⟩ := (w.ensures_connect_owed n s).thrown h
      exact absurd (hk []) (owed_unique hn)

theorem ended_connect_iff (s : Running) : Ended w.connect s ↔ w.Over (count s) := by
  constructor
  · rintro (h | ⟨depth, e, s', h⟩)
    · obtain ⟨n, hn⟩ := (w.returned_connect_iff s).mp h
      exact ⟨n, Or.inl hn⟩
    · obtain ⟨k, hk⟩ := (w.ensures_connect_owed depth s).thrown h
      exact ⟨k, Or.inr (hk [])⟩
  · rintro ⟨n, hn⟩
    rcases Eff.finishes_cases (w.finishes_connect n n le_rfl s [] hn) with ⟨b, s', h, -⟩ | ⟨e, s', h⟩
    · exact Or.inl ⟨n, b, s', h⟩
    · exact Or.inr ⟨n, e, s', h⟩

/-- `getValue`, on a stack of the given depth. -/
def getValue (metric : Text) (depth : ℕ) : Java (Option JavaObject) := (RemoteModule.web w).getValue depth metric

section GetValue

variable {metric : Text} {s : Running} (depth : ℕ)

theorem getValue_eq : w.getValue metric depth s =
    (if metric ≠ [] && s.module.connected then w.getRemoteGenericMetric (w.connect depth) metric
      else pure none : Java (Option JavaObject)) s := rfl

/-- A read of no name, or of a module that is not connected. -/
theorem getValue_unasked (h : metric = [] ∨ s.module.connected = false) :
    w.getValue metric depth s = .returned none s := by
  rw [getValue_eq, if_neg]
  · rfl
  · rcases h with h | h <;> simp [h]

variable (hm : metric ≠ []) (hc : s.module.connected = true)
include hm hc

theorem getValue_asked : w.getValue metric depth s = w.getRemoteGenericMetric (w.connect depth) metric s := by
  rw [getValue_eq, if_pos]
  simp [hm, hc]

theorem getValue_answered {r : Option Text}
    (hr : w.answered (count s) (URLBuilder.buildGetMetricRequest w.url metric) = .ok r) :
    w.getValue metric depth s = .returned (r.bind fun body => w.json.get body metric)
      (s.recorded (.value metric r.isSome)) := by
  have hg : w.getResponse (URLBuilder.buildGetMetricRequest w.url metric) s = .ok r := hr
  rw [getValue_asked w depth hm hc]
  simp only [getRemoteGenericMetric, remoteRequest, bind, Eff.get, hg]
  rfl

omit hm hc in
theorem remoteRequest_failed {reconnect : Java Bool} {url : Text} {describe : Option Text → RemoteEvent}
    (h : w.getResponse url s = .error ()) : w.remoteRequest reconnect url true describe s =
      (reconnect >>= fun _ => (pure none : Java (Option Text))) (s.recorded (describe none)) := by
  unfold remoteRequest
  rw [Eff.bind_apply]
  simp only [Eff.get, h]
  rfl

/-- A read that fails is over when the `connect` it leads to is. -/
theorem getValue_failed (hr : w.answered (count s) (URLBuilder.buildGetMetricRequest w.url metric) = .error ()) :
    w.getValue metric depth s =
      match w.connect depth (s.recorded (.value metric false)) with
      | .returned _ s' => .returned none s'
      | .thrown e s' => .thrown e s'
      | .unfinished => .unfinished := by
  have hg : w.getResponse (URLBuilder.buildGetMetricRequest w.url metric) s = .error () := hr
  rw [getValue_asked w depth hm hc, getRemoteGenericMetric, Eff.bind_apply, remoteRequest_failed w hg, Eff.bind_apply,
    Option.isSome_none]
  cases w.connect depth (s.recorded (.value metric false)) <;> rfl

end GetValue

/-- What there is to ask of a read, and how it ends when that fails. -/
theorem getValue_cases (metric : Text) (s : Running) :
    Returned (w.getValue metric) s ∧
      (metric = [] ∨ s.module.connected = false ∨
        w.answered (count s) (URLBuilder.buildGetMetricRequest w.url metric) ≠ .error ()) ∨
    (metric ≠ [] ∧ s.module.connected = true ∧
      w.answered (count s) (URLBuilder.buildGetMetricRequest w.url metric) = .error ()) := by
  by_cases hu : metric = [] ∨ s.module.connected = false
  · exact Or.inl ⟨⟨0, none, s, w.getValue_unasked 0 hu⟩, hu.imp_right Or.inl⟩
  · obtain ⟨hm, hc⟩ := not_or.mp hu
    have hc : s.module.connected = true := by simpa using hc
    cases hr : w.answered (count s) (URLBuilder.buildGetMetricRequest w.url metric) with
    | ok r => exact Or.inl ⟨⟨0, _, _, w.getValue_answered 0 hm hc hr⟩, Or.inr (Or.inr nofun)⟩
    | error _ => exact Or.inr ⟨hm, hc, rfl⟩

variable {metric : Text} {s : Running} (hm : metric ≠ []) (hc : s.module.connected = true)
  (hr : w.answered (count s) (URLBuilder.buildGetMetricRequest w.url metric) = .error ())
include hm hc hr

theorem returned_getValue_iff : Returned (w.getValue metric) s ↔
    Returned w.connect (s.recorded (.value metric false)) := by
  refine exists_congr fun depth => ?_
  rw [w.getValue_failed depth hm hc hr]
  cases w.connect depth (s.recorded (.value metric false)) <;> simp

theorem ended_getValue_iff : Ended (w.getValue metric) s ↔
    Ended w.connect (s.recorded (.value metric false)) := by
  refine or_congr (w.returned_getValue_iff hm hc hr) ?_
  refine exists_congr fun depth => ?_
  rw [w.getValue_failed depth hm hc hr]
  cases w.connect depth (s.recorded (.value metric false)) <;> simp

end WebModule

open WebModule

/-- A read that needs no retry. -/
def Unfailing (w : WebModule) (metric : Text) (s : Running) : Prop :=
  metric = [] ∨ s.module.connected = false ∨
    w.answered (count s) (URLBuilder.buildGetMetricRequest w.url metric) ≠ .error ()

/-- **When a web module's calls return.** `connect` returns exactly if the
list of what it owes becomes empty, and comes to an end exactly if that
happens or an exception does; so does a read that fails, with the `connect`
it leads to. -/
theorem returns_iff_settled (w : WebModule) (s : Running) :
    (Returned w.connect s ↔ w.Answered (count s)) ∧ (Ended w.connect s ↔ w.Over (count s)) ∧
    ∀ metric, (Returned (w.getValue metric) s ↔ Unfailing w metric s ∨ w.Answered (count s + 1)) ∧
      (Ended (w.getValue metric) s ↔ Unfailing w metric s ∨ w.Over (count s + 1)) := by
  refine ⟨w.returned_connect_iff s, w.ended_connect_iff s, fun metric => ?_⟩
  rcases w.getValue_cases metric s with ⟨h, hu⟩ | ⟨hm, hc, hr⟩
  · exact ⟨iff_of_true h (Or.inl hu), iff_of_true (Or.inl h) (Or.inl hu)⟩
  · have hu : ¬ Unfailing w metric s := by
      rintro (h | h | h)
      · exact hm h
      · rw [hc] at h
        cases h
      · exact h hr
    have hcount : count (s.recorded (.value metric false)) = count s + 1 := rfl
    constructor
    · rw [w.returned_getValue_iff hm hc hr, w.returned_connect_iff, hcount, or_iff_right hu]
    · rw [w.ended_getValue_iff hm hc hr, w.ended_connect_iff, hcount, or_iff_right hu]

/-- An agent that says it is alive whenever it is asked, and takes no other
request. -/
def busyAgent : WebModule where
  url := "http://agent:9090".toList
  validUrl := true
  remote n _ := if n % 2 = 0 then .text "204 No Content".toList else .ioException
  json := ⟨fun _ _ => none, fun _ _ => none, fun _ _ => none⟩

theorem answered_busyAgent (i : ℕ) (url : Text) : busyAgent.answered i url =
    if i % 2 = 0 then .ok (some "204 No Content".toList) else .error () := by
  have hv : busyAgent.validUrl = true := rfl
  have hr : busyAgent.remote i url = if i % 2 = 0 then .text "204 No Content".toList else .ioException := rfl
  rw [WebModule.answered, if_pos hv, hr]
  by_cases h : i % 2 = 0
  · rw [if_pos h, if_pos h]
  · rw [if_neg h, if_neg h]

/-- The two requests follow each other for good. -/
theorem owed_busyAgent : ∀ n i : ℕ,
    (i % 2 = 0 → ¬ Settled (busyAgent.owed i n [.status])) ∧
    (i % 2 = 1 → ¬ Settled (busyAgent.owed i n [.list]))
  | 0, i => by constructor <;> rintro - (h | h) <;> cases h
  | n + 1, i => by
    have ih := owed_busyAgent n (i + 1)
    constructor
    · intro hi
      have ha : busyAgent.spawned .status (busyAgent.answered i (Request.status.url busyAgent)) = .ok [.list] := by
        rw [answered_busyAgent, if_pos hi]
        rfl
      rw [owed_ok ha]
      exact ih.2 (by omega)
    · intro hi
      have hne : ¬ i % 2 = 0 := by omega
      have ha : busyAgent.spawned .list (busyAgent.answered i (Request.list.url busyAgent)) = .ok [.status] := by
        rw [answered_busyAgent, if_neg hne]
        rfl
      rw [owed_ok ha]
      exact ih.1 (by omega)

/-- Its module's `connect` never comes to an end. -/
theorem busyAgent_connect :
    ¬ (∀ (w : WebModule) (s : Running), Returned w.connect s) ∧ ¬ Ended busyAgent.connect ⟨⟨[], false, .empty, []⟩, {}⟩ := by
  have h : ¬ Ended busyAgent.connect ⟨⟨[], false, .empty, []⟩, {}⟩ := by
    rw [busyAgent.ended_connect_iff]
    rintro ⟨n, hn⟩
    exact (owed_busyAgent n 0).1 rfl hn
  exact ⟨fun hall => h (Or.inl (hall _ _)), h⟩

end Plethora
