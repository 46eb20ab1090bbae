/-
# What a module's connected flag says

A connected module is never retried, so the flag should mean that the last
check of the remote end succeeded and that every metric reported since is
listed (`Honest`). `connect` sets the flag after any discovery, and a
discovery can fail: the list request of a web module may fail and its retry
find the remote end gone, after which the outer `connect` still sets the flag;
a JMX discovery that got no `MBeanInfo` lists nothing and the flag is set too.

What does hold of every `connect` that returns (`Connected`): the flag is what
the first check said, and the names the last discovery reported are all listed
(`Registered`), however the failures nest. So the flag is honest after a call
exactly when the remote end, if any check of that call succeeded, also answered
the last one and listed its metrics (`Recovered`): `honest_iff` for one call,
`connected_iff_recovered` for runs.

Key definitions: `Honest`, `Recovered`, `Connected`, `Call`.
Key theorems: `ensures_connect`, `Settles.honest_iff`, `connected_iff_recovered`.
-/
import Plethora.Data.RemoteModule

namespace Plethora

/-- A connected module's last check succeeded, and the discovery after it
completed: it was answered and every name it reported is listed. -/
def Honest (s : Running) : Prop :=
  s.module.connected = true → lastStatus s.module.requests = some true ∧
    ∃ names, lastDiscovery s.module.requests = some names ∧ ∀ n ∈ names, n ∈ s.module.metricNames

/-- What the remote end must do between `s` and `s'`: fail every check asked
of it, or answer the last one and the list request after it. -/
def Recovered (s s' : Running) : Prop :=
  ∃ d, s'.module.requests = d ++ s.module.requests ∧
    ((∀ ok, .status ok ∈ d → ok = false) ∨ (lastStatus d = some true ∧ (lastDiscovery d).isSome = true))

/-- The state after a `connect` that returned `b`. -/
structure Connected (s : Running) (b : Bool) (s' : Running) : Prop where
  grows : Grows s s'
  flag : s'.module.connected = b
  /-- The first request is the check, and there is no other if it fails. -/
  checked : ∃ d, s'.module.requests = d ++ .status b :: s.module.requests ∧ (b = false → d = [])
  registered : Registered s'

/-- The state a `connect` throws in. -/
structure Broken (s s' : Running) : Prop where
  grows : Grows s s'
  checked : ∃ d, s'.module.requests = d ++ .status true :: s.module.requests
  registered : s'.module.connected = true → Registered s'

/-- The state a discovery throws in. -/
def Interrupted (s s' : Running) : Prop := Grows s s' ∧ (s'.module.connected = true → Registered s')

/-! ### The small steps -/

theorem ensures_record_bind {α : Type} {e : RemoteEvent} {s : Running} {f : Unit → Java α}
    {Q : α → Running → Prop} {E : Running → Prop} (h : (f ()).Ensures (s.recorded e) Q E) :
    (Module.record e >>= f).Ensures s Q E := h

theorem registered_recorded_status (ok : Bool) (s : Running) : Registered (s.recorded (.status ok)) := by
  intro names h
  simp [Running.recorded, lastDiscovery] at h

theorem registered_recorded_none (s : Running) : Registered (s.recorded (.discovery none)) := by
  intro names h
  simp [Running.recorded, lastDiscovery] at h

theorem ensures_addMetric_bind {α : Type} {n : Text} {p : MetricProperties} {s : Running}
    {f : Unit → Java α} {Q : α → Running → Prop} {E : Running → Prop}
    (h : (f ()).Ensures (s.added n p) Q E) : (Module.addMetric n p >>= f).Ensures s Q E := h

/-- What a discovery that reported `names` and has `rest` to go keeps: either
a `connect` inside it returned since, and what that one was told is listed, or
the flag is still cleared and the names gone through are listed. -/
def Discovering (names rest : List Text) (s : Running) : Prop :=
  Registered s ∨ (s.module.connected = false ∧ lastDiscovery s.module.requests = some names ∧
    ∀ n ∈ names, n ∈ rest ∨ n ∈ s.module.metricNames)

namespace Discovering

variable {names rest : List Text} {s : Running} {n : Text}

theorem property (h : Discovering names rest s) (a : Bool) :
    Discovering names rest (s.recorded (.property n a)) := h

theorem interrupted (h : Discovering names rest s) : Interrupted s s := by
  refine ⟨Grows.refl s, fun hc => ?_⟩
  rcases h with h | ⟨h, -, -⟩
  · exact h
  · rw [h] at hc
    cases hc

theorem added (h : Discovering names (n :: rest) s) (p : MetricProperties) :
    Discovering names rest (s.added n p) := by
  rcases h with h | ⟨hc, hd, hn⟩
  · exact Or.inl fun ns hns m hm => TreeSet.mem_add.mpr (Or.inr (h ns hns m hm))
  · refine Or.inr ⟨hc, hd, fun m hm => ?_⟩
    rcases hn m hm with hm | hm
    · rcases List.mem_cons.mp hm with rfl | hm
      · exact Or.inr (TreeSet.mem_add.mpr (Or.inl rfl))
      · exact Or.inl hm
    · exact Or.inr (TreeSet.mem_add.mpr (Or.inr hm))

theorem registered (h : Discovering names [] s) : Registered s := by
  rcases h with h | ⟨-, hd, hn⟩
  · exact h
  · intro ns hns m hm
    rw [hd] at hns
    cases hns
    exact (hn m hm).resolve_left List.not_mem_nil

end Discovering

/-! ### `Module.connect` -/

/-- `connect` of any class: its check makes one request, and says `true` only
if the remote end is `Live`; then its discovery lists what it is told. -/
theorem ensures_connect {connectionStatus : Java Bool} {discoverMetrics : Java Unit} {Live : Prop}
    (hcs : ∀ s, connectionStatus.Ensures s
      (fun b s' => s' = s.recorded (.status b) ∧ (b = true → Live)) fun _ => False)
    (hdm : Live → ∀ s, s.module.connected = false → discoverMetrics.Ensures s
      (fun _ s' => Grows s s' ∧ Registered s') (Interrupted s))
    (s : Running) : (Module.connect connectionStatus discoverMetrics).Ensures s (Connected s) (Broken s) := by
  unfold Module.connect Module.setConnected
  refine Eff.ensures_modify_bind ?_
  refine Eff.ensures_bind (Eff.ensures_mono (hcs _) (fun _ _ h => h) fun _ h => h.elim) ?_
  rintro b s2 ⟨rfl, hlive⟩
  cases b with
  | false =>
    refine Eff.ensures_get_bind ?_
    refine Eff.ensures_pure ⟨?_, rfl, ⟨[], rfl, fun _ => rfl⟩, registered_recorded_status _ _⟩
    exact ⟨rfl, List.suffix_cons _ _, fun _ h => h⟩
  | true =>
    have hd := hdm (hlive rfl) (Running.recorded
      { s with module := { s.module with connected := false } } (.status true)) rfl
    refine Eff.ensures_bind (Eff.ensures_mono hd (fun _ _ h => h) fun s3 h => ?_) ?_
    · -- the discovery throws
      obtain ⟨d, hreq⟩ := h.1.requests
      exact ⟨⟨h.1.name, (List.suffix_cons _ _).trans h.1.requests, h.1.names⟩, ⟨d, hreq.symm⟩, h.2⟩
    · rintro - s3 ⟨hg, hreg⟩
      obtain ⟨d, hreq⟩ := hg.requests
      refine Eff.ensures_modify_bind ?_
      refine Eff.ensures_get_bind ?_
      refine Eff.ensures_pure ⟨?_, rfl, ⟨d, hreq.symm, nofun⟩, hreg⟩
      exact ⟨hg.name, (List.suffix_cons _ _).trans hg.requests, hg.names⟩

/-! ### A web module -/

namespace WebModule

variable (w : WebModule) {reconnect : Java Bool}

/-- A request that is not retried. -/
theorem ensures_remoteRequest_noRetry (url : Text) (describe : Option Text → RemoteEvent) (s : Running) :
    (w.remoteRequest reconnect url false describe).Ensures s
      (fun r s' => s' = s.recorded (describe r) ∧ (r.isSome = true → w.validUrl = true)) fun _ => False := by
  unfold remoteRequest
  refine Eff.ensures_get_bind ?_
  cases hr : w.getResponse url s with
  | error _ =>
    refine ensures_record_bind ?_
    exact Eff.ensures_pure ⟨rfl, nofun⟩
  | ok response =>
    refine ensures_record_bind ?_
    refine Eff.ensures_pure ⟨rfl, fun h => ?_⟩
    by_contra hv
    simp only [getResponse, hv, if_false, Except.ok.injEq] at hr
    rw [← hr] at h
    cases h

theorem ensures_connectionStatus (s : Running) : (w.connectionStatus reconnect).Ensures s
    (fun b s' => s' = s.recorded (.status b) ∧ (b = true → w.validUrl = true)) fun _ => False := by
  unfold connectionStatus
  refine Eff.ensures_bind (w.ensures_remoteRequest_noRetry _ _ s) ?_
  rintro r s1 ⟨rfl, hv⟩
  refine Eff.ensures_pure ⟨rfl, fun h => hv ?_⟩
  cases r with
  | none => cases h
  | some body => rfl

section Retried

variable (hr : ∀ s, reconnect.Ensures s (Connected s) (Broken s)) (hv : w.validUrl = true)

include hr in
/-- A retried request: answered, or failed and a `reconnect` came back. -/
theorem ensures_remoteRequest (url : Text) (describe : Option Text → RemoteEvent) (s : Running) :
    (w.remoteRequest reconnect url true describe).Ensures s
      (fun r s' => ((w.validUrl = true → r.isSome = true) ∧ s' = s.recorded (describe r)) ∨
        (r = none ∧ ∃ b, Connected (s.recorded (describe none)) b s'))
      (Broken (s.recorded (describe none))) := by
  unfold remoteRequest
  refine Eff.ensures_get_bind ?_
  cases hres : w.getResponse url s with
  | error _ =>
    refine ensures_record_bind ?_
    refine Eff.ensures_bind (hr _) ?_
    intro b s3 h
    exact Eff.ensures_pure (Or.inr ⟨rfl, b, h⟩)
  | ok response =>
    refine ensures_record_bind ?_
    refine Eff.ensures_pure (Or.inl ⟨fun hv => ?_, rfl⟩)
    simp only [getResponse, hv, if_true] at hres
    split at hres
    · rw [← Except.ok.inj hres]
      rfl
    · cases hres

include hr hv

theorem ensures_getMetricProperties (n : Text) (s : Running) :
    (w.getMetricProperties reconnect n).Ensures s
      (fun p s' => (p.isSome = true ∧ s' = s.recorded (.property n true)) ∨
        (p = none ∧ ∃ b, Connected (s.recorded (.property n false)) b s'))
      (fun s' => s' = s.recorded (.property n true) ∨ Broken (s.recorded (.property n false)) s') := by
  unfold getMetricProperties
  refine Eff.ensures_bind (Eff.ensures_mono (w.ensures_remoteRequest hr _ _ s) (fun _ _ h => h)
    fun _ h => Or.inr h) ?_
  intro r s1 h
  cases r with
  | none =>
    rcases h with ⟨h, -⟩ | ⟨-, h⟩
    · cases h hv
    · exact Eff.ensures_pure (Or.inr ⟨rfl, h⟩)
  | some body =>
    rcases h with ⟨-, rfl⟩ | ⟨h, -⟩
    · refine Eff.ensures_bind (Eff.ensures_lift (Q := fun _ s' => s' = _) (fun _ _ => rfl)
        fun _ _ => Or.inl rfl) ?_
      rintro p s2 rfl
      exact Eff.ensures_pure (Or.inl ⟨rfl, rfl⟩)
    · cases h

/-- The loop over the names lists every one of them, or what the last
`connect` inside it was told. -/
theorem ensures_discoverAll (names : List Text) : ∀ (rest : List Text) (s : Running),
    Discovering names rest s → (w.discoverAll reconnect rest).Ensures s
      (fun _ s' => Grows s s' ∧ Registered s') (Interrupted s)
  | [], s, h => Eff.ensures_pure ⟨Grows.refl s, h.registered⟩
  | n :: rest, s, h => by
    unfold discoverAll
    refine Eff.ensures_bind (Eff.ensures_mono (w.ensures_getMetricProperties hr hv n s)
      (fun _ _ h => h) fun s1 h1 => ?_) ?_
    · -- the properties cannot be had, and an exception leaves the loop
      rcases h1 with rfl | h1
      · exact ⟨grows_recorded _ _, (h.property true).interrupted.2⟩
      · exact ⟨(grows_recorded _ _).trans h1.grows, h1.registered⟩
    · intro p s1 h1
      cases p with
      | some p =>
        rcases h1 with ⟨-, rfl⟩ | ⟨h1, -⟩
        · refine ensures_addMetric_bind ?_
          have hg := (grows_recorded s (.property n true)).trans (grows_added _ n p)
          refine Eff.ensures_mono (ensures_discoverAll names rest _ ((h.property true).added p))
            (fun _ _ h2 => ⟨hg.trans h2.1, h2.2⟩) fun _ h2 => ⟨hg.trans h2.1, h2.2⟩
        · cases h1
      | none =>
        rcases h1 with ⟨h1, -⟩ | ⟨-, b, h1⟩
        · cases h1
        · have hg := (grows_recorded s (.property n false)).trans h1.grows
          refine Eff.ensures_mono (ensures_discoverAll names rest _ (Or.inl h1.registered))
            (fun _ _ h2 => ⟨hg.trans h2.1, h2.2⟩) fun _ h2 => ⟨hg.trans h2.1, h2.2⟩

theorem ensures_discoverMetrics (s : Running) (hc : s.module.connected = false) :
    (w.discoverMetrics reconnect).Ensures s (fun _ s' => Grows s s' ∧ Registered s') (Interrupted s) := by
  unfold discoverMetrics getMetricNamesList
  refine Eff.ensures_bind (Q := fun names s' => Grows s s' ∧ Discovering names names s')
    (Eff.ensures_bind (Eff.ensures_mono (w.ensures_remoteRequest hr _ _ s) (fun _ _ h => h)
      fun s1 h1 => ⟨(grows_recorded _ _).trans h1.grows, h1.registered⟩) ?_) ?_
  · rintro r s1 (⟨-, rfl⟩ | ⟨rfl, b, h1⟩)
    · refine Eff.ensures_pure ⟨grows_recorded _ _, ?_⟩
      cases hn : w.listedNames r with
      | none => exact Or.inl (registered_recorded_none s)
      | some names => exact Or.inr ⟨hc, rfl, fun n hn => Or.inl hn⟩
    · exact Eff.ensures_pure ⟨(grows_recorded _ _).trans h1.grows, Or.inl h1.registered⟩
  · rintro names s1 ⟨hg, h1⟩
    exact Eff.ensures_mono (w.ensures_discoverAll hr hv names names s1 h1)
      (fun _ _ h2 => ⟨hg.trans h2.1, h2.2⟩) fun _ h2 => ⟨hg.trans h2.1, h2.2⟩

end Retried

/-- However deep the retries nest. -/
theorem ensures_connect : ∀ (depth : ℕ) (s : Running), (w.connect depth).Ensures s (Connected s) (Broken s)
  | 0, _ => Eff.ensures_overflow
  | depth + 1, s =>
    Plethora.ensures_connect w.ensures_connectionStatus
      (fun hv => w.ensures_discoverMetrics (ensures_connect depth) hv) s

end WebModule

/-! ### A JMX module -/

namespace JMXModule

variable (j : JMXModule)

theorem ensures_connectionStatus (s : Running) : j.connectionStatus.Ensures s
    (fun b s' => s' = s.recorded (.status b) ∧ (b = true → True)) fun _ => False := by
  unfold connectionStatus
  refine Eff.ensures_get_bind ?_
  refine ensures_record_bind ?_
  exact Eff.ensures_pure ⟨rfl, fun _ => trivial⟩

theorem ensures_discoverAll (names : List Text) : ∀ (rest : List MBeanAttributeInfo) (s : Running),
    Discovering names (rest.map (·.name)) s → (j.discoverAll rest).Ensures s
      (fun _ s' => Grows s s' ∧ Registered s') (Interrupted s)
  | [], s, h => Eff.ensures_pure ⟨Grows.refl s, h.registered⟩
  | a :: rest, s, h => by
    unfold discoverAll
    refine Eff.ensures_bind (Eff.ensures_lift (Q := fun _ s' => s' = s) (fun _ _ => rfl)
      fun _ _ => h.interrupted) ?_
    rintro p s1 rfl
    refine ensures_addMetric_bind ?_
    have hg := grows_added s1 a.name { p with type := nameToType a.type }
    exact Eff.ensures_mono (ensures_discoverAll names rest _ (h.added _))
      (fun _ _ h2 => ⟨hg.trans h2.1, h2.2⟩) fun _ h2 => ⟨hg.trans h2.1, h2.2⟩

theorem ensures_discoverMetrics (s : Running) (hc : s.module.connected = false) :
    j.discoverMetrics.Ensures s (fun _ s' => Grows s s' ∧ Registered s') (Interrupted s) := by
  unfold discoverMetrics
  refine Eff.ensures_get_bind ?_
  refine ensures_record_bind ?_
  have hg := grows_recorded s (.discovery ((j.answer s).info.map fun attribs => attribs.map (·.name)))
  cases hi : (j.answer s).info with
  | none =>
    rw [hi] at hg
    exact Eff.ensures_pure ⟨hg, registered_recorded_none s⟩
  | some attribs =>
    rw [hi] at hg
    exact Eff.ensures_mono (j.ensures_discoverAll (attribs.map (·.name)) attribs _
        (Or.inr ⟨hc, rfl, fun n hn => Or.inl hn⟩))
      (fun _ _ h2 => ⟨hg.trans h2.1, h2.2⟩) fun _ h2 => ⟨hg.trans h2.1, h2.2⟩

theorem ensures_connect (s : Running) : j.connect.Ensures s (Connected s) (Broken s) :=
  Plethora.ensures_connect j.ensures_connectionStatus (fun _ => j.ensures_discoverMetrics) s

end JMXModule

/-! ### Calls from outside -/

/-- The calls of the rest of the server on a remote module. -/
inductive Call
  | connect
  | reconnect
  | getValue (metric : Text)

def RemoteModule.call (depth : ℕ) (m : RemoteModule) : Call → Java Unit
  | .connect => do
    let _ ← m.connect depth
    return ()
  | .reconnect => do
    let _ ← m.connect depth
    return ()
  | .getValue metric => do
    let _ ← m.getValue depth metric
    return ()

/-- Some call takes `s` to `s'` and returns. -/
def Returns (m : RemoteModule) (s s' : Running) : Prop :=
  ∃ depth c, m.call depth c s = .returned () s'

/-- Some call in `s` throws in `s'`. -/
def Throws (m : RemoteModule) (s s' : Running) : Prop :=
  ∃ depth c e, m.call depth c s = .thrown e s'

/-- Requests for values only. -/
def Values (d : List RemoteEvent) : Prop := ∀ e ∈ d, ∃ n a, e = .value n a

theorem values_nil : Values [] := nofun

theorem values_singleton (n : Text) (a : Bool) : Values [.value n a] := by
  intro e he
  exact ⟨n, a, List.mem_singleton.mp he⟩

theorem lastStatus_values : ∀ {d : List RemoteEvent} (l : List RemoteEvent), Values d →
    lastStatus (d ++ l) = lastStatus l
  | [], _, _ => rfl
  | e :: d, l, h => by
    obtain ⟨n, a, rfl⟩ := h e (List.mem_cons_self ..)
    exact lastStatus_values (d := d) l fun e' he' => h e' (List.mem_cons_of_mem _ he')

theorem lastDiscovery_values : ∀ {d : List RemoteEvent} (l : List RemoteEvent), Values d →
    lastDiscovery (d ++ l) = lastDiscovery l
  | [], _, _ => rfl
  | e :: d, l, h => by
    obtain ⟨n, a, rfl⟩ := h e (List.mem_cons_self ..)
    exact lastDiscovery_values (d := d) l fun e' he' => h e' (List.mem_cons_of_mem _ he')

/-- What a call that returned did: at most ask for a value, or check the
remote end, once or more often. -/
inductive Settles (s s' : Running) : Prop
  | quiet (d : List RemoteEvent) (values : Values d)
      (requests : s'.module.requests = d ++ s.module.requests)
      (flag : s'.module.connected = s.module.connected)
      (names : s'.module.metricNames = s.module.metricNames) : Settles s s'
  | checked (before d : List RemoteEvent) (ok : Bool) (values : Values before)
      (requests : s'.module.requests = d ++ .status ok :: (before ++ s.module.requests))
      (only : ok = false → d = []) (flag : s'.module.connected = ok) (registered : Registered s') :
      Settles s s'

/-- What a call that threw did. -/
structure Shatters (s s' : Running) : Prop where
  checked : ∃ before d, Values before ∧
    s'.module.requests = d ++ .status true :: (before ++ s.module.requests)
  registered : s'.module.connected = true → Registered s'

theorem Connected.settles {s s' : Running} {b : Bool} (h : Connected s b s') : Settles s s' := by
  obtain ⟨d, hd, ho⟩ := h.checked
  exact .checked [] d b values_nil hd ho h.flag h.registered

theorem Connected.settles_recorded {s s' : Running} {b : Bool} {n : Text} {a : Bool}
    (h : Connected (s.recorded (.value n a)) b s') : Settles s s' := by
  obtain ⟨d, hd, ho⟩ := h.checked
  exact .checked [.value n a] d b (values_singleton n a) hd ho h.flag h.registered

theorem Broken.shatters {s s' : Running} (h : Broken s s') : Shatters s s' := by
  obtain ⟨d, hd⟩ := h.checked
  exact ⟨⟨[], d, values_nil, hd⟩, h.registered⟩

theorem Broken.shatters_recorded {s s' : Running} {n : Text} {a : Bool}
    (h : Broken (s.recorded (.value n a)) s') : Shatters s s' := by
  obtain ⟨d, hd⟩ := h.checked
  exact ⟨⟨[.value n a], d, values_singleton n a, hd⟩, h.registered⟩

theorem settles_recorded (s : Running) (n : Text) (a : Bool) : Settles s (s.recorded (.value n a)) :=
  .quiet [.value n a] (values_singleton n a) rfl rfl rfl

namespace RemoteModule

theorem ensures_connect (depth : ℕ) (m : RemoteModule) (s : Running) :
    (m.connect depth).Ensures s (Connected s) (Broken s) := by
  cases m with
  | web w => exact w.ensures_connect depth s
  | jmx j => exact j.ensures_connect s

theorem ensures_getRemoteGenericMetric (depth : ℕ) (m : RemoteModule) (metric : Text) (s : Running) :
    (m.getRemoteGenericMetric depth metric).Ensures s (fun _ s' => Settles s s') (Shatters s) := by
  cases m with
  | web w =>
    simp only [getRemoteGenericMetric, WebModule.getRemoteGenericMetric]
    refine Eff.ensures_bind (Eff.ensures_mono
      (w.ensures_remoteRequest (w.ensures_connect depth) _ _ s) (fun _ _ h => h)
      fun _ h => h.shatters_recorded) ?_
    rintro r s1 (⟨-, rfl⟩ | ⟨rfl, b, h⟩)
    · exact Eff.ensures_pure (settles_recorded s metric _)
    · exact Eff.ensures_pure h.settles_recorded
  | jmx j =>
    simp only [getRemoteGenericMetric, JMXModule.getRemoteGenericMetric]
    refine Eff.ensures_get_bind ?_
    cases (j.answer s).getAttribute with
    | value v => exact ensures_record_bind (Eff.ensures_pure (settles_recorded s metric _))
    | jmxException => exact ensures_record_bind (Eff.ensures_pure (settles_recorded s metric _))
    | ioException =>
      refine ensures_record_bind (Eff.ensures_bind (Eff.ensures_mono (j.ensures_connect _)
        (fun _ _ h => h) fun _ h => h.shatters_recorded) ?_)
      intro b s1 h
      exact Eff.ensures_pure h.settles_recorded

theorem ensures_getValue (depth : ℕ) (m : RemoteModule) (metric : Text) (s : Running) :
    (m.getValue depth metric).Ensures s (fun _ s' => Settles s s') (Shatters s) := by
  unfold getValue isValidMetricAndModuleConnected
  refine Eff.ensures_bind (Q := fun _ s' => s' = s) (Eff.ensures_get_bind (Eff.ensures_pure rfl)) ?_
  rintro b s1 rfl
  cases b with
  | true => exact m.ensures_getRemoteGenericMetric depth metric s1
  | false => exact Eff.ensures_pure (.quiet [] values_nil rfl rfl rfl)

theorem ensures_call (depth : ℕ) (m : RemoteModule) (c : Call) (s : Running) :
    (m.call depth c).Ensures s (fun _ s' => Settles s s') (Shatters s) := by
  have hc : (m.connect depth).Ensures s (fun _ s' => Settles s s') (Shatters s) :=
    Eff.ensures_mono (m.ensures_connect depth s) (fun _ _ h => h.settles) fun _ h => h.shatters
  cases c with
  | connect => exact Eff.ensures_bind hc fun _ _ h => Eff.ensures_pure h
  | reconnect => exact Eff.ensures_bind hc fun _ _ h => Eff.ensures_pure h
  | getValue metric =>
    exact Eff.ensures_bind (m.ensures_getValue depth metric s) fun _ _ h => Eff.ensures_pure h

end RemoteModule

theorem Returns.settles {m : RemoteModule} {s s' : Running} (h : Returns m s s') : Settles s s' := by
  obtain ⟨depth, c, h⟩ := h
  exact (m.ensures_call depth c s).returned h

theorem Throws.shatters {m : RemoteModule} {s s' : Running} (h : Throws m s s') : Shatters s s' := by
  obtain ⟨depth, c, e, h⟩ := h
  exact (m.ensures_call depth c s).thrown h

/-! ### When the flag is honest -/

theorem lastStatus_checked (d before l : List RemoteEvent) (ok : Bool) :
    lastStatus (d ++ .status ok :: (before ++ l)) = lastStatus (d ++ .status ok :: before) := by
  rw [lastStatus_append, lastStatus_append]
  cases lastStatus d <;> rfl

theorem lastDiscovery_checked (d before l : List RemoteEvent) (ok : Bool) :
    lastDiscovery (d ++ .status ok :: (before ++ l)) = lastDiscovery (d ++ .status ok :: before) := by
  rw [lastDiscovery_append_status, ← lastDiscovery_append_status ok before]

/-- What the remote end did in a call is what was added to the requests. -/
theorem recovered_iff {s s' : Running} {d : List RemoteEvent}
    (h : s'.module.requests = d ++ s.module.requests) : Recovered s s' ↔
      ((∀ ok, .status ok ∈ d → ok = false) ∨ (lastStatus d = some true ∧ (lastDiscovery d).isSome = true)) := by
  constructor
  · rintro ⟨d', hd', h'⟩
    rw [h, List.append_cancel_right_eq] at hd'
    rwa [hd']
  · exact fun h' => ⟨d, h, h'⟩

/-- One call that returns keeps the flag honest exactly if the remote end
recovered in it. -/
theorem Settles.honest_iff {s s' : Running} (h : Settles s s') (hs : Honest s) :
    Honest s' ↔ Recovered s s' := by
  cases h with
  | quiet d values requests flag names =>
    refine iff_of_true ?_ ((recovered_iff requests).mpr (Or.inl fun ok hok => ?_))
    · intro hc
      rw [requests, lastStatus_values _ values, lastDiscovery_values _ values, names]
      exact hs (flag ▸ hc)
    · obtain ⟨_, _, he⟩ := values _ hok
      cases he
  | checked before d ok values requests only flag registered =>
    have hreq : s'.module.requests = (d ++ .status ok :: before) ++ s.module.requests := by
      rw [requests, List.append_assoc, List.cons_append]
    rw [recovered_iff hreq]
    cases ok with
    | false =>
      -- the one check failed: the flag is cleared
      refine iff_of_true (fun hc => ?_) (Or.inl fun ok hok => ?_)
      · rw [flag] at hc
        cases hc
      · rw [only rfl, List.nil_append, List.mem_cons] at hok
        rcases hok with hok | hok
        · cases hok
          rfl
        · obtain ⟨_, _, he⟩ := values _ hok
          cases he
    | true =>
      have hnot : ¬ ∀ ok, .status ok ∈ d ++ .status true :: before → ok = false :=
        fun h => Bool.noConfusion (h true (List.mem_append_right _ (List.mem_cons_self ..)))
      rw [or_iff_right hnot]
      unfold Honest
      rw [requests, lastStatus_checked, lastDiscovery_checked]
      constructor
      · intro h
        obtain ⟨h1, names, h2, -⟩ := h flag
        exact ⟨h1, by rw [h2]; rfl⟩
      · rintro ⟨h1, h2⟩ -
        obtain ⟨names, hn⟩ := Option.isSome_iff_exists.mp h2
        refine ⟨h1, names, hn, registered names ?_⟩
        rw [requests, lastDiscovery_checked, hn]

/-- A call that throws keeps it honest too, if the remote end recovered. -/
theorem Shatters.honest {s s' : Running} (h : Shatters s s') (hr : Recovered s s') : Honest s' := by
  intro hc
  obtain ⟨before, d, -, requests⟩ := h.checked
  have hreq : s'.module.requests = (d ++ .status true :: before) ++ s.module.requests := by
    rw [requests, List.append_assoc, List.cons_append]
  rcases (recovered_iff hreq).mp hr with hf | ⟨h1, h2⟩
  · exact Bool.noConfusion (hf true (List.mem_append_right _ (List.mem_cons_self ..)))
  · obtain ⟨names, hn⟩ := Option.isSome_iff_exists.mp h2
    have hd : lastDiscovery s'.module.requests = some names := by
      rw [requests, lastDiscovery_checked, hn]
    exact ⟨by rw [requests, lastStatus_checked, h1], names, hd, h.registered hc names hd⟩

/-- A module as its constructor finds it. -/
def fresh (name : Text) (metrics : Metrics) : Running := ⟨{ moduleName := name }, metrics⟩

theorem honest_fresh (name : Text) (metrics : Metrics) : Honest (fresh name metrics) := nofun

/-- Along any run the flag stays honest while the remote end recovers. -/
theorem honest_of_recovered {m : RemoteModule} : ∀ {s : Running} {states : List Running}, Honest s →
    (s :: states).IsChain (fun s s' => Returns m s s' ∨ Throws m s s') → (s :: states).IsChain Recovered →
    ∀ s' ∈ states, Honest s'
  | _, [], _, _, _ => nofun
  | s, t :: states, hs, hrun, hrec => by
    obtain ⟨hst, hrun⟩ := List.isChain_cons_cons.mp hrun
    obtain ⟨hrt, hrec⟩ := List.isChain_cons_cons.mp hrec
    have ht : Honest t := by
      rcases hst with h | h
      · exact (h.settles.honest_iff hs).mpr hrt
      · exact h.shatters.honest hrt
    intro s' hs'
    rcases List.mem_cons.mp hs' with rfl | hs'
    · exact ht
    · exact honest_of_recovered ht hrun hrec s' hs'

theorem recovered_of_honest {m : RemoteModule} : ∀ {s : Running} {states : List Running}, Honest s →
    (s :: states).IsChain (Returns m) → (∀ s' ∈ states, Honest s') → (s :: states).IsChain Recovered
  | s, [], _, _, _ => .singleton s
  | s, t :: states, hs, hrun, hall => by
    obtain ⟨hst, hrun⟩ := List.isChain_cons_cons.mp hrun
    have ht := hall t (List.mem_cons_self ..)
    refine List.isChain_cons_cons.mpr ⟨(hst.settles.honest_iff hs).mp ht, ?_⟩
    exact recovered_of_honest ht hrun fun s' hs' => hall s' (List.mem_cons_of_mem _ hs')

/-- **When the connected flag can be trusted.** In a run of calls that return
it is honest after every call exactly if the remote end recovered in every
call; that much is enough in runs whose calls may also throw. -/
theorem connected_iff_recovered (m : RemoteModule) (name : Text) (metrics : Metrics) (states : List Running) :
    ((fresh name metrics :: states).IsChain (Returns m) →
      ((∀ s ∈ states, Honest s) ↔ (fresh name metrics :: states).IsChain Recovered)) ∧
    ((fresh name metrics :: states).IsChain (fun s s' => Returns m s s' ∨ Throws m s s') →
      (fresh name metrics :: states).IsChain Recovered → ∀ s ∈ states, Honest s) := by
  have hf := honest_fresh name metrics
  refine ⟨fun hrun => ⟨recovered_of_honest hf hrun, fun hrec => ?_⟩, honest_of_recovered hf⟩
  exact honest_of_recovered hf (hrun.imp fun _ _ => Or.inl) hrec

/-- A remote end with one attribute, which never fails. -/
def steadyBean : JMXModule where
  remote _ := ⟨true, some [⟨"Load".toList, "java.lang.Long".toList, none⟩], .value (some (.long 1))⟩
  json := ⟨fun _ _ => none, fun _ _ => none, fun _ _ => none⟩

/-- Its module, before any call and after the first `connect`. -/
def steadyStart : Running := fresh "jvm".toList {}

def steadyConnected : Running :=
  ({ steadyStart with
      module.connected := true
      module.requests := [.discovery (some ["Load".toList]), .status true] } : Running).added "Load".toList {}

theorem connected_iff_recovered_steadyBean :
    (∀ s ∈ [steadyConnected], Honest s) ∧ [steadyStart, steadyConnected].IsChain Recovered := by
  have hcall : Returns (.jmx steadyBean) steadyStart steadyConnected := ⟨0, .connect, rfl⟩
  have hrun : [steadyStart, steadyConnected].IsChain (Returns (.jmx steadyBean)) :=
    .cons_cons hcall (.singleton _)
  have hrec : [steadyStart, steadyConnected].IsChain Recovered :=
    .cons_cons ⟨_, (List.append_nil _).symm, Or.inr ⟨rfl, rfl⟩⟩ (.singleton _)
  have h := connected_iff_recovered (.jmx steadyBean) "jvm".toList {} [steadyConnected]
  exact ⟨h.2 (hrun.imp fun _ _ => Or.inl) hrec, (h.1 hrun).mp ((h.1 hrun).mpr hrec)⟩

/-- A web agent that is up, lists the metric `cpu`, and is gone from the next
request on. -/
def goneAgent : WebModule where
  url := "http://agent:9090".toList
  validUrl := true
  remote n _ :=
    match n with
    | 0 => .text "204 No Content".toList
    | 1 => .text "\x7b\"plethora\":[\"cpu\"]\x7d".toList
    | _ => .ioException
  json :=
    { getString _ _ := none
      get _ _ := none
      getStrings body name :=
        if body = "\x7b\"plethora\":[\"cpu\"]\x7d".toList ∧ name = "plethora".toList then
          some ["cpu".toList]
        else none }

/-- Its module stays marked connected, though the last check failed and the
metric was never listed. -/
theorem goneAgent_connected : ∃ s, Returns (.web goneAgent) (fresh "agent".toList {}) s ∧
    s.module.connected = true ∧ lastStatus s.module.requests = some false ∧
    "cpu".toList ∉ s.module.metricNames ∧ ¬ Honest s := by
  refine ⟨_, ⟨2, .connect, rfl⟩, rfl, rfl, by decide, fun h => ?_⟩
  have hs := (h rfl).1
  cases hs

end Plethora
