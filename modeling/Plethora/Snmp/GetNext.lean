/-
# GETNEXT on all of its routes

An OID in a GETNEXT request takes one of three routes: the metrics subtree, the
system group short of its last OID, or, from anywhere else, the first module.

Of a request only the first OID takes one; the bindings of the others come back
as they were, for as long as the manager asks (`WalkAt.told_succ`).

On the system route the answer pairs the next OID with the value of the OID
that was asked for, so a GET for the answer's OID disagrees with it, unless two
neighbouring texts of the configuration are equal (`getnext_agrees_iff`).

Anywhere but on the first two routes the answer is the first module's OID,
whatever was asked for: an OID below a metric's, or past the subtree, is
answered with a smaller one (`getnext_increases_iff`). Walks end all the same,
since no route leads back: `routeRank` comes down with every answer.

Key definitions: `onSystemRoute`, `Answers`, `routeRank`, `WalkAt`.
Key theorems: `getValueforOID_getNext`, `getnext_agrees_iff`,
`getnext_increases_iff`.
-/
import Plethora.Snmp.Walk

namespace Plethora

open Successor

namespace SystemGroup

variable (g : SystemGroup)

/-- `1.3.6.1.2.1.1.i.0`. -/
def sysOid (i : UInt32) : Oid := ⟨[1, 3, 6, 1, 2, 1, 1, i, 0]⟩

def ifNumberOid : Oid := ⟨[1, 3, 6, 1, 2, 1, 2, 1, 0]⟩

theorem systemGroupList_eq : g.systemGroupList =
    [sysOid 1, sysOid 2, sysOid 3, sysOid 4, sysOid 5, sysOid 6, sysOid 7, ifNumberOid] := rfl

/-- The order of the tree map. -/
theorem systemGroupList_sorted : g.systemGroupList.Pairwise (· < ·) := by
  rw [systemGroupList_eq]
  decide

theorem isSysOID_iff {o : Oid} : g.isSysOID o = true ↔ o ∈ g.systemGroupList := mem_keys_iff.symm

theorem hasNext_cases {o : Oid} (h : g.hasNext o = true) :
    o = sysOid 1 ∨ o = sysOid 2 ∨ o = sysOid 3 ∨ o = sysOid 4 ∨ o = sysOid 5 ∨ o = sysOid 6 ∨ o = sysOid 7 := by
  rw [hasNext, Bool.and_eq_true, isSysOID_iff, systemGroupList_eq] at h
  obtain ⟨hm, hi⟩ := h
  have hne : o ≠ ifNumberOid := by
    rintro rfl
    revert hi
    decide
  simp only [List.mem_cons, List.not_mem_nil, or_false] at hm
  tauto

/-- All but the last OID of the group have a next one. -/
theorem getNextSysOid_isSome {o : Oid} (h : g.hasNext o = true) :
    ∃ next, g.getNextSysOid o = some next ∧ o < next ∧ next ∈ g.systemGroupList := by
  have h' := h
  rw [hasNext, Bool.and_eq_true, isSysOID_iff, decide_eq_true_iff] at h'
  have hi : g.systemGroupList.idxOf o + 1 < g.systemGroupList.length := by omega
  refine ⟨g.systemGroupList[g.systemGroupList.idxOf o + 1], ?_, ?_, List.getElem_mem hi⟩
  · rw [getNextSysOid, if_pos h, List.getElem?_eq_getElem hi]
  · have hlt := List.pairwise_iff_getElem.mp g.systemGroupList_sorted _ _ (Nat.lt_of_succ_lt hi) hi
      (Nat.lt_succ_self _)
    rwa [List.getElem_idxOf] at hlt

end SystemGroup

namespace SnmpAgent

variable (agent : SnmpAgent)

/-! ### The routes -/

/-- The system group's branch of `getNextOidValue`. -/
def onSystemRoute (o : Oid) : Bool := !o.startsWith agent.rootOid && agent.systemGroup.hasNext o

theorem getNextOidValue_system {o next : Oid} (h : agent.onSystemRoute o = true)
    (hn : agent.systemGroup.getNextSysOid o = some next) :
    agent.getNextOidValue o = (agent.systemGroup.getSysOidVariable o).map fun v => some ⟨next, v⟩ := by
  rw [onSystemRoute, Bool.and_eq_true, Bool.not_eq_true'] at h
  unfold getNextOidValue
  simp only [h.1, h.2, hn, Bool.false_eq_true, if_false, if_true]

theorem indexes_long {s : List UInt32} (h : 2 < s.length) : indexes s = (0, 0) := by
  match s with
  | _ :: _ :: _ :: _ => rfl

/-- Off the system route the answer is that for some module and metric arcs:
those of the OID if it is the root with at most two more, else none. -/
theorem getNextOidValue_metrics {o : Oid} (h : agent.onSystemRoute o = false) :
    (∃ s : List UInt32, s.length ≤ 2 ∧ o = agent.rootOid.append s ∧
      agent.getNextOidValue o = agent.getNext (indexes s)) ∨
    (∀ s : List UInt32, s.length ≤ 2 → o ≠ agent.rootOid.append s) ∧
      agent.getNextOidValue o = agent.getNext (0, 0) := by
  by_cases hr : o.startsWith agent.rootOid = true
  · obtain ⟨s, rfl⟩ := Oid.startsWith_iff.mp hr
    by_cases hs : s.length ≤ 2
    · exact Or.inl ⟨s, hs, rfl, agent.getNextOidValue_append s⟩
    · refine Or.inr ⟨fun t ht he => hs ?_, ?_⟩
      · rw [Oid.append_inj.mp he]
        exact ht
      · rw [getNextOidValue_append, indexes_long (by omega)]
  · rw [Bool.not_eq_true] at hr
    rw [onSystemRoute, hr] at h
    refine Or.inr ⟨?_, agent.getNextOidValue_first hr h⟩
    rintro s - rfl
    rw [Oid.startsWith_append] at hr
    cases hr

theorem getValueforOID_append {s : List UInt32} (h : s ≠ []) (h0 : s ≠ [0]) :
    agent.getValueforOID (agent.rootOid.append s) =
      agent.oidToMetricBridge.getMetricOidVariable (agent.rootOid.append s) := by
  unfold getValueforOID
  rw [if_pos (Oid.startsWith_append ..), if_neg]
  rintro (he | he)
  · exact h (Oid.append_eq_self.mp he.symm)
  · exact h0 (Oid.append_inj.mp he.symm)

/-- What an OID that is not on the system route is answered with. -/
theorem getNextOidValue_first_or {o : Oid} (h : agent.onSystemRoute o = false) :
    (∃ s : List UInt32, s.length ≤ 2 ∧ o = agent.rootOid.append s) ∨
    (∀ s : List UInt32, s.length ≤ 2 → o ≠ agent.rootOid.append s) ∧
      agent.getNextOidValue o = agent.getNextOidValue (agent.rootOid.append []) := by
  rcases agent.getNextOidValue_metrics h with ⟨s, hs, ho, -⟩ | ⟨hne, ho⟩
  · exact Or.inl ⟨s, hs, ho⟩
  · exact Or.inr ⟨hne, ho.trans (agent.getNextOidValue_append []).symm⟩

theorem toNat_succ {a : UInt32} (h : a.toNat + 1 < 2 ^ 31) : (a + 1).toNat = a.toNat + 1 := by
  rw [UInt32.toNat_add]
  exact Nat.mod_eq_of_lt (h.trans (by decide))

/-- **Off the system route GET agrees**: what GETNEXT answers is the value of
the OID it answers with. -/
theorem getValueforOID_getNext {i : UInt32 × UInt32} {answer : OidValue}
    (h : agent.getNext i = .ok (some answer)) : agent.getValueforOID answer.oid = .ok answer.value := by
  obtain ⟨a, b⟩ := i
  unfold getNext at h
  dsimp only at h
  cases hk : agent.metricService.metricAt a.toNat (b.toNat + 1) with
  | some p =>
    obtain ⟨module, metric⟩ := p
    simp only [hk] at h
    have hsmall := (agent.isPlace_of_metricAt hk).1.metric_small
    cases hv : agent.metricService.metricVariable module metric with
    | error e =>
      rw [hv] at h
      cases h
    | ok v =>
      rw [hv] at h
      cases h
      rw [getValueforOID_append agent (by simp) (by simp)]
      have hget := agent.oidToMetricBridge.getMetricOidVariable_metric a (b + 1) []
      rw [toNat_succ hsmall, oidToMetricBridge_metricService, hk] at hget
      exact hget.trans hv
  | none =>
    simp only [hk] at h
    cases hm : agent.metricService.moduleAt (a.toNat + 1) with
    | none =>
      rw [hm] at h
      cases h
    | some module =>
      rw [hm] at h
      cases h
      have hp := agent.metricService.moduleAt_isSome.mp (Option.isSome_iff_exists.mpr ⟨_, hm⟩)
      have hsmall := hp.2.trans_lt agent.metricService.moduleCount_small
      have h0 : a + 1 ≠ 0 := fun h => by
        have := congrArg UInt32.toNat h
        rw [toNat_succ hsmall] at this
        cases this
      rw [getValueforOID_append agent (by simp) (by simpa using h0)]
      have hget := agent.oidToMetricBridge.getMetricOidVariable_module (a + 1)
      rw [toNat_succ hsmall, oidToMetricBridge_metricService, hm] at hget
      exact hget

/-! ### The system group -/

/-- An arc that is not 1 is not where the root ends. -/
theorem startsWith_concat {l : List UInt32} {a : UInt32} (h : (⟨l ++ [a]⟩ : Oid).startsWith agent.rootOid = true) :
    a = 1 ∧ agent.rootOid = ⟨l ++ [a]⟩ ∨ (⟨l⟩ : Oid).startsWith agent.rootOid = true := by
  rw [Oid.startsWith, decide_eq_true_iff, List.prefix_concat_iff] at h
  rcases h with h | h
  · refine Or.inl ⟨?_, congrArg Oid.mk h⟩
    have hl : agent.enterprise.value ++ [1] = l ++ [a] := h
    exact (List.cons.inj (List.append_inj' hl rfl).2).1.symm
  · exact Or.inr (decide_eq_true h)

/-- A root above an OID of the group past the first is above all but the last. -/
theorem startsWith_sysOid {i : UInt32} (h : (SystemGroup.sysOid i).startsWith agent.rootOid = true) (hi : i ≠ 1)
    (j : UInt32) : (SystemGroup.sysOid j).startsWith agent.rootOid = true := by
  have h1 : (⟨[1, 3, 6, 1, 2, 1, 1]⟩ : Oid).startsWith agent.rootOid = true := by
    rcases agent.startsWith_concat (l := [1, 3, 6, 1, 2, 1, 1, i]) h with ⟨h, -⟩ | h
    · exact absurd h (by decide)
    · exact (agent.startsWith_concat (l := [1, 3, 6, 1, 2, 1, 1]) h).resolve_left fun h => hi h.1
  rw [Oid.startsWith, decide_eq_true_iff] at h1 ⊢
  exact h1.trans ⟨[j, 0], rfl⟩

theorem getValueforOID_sysOid {i j : UInt32} (hi : i ≠ 1) (hr : (SystemGroup.sysOid j).startsWith agent.rootOid = false)
    (hs : agent.systemGroup.isSysOID (SystemGroup.sysOid i) = true) :
    agent.getValueforOID (SystemGroup.sysOid i) = agent.systemGroup.getSysOidVariable (SystemGroup.sysOid i) := by
  unfold getValueforOID
  have hr' : (SystemGroup.sysOid i).startsWith agent.rootOid ≠ true := fun h => by
    rw [agent.startsWith_sysOid h hi j] at hr
    cases hr
  rw [if_neg hr', if_pos hs]

/-- The value of `ifNumber` is not 64, wherever the root is. -/
theorem getValueforOID_ifNumber (hr : (SystemGroup.sysOid 7).startsWith agent.rootOid = false) :
    agent.getValueforOID SystemGroup.ifNumberOid ≠ .ok (.integer32 64) := by
  unfold getValueforOID
  by_cases h : SystemGroup.ifNumberOid.startsWith agent.rootOid = true
  · rw [if_pos h]
    have hroot : agent.rootOid = ⟨[1, 3, 6, 1, 2, 1, 2, 1]⟩ := by
      rcases agent.startsWith_concat (l := [1, 3, 6, 1, 2, 1, 2, 1]) h with ⟨h, -⟩ | h
      · exact absurd h (by decide)
      rcases agent.startsWith_concat (l := [1, 3, 6, 1, 2, 1, 2]) h with ⟨-, h⟩ | h
      · exact h
      rcases agent.startsWith_concat (l := [1, 3, 6, 1, 2, 1]) h with ⟨h, -⟩ | h
      · exact absurd h (by decide)
      rw [Oid.startsWith, decide_eq_true_iff] at h
      rw [Oid.startsWith, decide_eq_false_iff_not] at hr
      exact absurd (h.trans ⟨[1, 7, 0], rfl⟩) hr
    have hscalar : agent.rootOidScalar = SystemGroup.ifNumberOid := by
      rw [rootOidScalar, hroot]
      rfl
    rw [if_pos (Or.inr hscalar)]
    intro he
    cases he
  · rw [if_neg h]
    intro he
    cases he

/-- The texts of two neighbours of the group that are both configured. -/
def SameText (o : Oid) : Prop :=
  o = SystemGroup.sysOid 4 ∧ agent.sysContact = agent.sysName ∨
    o = SystemGroup.sysOid 5 ∧ agent.sysName = agent.sysLocation

/-- The live counter is a `TimeTicks`. -/
theorem getSysUptime_eq {v : Variable} (h : agent.systemGroup.getSysUptime = .ok v) : ∃ t, v = .timeTicks t := by
  unfold SystemGroup.getSysUptime at h
  dsimp only at h
  split at h
  · exact ⟨_, (Except.ok.inj h).symm⟩
  · cases h

/-- On the system route GET disagrees, unless the two texts are equal. -/
theorem getValueforOID_system {o next : Oid} {v : Variable} (h : agent.onSystemRoute o = true)
    (hn : agent.systemGroup.getNextSysOid o = some next) (hv : agent.systemGroup.getSysOidVariable o = .ok v) :
    agent.getValueforOID next = .ok v ↔ agent.SameText o := by
  rw [onSystemRoute, Bool.and_eq_true, Bool.not_eq_true'] at h
  obtain ⟨hr, hs⟩ := h
  have hget : ∀ i j : UInt32, o = SystemGroup.sysOid j → i ≠ 1 →
      agent.systemGroup.isSysOID (SystemGroup.sysOid i) = true → SystemGroup.sysOid i = next →
      agent.getValueforOID next = agent.systemGroup.getSysOidVariable next := by
    rintro i j rfl hi hsys rfl
    exact agent.getValueforOID_sysOid hi hr hsys
  have hother : ∀ j : UInt32, j ≠ 4 → j ≠ 5 → ¬ agent.SameText (SystemGroup.sysOid j) := by
    rintro j h4 h5 (⟨h, -⟩ | ⟨h, -⟩)
    · simp [SystemGroup.sysOid, h4] at h
    · simp [SystemGroup.sysOid, h5] at h
  rcases agent.systemGroup.hasNext_cases hs with rfl | rfl | rfl | rfl | rfl | rfl | rfl
  · -- sysDescr, with sysObjectID
    rw [hget 2 1 rfl (by decide) rfl (Option.some.inj hn)]
    cases hn
    cases hv
    exact iff_of_false nofun (hother 1 (by decide) (by decide))
  · -- sysObjectID, with sysUpTime
    rw [hget 3 2 rfl (by decide) rfl (Option.some.inj hn)]
    cases hn
    cases hv
    refine iff_of_false (fun h => ?_) (hother 2 (by decide) (by decide))
    obtain ⟨t, ht⟩ := agent.getSysUptime_eq h
    cases ht
  · -- sysUpTime, with sysContact
    rw [hget 4 3 rfl (by decide) rfl (Option.some.inj hn)]
    cases hn
    obtain ⟨t, rfl⟩ := agent.getSysUptime_eq hv
    exact iff_of_false nofun (hother 3 (by decide) (by decide))
  · -- sysContact, with sysName
    rw [hget 5 4 rfl (by decide) rfl (Option.some.inj hn)]
    cases hn
    cases hv
    constructor
    · intro h
      have h : (.octetString agent.sysName : Variable) = .octetString agent.sysContact := Except.ok.inj h
      exact Or.inl ⟨rfl, (Variable.octetString.inj h).symm⟩
    · rintro (⟨-, h⟩ | ⟨h, -⟩)
      · exact congrArg (fun t => Except.ok (Variable.octetString t)) h.symm
      · exact absurd h (by decide)
  · -- sysName, with sysLocation
    rw [hget 6 5 rfl (by decide) rfl (Option.some.inj hn)]
    cases hn
    cases hv
    constructor
    · intro h
      have h : (.octetString agent.sysLocation : Variable) = .octetString agent.sysName := Except.ok.inj h
      exact Or.inr ⟨rfl, (Variable.octetString.inj h).symm⟩
    · rintro (⟨h, -⟩ | ⟨-, h⟩)
      · exact absurd h (by decide)
      · exact congrArg (fun t => Except.ok (Variable.octetString t)) h.symm
  · -- sysLocation, with sysServices
    rw [hget 7 6 rfl (by decide) rfl (Option.some.inj hn)]
    cases hn
    cases hv
    exact iff_of_false nofun (hother 6 (by decide) (by decide))
  · -- sysServices, with ifNumber
    cases hn
    cases hv
    exact iff_of_false (agent.getValueforOID_ifNumber hr) (hother 7 (by decide) (by decide))

/-- On the system route there is a next OID. -/
theorem exists_nextSysOid {o : Oid} (hs : agent.onSystemRoute o = true) : ∃ next,
    agent.systemGroup.getNextSysOid o = some next ∧ o < next ∧ next ∈ agent.systemGroup.systemGroupList := by
  rw [onSystemRoute, Bool.and_eq_true] at hs
  exact agent.systemGroup.getNextSysOid_isSome hs.2

/-! ### What is sent -/

/-- A value: neither a binding that is still to be answered nor the end. -/
def Assigned (v : Variable) : Prop := v ≠ .null ∧ v ≠ .endOfMibView

theorem objectToVariable_assigned {value : Option JavaObject} {v : Variable}
    (h : OidToMetricBridge.objectToVariable value = .ok v) : Assigned v := by
  unfold OidToMetricBridge.objectToVariable at h
  cases value with
  | none =>
    cases h
    exact ⟨nofun, nofun⟩
  | some object =>
    simp only at h
    repeat' split at h
    all_goals cases h
    all_goals exact ⟨nofun, nofun⟩

theorem getMetricOidVariable_assigned {bridge : OidToMetricBridge} {o : Oid} {v : Variable}
    (h : bridge.getMetricOidVariable o = .ok v) : Assigned v := by
  unfold OidToMetricBridge.getMetricOidVariable at h
  dsimp only at h
  split at h
  · obtain ⟨value, -, hvalue⟩ := bind_eq_ok.mp h
    exact objectToVariable_assigned hvalue
  · obtain ⟨value, -, hvalue⟩ := bind_eq_ok.mp h
    exact objectToVariable_assigned hvalue
  · cases h
    exact ⟨nofun, nofun⟩

theorem getSysOidVariable_assigned {o : Oid} {v : Variable} (h : agent.systemGroup.getSysOidVariable o = .ok v) :
    Assigned v := by
  unfold SystemGroup.getSysOidVariable at h
  split at h
  · obtain ⟨t, rfl⟩ := agent.getSysUptime_eq h
    exact ⟨nofun, nofun⟩
  · have hall : ∀ e ∈ agent.systemGroup.systemGroupMap, Assigned e.2 := by
      simp [SystemGroup.systemGroupMap, Assigned]
    cases hl : agent.systemGroup.systemGroupMap.lookup o with
    | none =>
      rw [hl] at h
      cases h
    | some w =>
      rw [hl] at h
      cases h
      obtain ⟨pre, post, hmap, -⟩ := List.lookup_eq_some_iff.mp hl
      exact hall (o, v) (by simp [hmap])

/-- GET answers every OID with a value. -/
theorem getValueforOID_assigned {o : Oid} {v : Variable} (h : agent.getValueforOID o = .ok v) : Assigned v := by
  unfold getValueforOID at h
  split at h
  · split at h
    · cases h
      exact ⟨nofun, nofun⟩
    · exact getMetricOidVariable_assigned h
  · split at h
    · exact agent.getSysOidVariable_assigned h
    · cases h
      exact ⟨nofun, nofun⟩

theorem getNext_assigned {i : UInt32 × UInt32} {answer : OidValue} (h : agent.getNext i = .ok (some answer)) :
    Assigned answer.value :=
  agent.getValueforOID_assigned (agent.getValueforOID_getNext h)

/-- And GETNEXT answers with one, or says that there is nothing further. -/
theorem getNextOidValue_assigned {o : Oid} {answer : OidValue} (h : agent.getNextOidValue o = .ok (some answer)) :
    Assigned answer.value := by
  cases hs : agent.onSystemRoute o with
  | false =>
    rcases agent.getNextOidValue_metrics hs with ⟨_, -, -, he⟩ | ⟨-, he⟩
    all_goals exact agent.getNext_assigned (he ▸ h)
  | true =>
    obtain ⟨next, hn, -, -⟩ := agent.exists_nextSysOid hs
    rw [agent.getNextOidValue_system hs hn] at h
    cases hv : agent.systemGroup.getSysOidVariable o with
    | error e => simp [hv, Except.map] at h
    | ok v =>
      rw [hv] at h
      cases h
      exact agent.getSysOidVariable_assigned hv

/-! ### GET for what GETNEXT answered -/

/-- A GETNEXT request for these OIDs. -/
def requestOf (oids : List Oid) : Pdu := ⟨oids.map (⟨·, .null⟩), 0⟩

/-- The response to GETNEXT for `oids` binds, in the place of the `i`-th, `o'` to
`v`. -/
def Answers (oids : List Oid) (i : ℕ) (o' : Oid) (v : Variable) : Prop :=
  ∃ response, agent.handleSnmpGetnext (requestOf oids) = .ok response ∧
    response.bindings[i]? = some ⟨o', v⟩ ∧ v ≠ .endOfMibView

/-- The response to GET for `o` binds it to `v`. -/
def Gets (o : Oid) (v : Variable) : Prop :=
  ∃ response, agent.handleSnmpGet ⟨[⟨o, .null⟩], 0⟩ = .ok response ∧ response.bindings = [⟨o, v⟩]

/-- What the first binding of a request is answered with, before the others. -/
def respond (rest : List Oid) : Option OidValue → Pdu
  | none => ⟨⟨⟨[]⟩, .endOfMibView⟩ :: rest.map (⟨·, .null⟩), 1⟩
  | some next => ⟨⟨next.oid, next.value⟩ :: rest.map (⟨·, .null⟩), 0⟩

theorem handleSnmpGetnext_cons (o : Oid) (rest : List Oid) :
    agent.handleSnmpGetnext (requestOf (o :: rest)) = (agent.getNextOidValue o).map (respond rest) := by
  unfold handleSnmpGetnext requestOf
  simp only [List.map_cons]
  cases agent.getNextOidValue o with
  | error e => rfl
  | ok next => cases next <;> rfl

/-- The other bindings come back as they were. -/
theorem respond_succ (rest : List Oid) (next : Option OidValue) (i : ℕ) :
    (respond rest next).bindings[i + 1]? = rest[i]?.map (⟨·, .null⟩) := by
  cases next <;> simp [respond]

theorem answers_zero_iff {o o' : Oid} {rest : List Oid} {v : Variable} : agent.Answers (o :: rest) 0 o' v ↔
    agent.getNextOidValue o = .ok (some ⟨o', v⟩) := by
  unfold Answers
  rw [handleSnmpGetnext_cons]
  constructor
  · rintro ⟨response, h, hb, hv⟩
    obtain ⟨next, hn, rfl⟩ := map_eq_ok.mp h
    cases next with
    | none =>
      cases hb
      exact absurd rfl hv
    | some next =>
      cases hb
      exact hn
  · intro h
    exact ⟨respond rest (some ⟨o', v⟩), by rw [h]; rfl, rfl, (agent.getNextOidValue_assigned h).2⟩

theorem answers_succ_iff {o o' : Oid} {rest : List Oid} {i : ℕ} {v : Variable} :
    agent.Answers (o :: rest) (i + 1) o' v ↔
      (∃ next, agent.getNextOidValue o = .ok next) ∧ rest[i]? = some o' ∧ v = .null := by
  unfold Answers
  rw [handleSnmpGetnext_cons]
  constructor
  · rintro ⟨response, h, hb, -⟩
    obtain ⟨next, hn, rfl⟩ := map_eq_ok.mp h
    rw [respond_succ, Option.map_eq_some_iff] at hb
    obtain ⟨o'', ho, hb⟩ := hb
    cases hb
    exact ⟨⟨next, hn⟩, ho, rfl⟩
  · rintro ⟨⟨next, hn⟩, ho, rfl⟩
    refine ⟨respond rest next, by rw [hn]; rfl, ?_, nofun⟩
    rw [respond_succ, ho]
    rfl

theorem gets_iff {o : Oid} {v : Variable} : agent.Gets o v ↔ agent.getValueforOID o = .ok v := by
  unfold Gets handleSnmpGet
  simp only [List.mapM_cons, List.mapM_nil]
  cases agent.getValueforOID o with
  | error e => exact iff_of_false (fun ⟨_, h, _⟩ => by cases h) nofun
  | ok w =>
    constructor
    · rintro ⟨_, h, hb⟩
      cases h
      cases hb
      rfl
    · intro h
      cases h
      exact ⟨_, rfl, rfl⟩

/-- In the first place. -/
theorem getValueforOID_getNextOidValue_iff {o o' : Oid} {v : Variable} (ha : agent.getNextOidValue o = .ok (some ⟨o', v⟩)) :
    agent.getValueforOID o' = .ok v ↔ (agent.onSystemRoute o = true → agent.SameText o) := by
  cases hs : agent.onSystemRoute o with
  | true =>
    obtain ⟨next, hn, -, -⟩ := agent.exists_nextSysOid hs
    rw [agent.getNextOidValue_system hs hn] at ha
    cases hv : agent.systemGroup.getSysOidVariable o with
    | error e =>
      rw [hv] at ha
      cases ha
    | ok w =>
      rw [hv] at ha
      cases ha
      rw [agent.getValueforOID_system hs hn hv]
      exact ⟨fun h _ => h, fun h => h rfl⟩
  | false =>
    refine iff_of_true ?_ nofun
    rcases agent.getNextOidValue_metrics hs with ⟨s, -, -, h⟩ | ⟨-, h⟩
    · exact agent.getValueforOID_getNext (h.symm.trans ha)
    · exact agent.getValueforOID_getNext (h.symm.trans ha)

/-- **The value GETNEXT attaches to an OID** is the value GET has for it exactly
in the place of the first OID of the request, off the system route or where two
neighbouring texts are equal: the other bindings come back unassigned. -/
theorem getnext_agrees_iff {oids : List Oid} {i : ℕ} {o o' : Oid} {v : Variable} (hi : oids[i]? = some o)
    (h : agent.Answers oids i o' v) :
    agent.Gets o' v ↔ i = 0 ∧ (agent.onSystemRoute o = true → agent.SameText o) := by
  rw [gets_iff]
  cases oids with
  | nil => simp at hi
  | cons first rest =>
    cases i with
    | zero =>
      obtain rfl : first = o := Option.some.inj hi
      rw [agent.getValueforOID_getNextOidValue_iff (agent.answers_zero_iff.mp h)]
      exact (and_iff_right rfl).symm
    | succ i =>
      obtain ⟨-, -, rfl⟩ := agent.answers_succ_iff.mp h
      refine iff_of_false (fun hget => ?_) (by simp)
      exact (agent.getValueforOID_assigned hget).1 rfl

theorem getnext_agrees_iff_oneMetric :
    (oneMetric "cpu".toList).Gets ((oneMetric "cpu".toList).moduleOid 1) (.octetString "app".toList) := by
  have h : (oneMetric "cpu".toList).Answers [(oneMetric "cpu".toList).rootOid, SystemGroup.sysOid 1] 0
      ((oneMetric "cpu".toList).moduleOid 1) (.octetString "app".toList) := ⟨_, rfl, rfl, nofun⟩
  exact ((oneMetric "cpu".toList).getnext_agrees_iff rfl h).mpr ⟨rfl, nofun⟩

/-- `sysObjectID` is answered with the description. -/
theorem getnext_sysDescr :
    (oneMetric "cpu".toList).Answers [SystemGroup.sysOid 1] 0 (SystemGroup.sysOid 2) (.octetString "agent".toList) ∧
      ¬ (oneMetric "cpu".toList).Gets (SystemGroup.sysOid 2) (.octetString "agent".toList) := by
  refine ⟨⟨_, rfl, rfl, nofun⟩, ?_⟩
  rw [gets_iff]
  exact nofun

/-! ### Which way GETNEXT leads -/

/-- The root with at most two further arcs. -/
def Short (o : Oid) : Prop := o.startsWith agent.rootOid = true ∧ o.size ≤ agent.rootOid.size + 2

instance (o : Oid) : Decidable (agent.Short o) := inferInstanceAs (Decidable (_ ∧ _))

theorem short_iff {o : Oid} : agent.Short o ↔ ∃ s : List UInt32, s.length ≤ 2 ∧ o = agent.rootOid.append s := by
  unfold Short
  constructor
  · rintro ⟨hr, hs⟩
    obtain ⟨s, rfl⟩ := Oid.startsWith_iff.mp hr
    rw [Oid.size_append] at hs
    exact ⟨s, by omega, rfl⟩
  · rintro ⟨s, hs, rfl⟩
    rw [Oid.size_append]
    exact ⟨Oid.startsWith_append .., by omega⟩

/-- The answer to the root itself is the first module. -/
theorem nextOid_root {o' : Oid} (h : agent.nextOid (agent.rootOid.append []) = .ok (some o')) :
    o' = agent.rootOid.append [1] := by
  have hn : some o' = if (agent.metricService.metricAt 0 1).isSome then some (agent.rootOid.append [0, 0 + 1])
      else if (agent.metricService.moduleAt 1).isSome then some (agent.rootOid.append [1]) else none :=
    agent.eq_nextPlace h
  have h0 : agent.metricService.metricAt 0 1 = none := rfl
  rw [h0, Option.isSome_none, if_neg Bool.false_ne_true] at hn
  split at hn
  · exact Option.some.inj hn
  · cases hn

theorem mem_exposed_of_nextOid {s : List UInt32} (hs : s.length ≤ 2) {o' : Oid}
    (h : agent.nextOid (agent.rootOid.append s) = .ok (some o')) :
    agent.rootOid.append s < o' ∧ o' ∈ agent.exposed := by
  have hn := agent.isNext_exposed hs
  rw [← agent.eq_nextPlace h] at hn
  exact ⟨hn.2.1, hn.1⟩

/-- The route of a request, and what it is answered with. -/
theorem nextOid_cases {o o' : Oid} (h : agent.nextOid o = .ok (some o')) :
    (agent.onSystemRoute o = true ∧ o < o' ∧ o' ∈ agent.systemGroup.systemGroupList) ∨
    (agent.Short o ∧ o < o' ∧ o' ∈ agent.exposed) ∨
    (agent.onSystemRoute o = false ∧ ¬ agent.Short o ∧ o' = agent.rootOid.append [1] ∧ o' ∈ agent.exposed) := by
  cases hs : agent.onSystemRoute o with
  | true =>
    obtain ⟨next, hn, hlt, hmem⟩ := agent.exists_nextSysOid hs
    rw [nextOid, agent.getNextOidValue_system hs hn] at h
    cases hv : agent.systemGroup.getSysOidVariable o with
    | error e =>
      rw [hv] at h
      cases h
    | ok w =>
      rw [hv] at h
      cases h
      exact Or.inl ⟨rfl, hlt, hmem⟩
  | false =>
    refine Or.inr ?_
    rcases agent.getNextOidValue_first_or hs with ⟨s, hl, rfl⟩ | ⟨hne, hfirst⟩
    · exact Or.inl ⟨agent.short_iff.mpr ⟨s, hl, rfl⟩, agent.mem_exposed_of_nextOid hl h⟩
    · rw [nextOid, hfirst] at h
      refine Or.inr ⟨rfl, fun hsh => ?_, agent.nextOid_root h, (agent.mem_exposed_of_nextOid (by simp) h).2⟩
      obtain ⟨s, hl, he⟩ := agent.short_iff.mp hsh
      exact hne s hl he

/-- Comes down with every answer: the system group before the metrics, and in
each of them by the OIDs that are left. -/
def routeRank (o : Oid) : ℕ :=
  if agent.Short o then (agent.exposed.filter (o < ·)).length
  else if agent.onSystemRoute o then
    agent.exposed.length + (agent.systemGroup.systemGroupList.filter (o < ·)).length
  else agent.exposed.length

theorem routeRank_exposed {o : Oid} (h : o ∈ agent.exposed) :
    agent.routeRank o = (agent.exposed.filter (o < ·)).length := by
  obtain ⟨m, k, -, rfl⟩ := agent.mem_exposed.mp h
  exact if_pos (agent.short_iff.mpr ⟨_, placeArcs_length m k, rfl⟩)

theorem routeRank_lt (o o' : Oid) (h : agent.nextOid o = .ok (some o')) :
    agent.routeRank o' < agent.routeRank o := by
  have hle : ∀ o, (agent.exposed.filter (o < ·)).length ≤ agent.exposed.length :=
    fun o => List.length_filter_le ..
  rcases agent.nextOid_cases h with ⟨hs, hlt, hmem⟩ | ⟨hs, hlt, hmem⟩ | ⟨hs, hn, -, hmem⟩
  · have hns : ¬ agent.Short o := fun hsh => by
      rw [onSystemRoute, hsh.1] at hs
      cases hs
    have hpos : 0 < (agent.systemGroup.systemGroupList.filter (o < ·)).length :=
      List.length_pos_of_mem (List.mem_filter.mpr ⟨hmem, decide_eq_true hlt⟩)
    have hdown := length_above_lt hmem hlt
    have := hle o'
    unfold routeRank
    rw [if_neg hns, if_pos hs]
    split
    · omega
    · split <;> omega
  · rw [agent.routeRank_exposed hmem, routeRank, if_pos hs]
    exact length_above_lt hmem hlt
  · rw [agent.routeRank_exposed hmem, routeRank, if_neg hn, hs, if_neg Bool.false_ne_true]
    exact List.length_filter_lt_length_iff_exists.mpr ⟨o', hmem, by simp⟩

/-- An answer is above its request on the routes of the two subtrees, and from
before the first module. -/
theorem lt_nextOid_iff {o o' : Oid} (h : agent.nextOid o = .ok (some o')) :
    o < o' ↔ agent.Short o ∨ agent.onSystemRoute o = true ∨ o < agent.rootOid.append [1] := by
  rcases agent.nextOid_cases h with ⟨hs, hlt, -⟩ | ⟨hs, hlt, -⟩ | ⟨hs, hn, rfl, -⟩
  · exact iff_of_true hlt (Or.inr (Or.inl hs))
  · exact iff_of_true hlt (Or.inl hs)
  · rw [or_iff_right hn, hs]
    exact (or_iff_right Bool.false_ne_true).symm

/-! ### Walks of one place of a request -/

/-- A manager that walks the `i`-th OID of its request: it asks for `oids` first,
is told `told` in that place, and now asks for `now`, the OIDs of the last
response. -/
inductive WalkAt (i : ℕ) : List Oid → List Oid → List Oid → Prop
  | start (oids : List Oid) : WalkAt i oids [] oids
  | next {oids told now : List Oid} {response : Pdu} {o' : Oid} {v : Variable}
      (h : agent.handleSnmpGetnext (requestOf oids) = .ok response) (hb : response.bindings[i]? = some ⟨o', v⟩)
      (hgo : v ≠ .endOfMibView) (walk : WalkAt i (response.bindings.map (·.oid)) told now) :
      WalkAt i oids (o' :: told) now

/-- The request is lost to an exception. -/
def Lost (oids : List Oid) : Prop := ∃ e, agent.handleSnmpGetnext (requestOf oids) = .error e

/-- The response says that there is nothing further. -/
def Ends (i : ℕ) (oids : List Oid) : Prop :=
  ∃ response o', agent.handleSnmpGetnext (requestOf oids) = .ok response ∧
    response.bindings[i]? = some ⟨o', .endOfMibView⟩

variable {agent}

theorem nextOid_of_getNextOidValue {o : Oid} {next : Option OidValue} (h : agent.getNextOidValue o = .ok next) :
    agent.nextOid o = .ok (next.map (·.oid)) := by
  rw [nextOid, h]
  rfl

@[simp] theorem respond_oids (rest : List Oid) (next : OidValue) :
    (respond rest (some next)).bindings.map (·.oid) = next.oid :: rest := by
  simp [respond, Function.comp_def]

/-- In the first place the walk is that of the OID, and the others stay. -/
theorem WalkAt.walks_zero {oids told now : List Oid} (h : agent.WalkAt 0 oids told now) :
    ∀ {o : Oid} {rest : List Oid}, oids = o :: rest → ∃ a, now = a :: rest ∧
      ∀ l last, Walks agent.nextOid a l last → Walks agent.nextOid o (told ++ l) last := by
  induction h with
  | start oids =>
    rintro o rest rfl
    exact ⟨o, rfl, fun l last hw => hw⟩
  | @next oids told now response o' v h hb hgo walk ih =>
    rintro o rest rfl
    rw [handleSnmpGetnext_cons] at h
    obtain ⟨next, hn, rfl⟩ := map_eq_ok.mp h
    cases next with
    | none =>
      cases hb
      exact absurd rfl hgo
    | some next =>
      cases hb
      obtain ⟨a, hnow, hwalk⟩ := ih (respond_oids rest _)
      exact ⟨a, hnow, fun l last hw => .step (nextOid_of_getNextOidValue hn) (hwalk l last hw)⟩

/-- Every walk of the OID is one in the first place, to its end. -/
theorem exists_walkAt_zero {o : Oid} {l : List Oid} {last : Option JavaError} (h : Walks agent.nextOid o l last)
    (rest : List Oid) : ∃ now, agent.WalkAt 0 (o :: rest) l now ∧ (agent.Ends 0 now ∨ agent.Lost now) := by
  induction h with
  | @stop o h =>
    obtain ⟨next, hn, hnone⟩ := map_eq_ok.mp h
    obtain rfl := Option.map_eq_none_iff.mp hnone
    refine ⟨_, .start _, Or.inl ⟨respond rest none, ⟨[]⟩, ?_, rfl⟩⟩
    rw [handleSnmpGetnext_cons, hn]
    rfl
  | @fail o e h =>
    refine ⟨_, .start _, Or.inr ⟨e, ?_⟩⟩
    rw [handleSnmpGetnext_cons, map_eq_error.mp h]
    rfl
  | @step o o' l last h walk ih =>
    obtain ⟨next, hn, hsome⟩ := map_eq_ok.mp h
    obtain ⟨next, rfl, rfl⟩ := Option.map_eq_some_iff.mp hsome
    obtain ⟨now, hwalk, hend⟩ := ih
    refine ⟨now, @WalkAt.next agent 0 _ _ _ (respond rest (some next)) _ next.value ?_ rfl ?_ ?_, hend⟩
    · rw [handleSnmpGetnext_cons, hn]
      rfl
    · exact (agent.getNextOidValue_assigned hn).2
    · rw [respond_oids]
      exact hwalk

/-- In any other place the OID comes back again and again. -/
theorem WalkAt.told_succ {i : ℕ} {oids told now : List Oid} (h : agent.WalkAt (i + 1) oids told now) :
    ∀ {o : Oid}, oids[i + 1]? = some o → now[i + 1]? = some o ∧ ∀ o' ∈ told, o' = o := by
  induction h with
  | start oids => exact fun h => ⟨h, nofun⟩
  | @next oids told now response o' v h hb hgo walk ih =>
    intro o ho
    cases oids with
    | nil => simp at ho
    | cons first rest =>
      rw [handleSnmpGetnext_cons] at h
      obtain ⟨next, hn, rfl⟩ := map_eq_ok.mp h
      have hsame : (respond rest next).bindings[i + 1]? = some ⟨o, .null⟩ := by
        rw [respond_succ, show rest[i]? = some o from ho]
        rfl
      rw [hsame] at hb
      cases hb
      obtain ⟨hnow, htold⟩ := ih (by rw [List.getElem?_map, hsame]; rfl)
      exact ⟨hnow, List.forall_mem_cons.mpr ⟨rfl, htold⟩⟩

theorem not_ends_succ {i : ℕ} {oids : List Oid} : ¬ agent.Ends (i + 1) oids := by
  rintro ⟨response, o', h, hb⟩
  cases oids with
  | nil =>
    cases h
    simp [requestOf] at hb
  | cons first rest =>
    rw [handleSnmpGetnext_cons] at h
    obtain ⟨next, -, rfl⟩ := map_eq_ok.mp h
    rw [respond_succ, Option.map_eq_some_iff] at hb
    obtain ⟨_, -, hb⟩ := hb
    cases hb

variable (agent)

/-- **GETNEXT goes up** exactly in the first place of a request and there on the
routes of the two subtrees and from before the first module. A walk comes back
to an OID exactly if it is one of any other place, and such a walk is ended by
nothing but an exception; those of the first place all end. -/
theorem getnext_increases_iff {oids : List Oid} {i : ℕ} {o : Oid} (hi : oids[i]? = some o) :
    (∀ o' v, agent.Answers oids i o' v →
      (o < o' ↔ i = 0 ∧ (agent.Short o ∨ agent.onSystemRoute o = true ∨ o < agent.rootOid.append [1]))) ∧
    (∀ told now, agent.WalkAt i oids told now → ((o :: told).Nodup ↔ i = 0 ∨ told = [])) ∧
    ((∃ told now, agent.WalkAt i oids told now ∧ (agent.Ends i now ∨ agent.Lost now)) ↔
      i = 0 ∨ ∃ told now, agent.WalkAt i oids told now ∧ agent.Lost now) := by
  cases oids with
  | nil => simp at hi
  | cons first rest =>
    cases i with
    | zero =>
      obtain rfl : first = o := Option.some.inj hi
      refine ⟨fun o' v ha => ?_, fun told now hw => ?_, iff_of_true ?_ (Or.inl rfl)⟩
      · rw [and_iff_right rfl]
        exact agent.lt_nextOid_iff (nextOid_of_getNextOidValue (agent.answers_zero_iff.mp ha))
      · obtain ⟨a, -, hwalk⟩ := hw.walks_zero rfl
        obtain ⟨l, last, hl⟩ := exists_walks agent.routeRank_lt a
        have hnodup := (hwalk l last hl).nodup agent.routeRank_lt
        rw [← List.cons_append] at hnodup
        exact iff_of_true hnodup.of_append_left (Or.inl rfl)
      · obtain ⟨l, last, hw⟩ := exists_walks agent.routeRank_lt first
        obtain ⟨now, hwalk, hend⟩ := exists_walkAt_zero hw rest
        exact ⟨l, now, hwalk, hend⟩
    | succ i =>
      refine ⟨fun o' v ha => ?_, fun told now hw => ?_, ?_⟩
      · obtain ⟨-, ho', -⟩ := agent.answers_succ_iff.mp ha
        obtain rfl : o = o' := Option.some.inj (hi.symm.trans ho')
        simp
      · obtain ⟨-, htold⟩ := hw.told_succ hi
        cases told with
        | nil => simp
        | cons o' told =>
          obtain rfl := htold o' List.mem_cons_self
          simp
      · rw [or_iff_right (Nat.succ_ne_zero i)]
        constructor
        · rintro ⟨told, now, hw, hend⟩
          exact ⟨told, now, hw, hend.resolve_left not_ends_succ⟩
        · rintro ⟨told, now, hw, hlost⟩
          exact ⟨told, now, hw, Or.inr hlost⟩

theorem getnext_increases_iff_oneMetric :
    (oneMetric "cpu".toList).rootOid < (oneMetric "cpu".toList).moduleOid 1 ∧
      ((oneMetric "cpu".toList).rootOid :: [(oneMetric "cpu".toList).moduleOid 1,
        (oneMetric "cpu".toList).metricOid 1 1]).Nodup := by
  obtain ⟨hup, hwalk, -⟩ := @getnext_increases_iff (oneMetric "cpu".toList)
    [(oneMetric "cpu".toList).rootOid, SystemGroup.sysOid 1] 0 _ rfl
  refine ⟨(hup _ (.octetString "app".toList) ⟨_, rfl, rfl, nofun⟩).mpr ⟨rfl, Or.inl (by decide)⟩, ?_⟩
  refine (hwalk _ [(oneMetric "cpu".toList).metricOid 1 1, SystemGroup.sysOid 1] ?_).mpr (Or.inl rfl)
  exact .next rfl rfl nofun (.next rfl rfl nofun (.start _))

/-- The instance of a metric, `root.1.1.0`, is answered with the module before
it. -/
theorem getnext_below_metric :
    (oneMetric "cpu".toList).Answers [(oneMetric "cpu".toList).rootOid.append [1, 1, 0]] 0
        ((oneMetric "cpu".toList).rootOid.append [1]) (.octetString "app".toList) ∧
      ¬ (oneMetric "cpu".toList).rootOid.append [1, 1, 0] < (oneMetric "cpu".toList).rootOid.append [1] :=
  ⟨⟨_, rfl, rfl, nofun⟩, by decide⟩

end SnmpAgent

end Plethora
