/-
# GETNEXT in the metrics subtree

The agent exposes `root.m` for every module and `root.m.k` for every metric of
it. For the root followed by at most two arcs, whatever they are, GETNEXT
answers with the least exposed OID above the request, if it answers: reading
the metric there may throw, and then the request gets no response
(`getNextOidValue_isNext_iff`). So a walk from the root lists the exposed OIDs
in order and stops exactly when every listed metric can be read.

Key definitions: `exposed`, `moduleOid`, `metricOid`, `nextOid`.
Key theorems: `exposed_sorted`, `isNext_exposed`, `getNextOidValue_isNext_iff`.
-/
import Plethora.Lib.Successor
import Plethora.Snmp.Agent

namespace Plethora

open Successor

/-! ### Places -/

namespace MetricService

variable (service : MetricService)

def moduleCount : ℕ := service.moduleList.length

/-- How many metrics the module at the arc `m` has. -/
def metricCount (m : ℕ) : ℕ := ((service.moduleAt m).map fun module => (service.metricList module).length).getD 0

theorem nth_isSome {α : Type} {l : List α} {k : ℕ} : (nth l k).isSome = true ↔ 1 ≤ k ∧ k ≤ l.length := by
  cases k with
  | zero => simp
  | succ k =>
    rw [nth_succ, isSome_getElem?]
    omega

theorem moduleAt_isSome {m : ℕ} : (service.moduleAt m).isSome = true ↔ 1 ≤ m ∧ m ≤ service.moduleCount :=
  nth_isSome

theorem metricAt_isSome {m k : ℕ} :
    (service.metricAt m k).isSome = true ↔ 1 ≤ m ∧ m ≤ service.moduleCount ∧ 1 ≤ k ∧ k ≤ service.metricCount m := by
  have hm := service.moduleAt_isSome (m := m)
  unfold metricAt metricCount
  cases h : service.moduleAt m with
  | none =>
    rw [h] at hm
    refine iff_of_false nofun fun hk => Bool.noConfusion (hm.mpr ⟨hk.1, hk.2.1⟩)
  | some module =>
    rw [h] at hm
    have hm := hm.mp rfl
    rw [Option.bind_some, Option.isSome_map, nth_isSome, Option.map_some, Option.getD_some]
    tauto

theorem moduleCount_small : service.moduleCount < 2 ^ 31 := service.moduleList_small

theorem metricCount_small (m : ℕ) : service.metricCount m < 2 ^ 31 := by
  unfold metricCount
  cases service.moduleAt m with
  | none => exact Nat.two_pow_pos 31
  | some module => exact service.metricList_small module

end MetricService

namespace SnmpAgent

variable (agent : SnmpAgent)

def moduleOid (m : ℕ) : Oid := agent.rootOid.append [UInt32.ofNat m]

def metricOid (m k : ℕ) : Oid := agent.rootOid.append [UInt32.ofNat m, UInt32.ofNat k]

/-- The OIDs of a module and its metrics. -/
def exposedModule (m : ℕ) : List Oid :=
  agent.moduleOid m :: (List.range (agent.metricService.metricCount m)).map fun k => agent.metricOid m (k + 1)

/-- Every OID the agent exposes in the metrics subtree, in order. -/
def exposed : List Oid :=
  (List.range agent.metricService.moduleCount).flatMap fun m => agent.exposedModule (m + 1)

/-! ### Places in order -/

theorem toNat_ofNat {n : ℕ} (h : n < 2 ^ 31) : (UInt32.ofNat n).toNat = n :=
  UInt32.toNat_ofNat_of_lt' (h.trans (by decide))

/-- The arcs of a module, for `k = 0`, or of its `k`-th metric. -/
def placeArcs (m k : ℕ) : List UInt32 := if k = 0 then [UInt32.ofNat m] else [UInt32.ofNat m, UInt32.ofNat k]

def place (m k : ℕ) : Oid := agent.rootOid.append (placeArcs m k)

theorem placeArcs_length (m k : ℕ) : (placeArcs m k).length ≤ 2 := by
  unfold placeArcs
  split <;> simp

theorem indexes_placeArcs (m k : ℕ) : indexes (placeArcs m k) = (UInt32.ofNat m, UInt32.ofNat k) := by
  unfold placeArcs
  split
  · subst k
    rfl
  · rfl

/-- A request is compared with a place by its module arc, then by its metric
arc, either of them 0 if it has none. -/
theorem append_lt_place {s : List UInt32} (hs : s.length ≤ 2) {m k : ℕ} (h1 : 1 ≤ m) (hm : m < 2 ^ 31)
    (hk : k < 2 ^ 31) : agent.rootOid.append s < agent.place m k ↔
      (indexes s).1.toNat < m ∨ (indexes s).1.toNat = m ∧ (indexes s).2.toNat < k := by
  unfold place placeArcs
  by_cases h0 : k = 0
  · rw [if_pos h0, Oid.append_lt_append, List.map_singleton, toNat_ofNat hm]
    match s with
    | [] =>
      simp [indexes]
      omega
    | [a] => simp [indexes, List.cons_lt_cons_iff, h0]
    | [a, b] => simp [indexes, List.cons_lt_cons_iff, h0]
    | _ :: _ :: _ :: _ => simp at hs
  · rw [if_neg h0, Oid.append_lt_append, List.map_cons, List.map_singleton, toNat_ofNat hm, toNat_ofNat hk]
    match s with
    | [] =>
      simp [indexes]
      omega
    | [a] =>
      simp [indexes, List.cons_lt_cons_iff]
      omega
    | [a, b] => simp [indexes, List.cons_lt_cons_iff]
    | _ :: _ :: _ :: _ => simp at hs

theorem place_lt_place {m k m' k' : ℕ} (hm : m < 2 ^ 31) (hk : k < 2 ^ 31) (h1 : 1 ≤ m') (hm' : m' < 2 ^ 31)
    (hk' : k' < 2 ^ 31) : agent.place m k < agent.place m' k' ↔ m < m' ∨ m = m' ∧ k < k' := by
  rw [place, agent.append_lt_place (placeArcs_length m k) h1 hm' hk', indexes_placeArcs, toNat_ofNat hm,
    toNat_ofNat hk]

/-- The places that are exposed. -/
structure IsPlace (m k : ℕ) : Prop where
  pos : 1 ≤ m
  le : m ≤ agent.metricService.moduleCount
  metric : k ≤ agent.metricService.metricCount m

namespace IsPlace

variable {agent : SnmpAgent} {m k : ℕ}

theorem module_small (h : agent.IsPlace m k) : m < 2 ^ 31 :=
  h.le.trans_lt agent.metricService.moduleCount_small

theorem metric_small (h : agent.IsPlace m k) : k < 2 ^ 31 :=
  h.metric.trans_lt (agent.metricService.metricCount_small m)

end IsPlace

theorem mem_exposedModule {m : ℕ} {o : Oid} :
    o ∈ agent.exposedModule m ↔ ∃ k ≤ agent.metricService.metricCount m, o = agent.place m k := by
  simp only [exposedModule, List.mem_cons, List.mem_map, List.mem_range]
  constructor
  · rintro (rfl | ⟨k, hk, rfl⟩)
    · exact ⟨0, Nat.zero_le _, rfl⟩
    · exact ⟨k + 1, hk, rfl⟩
  · rintro ⟨k, hk, rfl⟩
    cases k with
    | zero => exact Or.inl rfl
    | succ k => exact Or.inr ⟨k, hk, rfl⟩

theorem mem_exposed {o : Oid} : o ∈ agent.exposed ↔ ∃ m k, agent.IsPlace m k ∧ o = agent.place m k := by
  simp only [exposed, List.mem_flatMap, List.mem_range, mem_exposedModule]
  constructor
  · rintro ⟨m, hm, k, hk, rfl⟩
    exact ⟨m + 1, k, ⟨by omega, hm, hk⟩, rfl⟩
  · rintro ⟨m, k, h, rfl⟩
    have hm := Nat.sub_add_cancel h.pos
    have hle := h.le
    exact ⟨m - 1, by omega, k, by rw [hm]; exact h.metric, by rw [hm]⟩

/-- A module's OID comes before its metrics', and these in order. -/
theorem exposedModule_sorted {m : ℕ} (h1 : 1 ≤ m) (hm : m < 2 ^ 31) :
    (agent.exposedModule m).Pairwise (· < ·) := by
  have hc := agent.metricService.metricCount_small m
  refine List.pairwise_cons.mpr ⟨fun o ho => ?_, List.pairwise_map.mpr ?_⟩
  · obtain ⟨k, hk, rfl⟩ := List.mem_map.mp ho
    rw [List.mem_range] at hk
    have hlt : agent.place m 0 < agent.place m (k + 1) ↔ m < m ∨ m = m ∧ 0 < k + 1 :=
      agent.place_lt_place hm (by decide) h1 hm (by omega)
    exact hlt.mpr (Or.inr ⟨rfl, Nat.succ_pos k⟩)
  · refine List.pairwise_lt_range.imp_of_mem fun {k k'} hk hk' hlt => ?_
    rw [List.mem_range] at hk hk'
    have hiff : agent.place m (k + 1) < agent.place m (k' + 1) ↔ m < m ∨ m = m ∧ k + 1 < k' + 1 :=
      agent.place_lt_place hm (by omega) h1 hm (by omega)
    exact hiff.mpr (Or.inr ⟨rfl, Nat.succ_lt_succ hlt⟩)

theorem exposed_sorted : agent.exposed.Pairwise (· < ·) := by
  have hM := agent.metricService.moduleCount_small
  refine List.pairwise_flatMap.mpr ⟨fun m hm => ?_, ?_⟩
  · rw [List.mem_range] at hm
    exact agent.exposedModule_sorted (by omega) (by omega)
  · refine List.pairwise_lt_range.imp_of_mem fun {m m'} hm hm' hlt o ho o' ho' => ?_
    rw [List.mem_range] at hm hm'
    obtain ⟨k, hk, rfl⟩ := agent.mem_exposedModule.mp ho
    obtain ⟨k', hk', rfl⟩ := agent.mem_exposedModule.mp ho'
    have hc := agent.metricService.metricCount_small (m + 1)
    have hc' := agent.metricService.metricCount_small (m' + 1)
    rw [agent.place_lt_place (by omega) (by omega) (by omega) (by omega) (by omega)]
    omega

/-- The root comes before all of them. -/
theorem rootOid_lt_exposed {o : Oid} (h : o ∈ agent.exposed) : agent.rootOid.append [] < o := by
  obtain ⟨m, k, hp, rfl⟩ := agent.mem_exposed.mp h
  rw [agent.append_lt_place (by simp) hp.pos hp.module_small hp.metric_small]
  exact Or.inl hp.pos

/-! ### The next exposed OID -/

/-- The OID the bridge builds for module and metric arcs. -/
def nextPlace (i : UInt32 × UInt32) : Option Oid :=
  if (agent.metricService.metricAt i.1.toNat (i.2.toNat + 1)).isSome then
    some (agent.rootOid.append [i.1, i.2 + 1])
  else if (agent.metricService.moduleAt (i.1.toNat + 1)).isSome then some (agent.rootOid.append [i.1 + 1])
  else none

theorem append_eq_place (a b : UInt32) :
    agent.rootOid.append [a, b + 1] = agent.place a.toNat (b.toNat + 1) := by
  rw [place, placeArcs, if_neg (Nat.succ_ne_zero _), UInt32.ofNat_add, UInt32.ofNat_toNat, UInt32.ofNat_toNat]
  rfl

theorem append_eq_place_zero (a : UInt32) : agent.rootOid.append [a + 1] = agent.place (a.toNat + 1) 0 := by
  rw [place, placeArcs, if_pos rfl, UInt32.ofNat_add, UInt32.ofNat_toNat]
  rfl

/-- It is the least one above the request. -/
theorem isNext_exposed {s : List UInt32} (hs : s.length ≤ 2) :
    IsNext agent.exposed (agent.rootOid.append s) (agent.nextPlace (indexes s)) := by
  have hlt : ∀ m k, agent.IsPlace m k → (agent.rootOid.append s < agent.place m k ↔
      (indexes s).1.toNat < m ∨ (indexes s).1.toNat = m ∧ (indexes s).2.toNat < k) :=
    fun m k h => agent.append_lt_place hs h.pos h.module_small h.metric_small
  -- a place is the next one if it is above the request and no other above it comes first
  have hnext : ∀ m k, agent.IsPlace m k → agent.rootOid.append s < agent.place m k →
      (∀ m' k', agent.IsPlace m' k' → agent.rootOid.append s < agent.place m' k' →
        ¬ (m' < m ∨ m' = m ∧ k' < k)) →
      IsNext agent.exposed (agent.rootOid.append s) (some (agent.place m k)) := by
    intro m k h hs' hmin
    refine ⟨agent.mem_exposed.mpr ⟨m, k, h, rfl⟩, hs', fun o ho hso => not_lt.mp fun hlt' => ?_⟩
    obtain ⟨m', k', h', rfl⟩ := agent.mem_exposed.mp ho
    rw [agent.place_lt_place h'.module_small h'.metric_small h.pos h.module_small h.metric_small] at hlt'
    exact hmin m' k' h' hso hlt'
  generalize indexes s = i at hlt
  obtain ⟨a, b⟩ := i
  dsimp only at hlt
  unfold nextPlace
  simp only [MetricService.metricAt_isSome, MetricService.moduleAt_isSome]
  by_cases hk : 1 ≤ a.toNat ∧ a.toNat ≤ agent.metricService.moduleCount ∧ 1 ≤ b.toNat + 1 ∧
      b.toNat + 1 ≤ agent.metricService.metricCount a.toNat
  · -- the next metric of the module
    rw [if_pos hk, append_eq_place]
    have hp : agent.IsPlace a.toNat (b.toNat + 1) := ⟨hk.1, hk.2.1, hk.2.2.2⟩
    refine hnext _ _ hp ((hlt _ _ hp).mpr (Or.inr ⟨rfl, Nat.lt_succ_self _⟩)) fun m' k' h' hs' => ?_
    have := (hlt _ _ h').mp hs'
    omega
  · rw [if_neg hk]
    -- no metric above the request belongs to its module
    have hother : ∀ m' k', agent.IsPlace m' k' → agent.rootOid.append s < agent.place m' k' → a.toNat < m' := by
      intro m' k' h' hs'
      rcases (hlt _ _ h').mp hs' with h | ⟨rfl, h⟩
      · exact h
      · have := h'.metric
        exact absurd ⟨h'.pos, h'.le, by omega, by omega⟩ hk
    by_cases hm : 1 ≤ a.toNat + 1 ∧ a.toNat + 1 ≤ agent.metricService.moduleCount
    · -- the next module
      rw [if_pos hm, append_eq_place_zero]
      have hp : agent.IsPlace (a.toNat + 1) 0 := ⟨hm.1, hm.2, Nat.zero_le _⟩
      refine hnext _ _ hp ((hlt _ _ hp).mpr (Or.inl (Nat.lt_succ_self _))) fun m' k' h' hs' => ?_
      have := hother m' k' h' hs'
      omega
    · rw [if_neg hm]
      intro o ho
      obtain ⟨m', k', h', rfl⟩ := agent.mem_exposed.mp ho
      refine not_lt.mp fun hs' => ?_
      have := hother m' k' h' hs'
      have := h'.le
      omega

/-! ### What GETNEXT answers -/

/-- The OID of the answer. -/
def nextOid (oid : Oid) : Except JavaError (Option Oid) := (agent.getNextOidValue oid).map (Option.map (·.oid))

theorem place_inj {m k m' k' : ℕ} (h : agent.IsPlace m k) (h' : agent.IsPlace m' k')
    (he : agent.place m k = agent.place m' k') : m = m' ∧ k = k' := by
  have hlt := agent.place_lt_place h.module_small h.metric_small h'.pos h'.module_small h'.metric_small
  have hgt := agent.place_lt_place h'.module_small h'.metric_small h.pos h.module_small h.metric_small
  rw [he, lt_self_iff_false, false_iff] at hlt hgt
  omega

/-- The metric that has to be read to answer. -/
theorem nextOid_append (s : List UInt32) : agent.nextOid (agent.rootOid.append s) =
    match agent.metricService.metricAt (indexes s).1.toNat ((indexes s).2.toNat + 1) with
    | none => .ok (agent.nextPlace (indexes s))
    | some (module, metric) => (agent.metricService.metricVariable module metric).map fun _ =>
        agent.nextPlace (indexes s) := by
  rw [nextOid, getNextOidValue_append]
  unfold getNext nextPlace
  cases agent.metricService.metricAt (indexes s).1.toNat ((indexes s).2.toNat + 1) with
  | none =>
    cases agent.metricService.moduleAt ((indexes s).1.toNat + 1) with
    | none => rfl
    | some module => rfl
  | some p =>
    obtain ⟨module, metric⟩ := p
    dsimp only
    cases agent.metricService.metricVariable module metric with
    | error e => rfl
    | ok v => rfl

theorem isPlace_of_metricAt {m k : ℕ} {p : Text × Text} (h : agent.metricService.metricAt m k = some p) :
    agent.IsPlace m k ∧ agent.metricOid m k = agent.place m k := by
  have hs := agent.metricService.metricAt_isSome.mp (Option.isSome_iff_exists.mpr ⟨p, h⟩)
  refine ⟨⟨hs.1, hs.2.1, hs.2.2.2⟩, ?_⟩
  rw [place, placeArcs, if_neg (by omega), metricOid]

theorem nextPlace_of_metricAt {i : UInt32 × UInt32} {p : Text × Text}
    (h : agent.metricService.metricAt i.1.toNat (i.2.toNat + 1) = some p) :
    agent.nextPlace i = some (agent.metricOid i.1.toNat (i.2.toNat + 1)) := by
  rw [nextPlace, h, Option.isSome_some, if_pos rfl, append_eq_place, (agent.isPlace_of_metricAt h).2]

/-- The metric at the next place is the one that has to be read. -/
theorem isNext_metricOid_iff {s : List UInt32} (hs : s.length ≤ 2) {m k : ℕ} {p : Text × Text}
    (h : agent.metricService.metricAt m k = some p) :
    IsNext agent.exposed (agent.rootOid.append s) (some (agent.metricOid m k)) ↔
      m = (indexes s).1.toNat ∧ k = (indexes s).2.toNat + 1 := by
  have hnext := agent.isNext_exposed hs
  constructor
  · intro hn
    have he := hn.unique hnext
    obtain ⟨hp, hplace⟩ := agent.isPlace_of_metricAt h
    rw [hplace] at he
    cases hi : agent.metricService.metricAt (indexes s).1.toNat ((indexes s).2.toNat + 1) with
    | some p' =>
      obtain ⟨hp', hplace'⟩ := agent.isPlace_of_metricAt hi
      rw [agent.nextPlace_of_metricAt hi, hplace', Option.some_inj] at he
      exact agent.place_inj hp hp' he
    | none =>
      -- the next place would be a module
      have hk := (agent.metricService.metricAt_isSome.mp (Option.isSome_iff_exists.mpr ⟨p, h⟩)).2.2.1
      rw [nextPlace, hi, Option.isSome_none, if_neg Bool.false_ne_true] at he
      split at he
      · rename_i hm
        rw [MetricService.moduleAt_isSome] at hm
        rw [append_eq_place_zero, Option.some_inj] at he
        have := agent.place_inj hp ⟨hm.1, hm.2, Nat.zero_le _⟩ he
        omega
      · cases he
  · rintro ⟨rfl, rfl⟩
    rw [← agent.nextPlace_of_metricAt h]
    exact hnext

/-- An answer is right, and there is one unless the metric to answer with
cannot be read. -/
theorem nextOid_isNext_iff {s : List UInt32} (hs : s.length ≤ 2) :
    (∃ r, agent.nextOid (agent.rootOid.append s) = .ok r ∧ IsNext agent.exposed (agent.rootOid.append s) r) ↔
      ∀ m k module metric, agent.metricService.metricAt m k = some (module, metric) →
        IsNext agent.exposed (agent.rootOid.append s) (some (agent.metricOid m k)) →
        agent.metricService.Readable module metric := by
  have hnext := agent.isNext_exposed hs
  rw [nextOid_append]
  cases hi : agent.metricService.metricAt (indexes s).1.toNat ((indexes s).2.toNat + 1) with
  | none =>
    refine iff_of_true ⟨_, rfl, hnext⟩ fun m k module metric h hn => ?_
    obtain ⟨rfl, rfl⟩ := (agent.isNext_metricOid_iff hs h).mp hn
    rw [hi] at h
    cases h
  | some p =>
    obtain ⟨module, metric⟩ := p
    dsimp only
    constructor
    · rintro ⟨r, hr, -⟩ m k module' metric' h hn
      obtain ⟨rfl, rfl⟩ := (agent.isNext_metricOid_iff hs h).mp hn
      rw [hi] at h
      cases h
      refine agent.metricService.metricVariable_ok_iff.mp ?_
      cases hv : agent.metricService.metricVariable module metric with
      | error e =>
        rw [hv] at hr
        cases hr
      | ok v => exact ⟨v, rfl⟩
    · intro h
      obtain ⟨v, hv⟩ := agent.metricService.metricVariable_ok_iff.mpr
        (h _ _ _ _ hi ((agent.isNext_metricOid_iff hs hi).mpr ⟨rfl, rfl⟩))
      rw [hv]
      exact ⟨_, rfl, hnext⟩

theorem eq_nextPlace {s : List UInt32} {r : Option Oid} (h : agent.nextOid (agent.rootOid.append s) = .ok r) :
    r = agent.nextPlace (indexes s) := by
  rw [nextOid_append] at h
  split at h
  · exact (Except.ok.inj h).symm
  · rename_i module metric _
    cases hv : agent.metricService.metricVariable module metric with
    | error e =>
      rw [hv] at h
      cases h
    | ok v =>
      rw [hv] at h
      exact (Except.ok.inj h).symm

/-- The requests of a walk from the root. -/
theorem request_shape {o : Oid} (h : o ∈ agent.rootOid.append [] :: agent.exposed) :
    ∃ s : List UInt32, s.length ≤ 2 ∧ o = agent.rootOid.append s := by
  rcases List.mem_cons.mp h with rfl | h
  · exact ⟨[], by simp, rfl⟩
  · obtain ⟨m, k, -, rfl⟩ := agent.mem_exposed.mp h
    exact ⟨placeArcs m k, placeArcs_length m k, rfl⟩

/-- A walk from the root comes to every metric. -/
theorem walks_exposed_iff : Walks agent.nextOid (agent.rootOid.append []) agent.exposed none ↔
    ∀ m k module metric, agent.metricService.metricAt m k = some (module, metric) →
      agent.metricService.Readable module metric := by
  constructor
  · intro h m k module metric hm
    obtain ⟨hp, hplace⟩ := agent.isPlace_of_metricAt hm
    obtain ⟨c, hc, hn⟩ := h.answered _ (agent.mem_exposed.mpr ⟨m, k, hp, hplace⟩)
    obtain ⟨s, hs, rfl⟩ := agent.request_shape hc
    have hnext := agent.isNext_exposed hs
    rw [← agent.eq_nextPlace hn] at hnext
    exact (agent.nextOid_isNext_iff hs).mp ⟨_, hn, hnext⟩ m k module metric hm hnext
  · intro h
    refine walks_of_isNext (List.pairwise_cons.mpr ⟨fun o ho => agent.rootOid_lt_exposed ho, agent.exposed_sorted⟩)
      fun c hc => ?_
    obtain ⟨s, hs, rfl⟩ := agent.request_shape hc
    exact (agent.nextOid_isNext_iff hs).mpr fun m k module metric hm _ => h m k module metric hm

/-- **GETNEXT in the metrics subtree.** For the root and up to two further
arcs the answer is the least exposed OID above the request, unless it is that
of a metric that cannot be read; and walking from the root visits every exposed
OID, in order, exactly if all of them can. -/
theorem getNextOidValue_isNext_iff :
    (∀ s : List UInt32, s.length ≤ 2 →
      ((∃ r, agent.getNextOidValue (agent.rootOid.append s) = .ok r ∧
          IsNext agent.exposed (agent.rootOid.append s) (r.map (·.oid))) ↔
        ∀ m k module metric, agent.metricService.metricAt m k = some (module, metric) →
          IsNext agent.exposed (agent.rootOid.append s) (some (agent.metricOid m k)) →
          agent.metricService.Readable module metric)) ∧
    (Walks agent.nextOid agent.rootOid agent.exposed none ↔
      ∀ m k module metric, agent.metricService.metricAt m k = some (module, metric) →
        agent.metricService.Readable module metric) := by
  have hroot : agent.rootOid.append [] = agent.rootOid := by simp [Oid.append]
  refine ⟨fun s hs => ?_, by rw [← agent.walks_exposed_iff, hroot]⟩
  rw [← agent.nextOid_isNext_iff hs, nextOid]
  cases agent.getNextOidValue (agent.rootOid.append s) with
  | error e => simp [Except.map]
  | ok r => simp [Except.map]

/-- An agent with one module, called `app`, which lists one metric. -/
def oneMetric (metric : Text) : SnmpAgent where
  enterprise := ⟨[1, 3, 6, 1, 4, 1, 42]⟩
  oidNames := []
  productName := "plethora".toList
  sysDescr := "agent".toList
  mibUrl := none
  sysContact := []
  sysName := []
  sysLocation := []
  metricService :=
    { modules := Modules.init
        [("app".toList, { moduleName := "app".toList, metricNames := TreeSet.empty.add metric })]
        one_small (by
          intro p hp
          rw [List.mem_singleton.mp hp]
          exact one_small)
      metrics := ⟨[("hackorama.app.cpu".toList, Metric.init "hackorama.app.cpu".toList (.long 7) {} Metric.made_default)]⟩
      immediateAccess := false
      getValue _ _ := .ok none }
  elapsed := 0

theorem getNextOidValue_isNext_iff_oneMetric :
    ∃ r, (oneMetric "cpu".toList).getNextOidValue ((oneMetric "cpu".toList).rootOid.append [1]) = .ok r ∧
      IsNext (oneMetric "cpu".toList).exposed ((oneMetric "cpu".toList).rootOid.append [1]) (r.map (·.oid)) := by
  refine (((oneMetric "cpu".toList).getNextOidValue_isNext_iff).1 [1] (by decide)).mpr ?_
  intro m k module metric h _
  obtain ⟨h1, hm, hk1, hk⟩ := MetricService.metricAt_isSome _ |>.mp (Option.isSome_iff_exists.mpr ⟨_, h⟩)
  obtain rfl : m = 1 := le_antisymm hm h1
  obtain rfl : k = 1 := le_antisymm hk hk1
  cases h
  refine ⟨by decide, by decide, ?_⟩
  rintro _ m ⟨⟩ ⟨⟩
  exact ⟨some (.long 7), nofun, rfl⟩

/-- The name of a metric may be empty, and reading it throws: the request gets
no answer, though the metric's OID comes next. -/
theorem getNextOidValue_oneMetric_empty :
    (oneMetric []).getNextOidValue ((oneMetric []).rootOid.append [1]) = .error .nullPointer ∧
      ¬ ∀ s : List UInt32, s.length ≤ 2 →
        ∃ r, (oneMetric []).getNextOidValue ((oneMetric []).rootOid.append s) = .ok r ∧
          IsNext (oneMetric []).exposed ((oneMetric []).rootOid.append s) (r.map (·.oid)) := by
  have h : (oneMetric []).getNextOidValue ((oneMetric []).rootOid.append [1]) = .error .nullPointer := by
    decide
  refine ⟨h, fun hall => ?_⟩
  obtain ⟨r, hr, -⟩ := hall [1] (by decide)
  rw [h] at hr
  cases hr

end SnmpAgent

end Plethora
