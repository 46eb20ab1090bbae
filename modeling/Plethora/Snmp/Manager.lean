/-
# A manager's walk, message by message

`SnmpAgent.processPdu`, and a manager that sends a GETNEXT with the OIDs of the
last reply until its first binding says that there is nothing further. The
agent goes on from the first binding alone and sends the others back as they
came, so that the walk is that of the first OID, whatever is asked beside it.

Where a walk leads is told for every OID to start from (`visits`): from one of
the system group through the rest of the group and on into the metrics, from
one of the metrics subtree through what is above it, and from anywhere else,
also from above all of them, through all the metrics. What a manager has been
told at any time is a beginning of that, and it is all of it unless a reply
was lost to an exception (`session_visits`).

Key definitions: `SnmpAgent.processPdu`, `SnmpAgent.Session`, `SnmpAgent.visits`.
Key theorems: `nextOid_onward`, `visits_next`, `session_visits`.
-/
import Plethora.Snmp.GetNext

namespace Plethora

open Successor

/-- The types of a PDU. -/
inductive PduType
  | GET
  | GETNEXT
  | GETBULK
  | SET
  | INFORM
  | TRAP
  | V1TRAP
  | REPORT
  | RESPONSE
  deriving DecidableEq

/-- A PDU with its type. -/
structure Message where
  type : PduType
  pdu : Pdu
  deriving DecidableEq

namespace SnmpAgent

variable (agent : SnmpAgent)

/-- `processPdu`: the response that is dispatched, if there is one. An exception
leaves the request without. -/
def processPdu (event : Option Message) : Except JavaError (Option Message) :=
  match event with
  | none => .ok none
  | some eventPdu =>
    match eventPdu.type with
    | .GET => (agent.handleSnmpGet eventPdu.pdu).map fun pdu => some ⟨.RESPONSE, pdu⟩
    | .GETNEXT => (agent.handleSnmpGetnext eventPdu.pdu).map fun pdu => some ⟨.RESPONSE, pdu⟩
    | .GETBULK => .ok (some ⟨.RESPONSE, eventPdu.pdu⟩) -- not implemented
    | _ => .ok none

/-! ### The manager -/

/-- The OID of a binding, to be asked for. -/
def asked (binding : VariableBinding) : VariableBinding := { oid := binding.oid }

def request (bindings : List VariableBinding) : Message := ⟨.GETNEXT, { bindings := bindings.map asked }⟩

/-- The OID and the value of the first binding. -/
def toldOid (reply : Pdu) : Oid := (reply.bindings.head?.map (·.oid)).getD ⟨[]⟩

def AtEnd (reply : Pdu) : Prop := reply.bindings.head?.map (·.value) = some .endOfMibView

/-- A walk: what the manager asks for first, the replies, and the exception that
the last request was lost to, if it was. -/
inductive Session : List VariableBinding → List Pdu → Option JavaError → Prop
  | lost {bindings : List VariableBinding} {e : JavaError} (h : agent.processPdu (some (request bindings)) = .error e) :
      Session bindings [] (some e)
  | ends {bindings : List VariableBinding} {reply : Pdu}
      (h : agent.processPdu (some (request bindings)) = .ok (some ⟨.RESPONSE, reply⟩)) (hend : AtEnd reply) :
      Session bindings [reply] none
  | next {bindings : List VariableBinding} {reply : Pdu} {replies : List Pdu} {last : Option JavaError}
      (h : agent.processPdu (some (request bindings)) = .ok (some ⟨.RESPONSE, reply⟩)) (hgo : ¬ AtEnd reply)
      (walk : Session reply.bindings replies last) : Session bindings (reply :: replies) last

/-! ### Where a walk leads -/

/-- The OIDs that a request is answered from, off the system route. -/
def ahead (o : Oid) : List Oid := if agent.Short o then agent.exposed.filter (o < ·) else agent.exposed

/-- Through the system group, up to an OID off its route, and on from there. -/
def fromSystem : List Oid → List Oid
  | [] => []
  | o :: rest => o :: if agent.onSystemRoute o then fromSystem rest else agent.ahead o

def visits (o : Oid) : List Oid :=
  if agent.onSystemRoute o then agent.fromSystem (agent.systemGroup.systemGroupList.filter (o < ·)) else agent.ahead o

/-- Every metric can be read, and the uptime fits its type. -/
structure Answerable : Prop where
  metrics : ∀ m k module metric, agent.metricService.metricAt m k = some (module, metric) →
    agent.metricService.Readable module metric
  uptime : ∃ v, agent.systemGroup.getSysUptime = .ok v

variable {agent}

theorem off_of_short {o : Oid} (h : agent.Short o) : agent.onSystemRoute o = false := by
  simp [onSystemRoute, h.1]

theorem short_of_exposed {o : Oid} (h : o ∈ agent.exposed) : agent.Short o := by
  obtain ⟨m, k, -, rfl⟩ := agent.mem_exposed.mp h
  exact agent.short_iff.mpr ⟨_, placeArcs_length m k, rfl⟩

/-- From an exposed OID on there are the exposed ones above it. -/
theorem visits_exposed {o : Oid} (h : o ∈ agent.exposed) : agent.visits o = agent.exposed.filter (o < ·) := by
  have hs := short_of_exposed h
  simp [visits, off_of_short hs, ahead, hs]

/-- The least OID of the group above one of the route. -/
theorem isNext_system {o next : Oid} (hs : agent.onSystemRoute o = true)
    (hn : agent.systemGroup.getNextSysOid o = some next) :
    IsNext agent.systemGroup.systemGroupList o (some next) := by
  rw [onSystemRoute, Bool.and_eq_true] at hs
  rw [SystemGroup.systemGroupList_eq]
  rcases agent.systemGroup.hasNext_cases hs.2 with rfl | rfl | rfl | rfl | rfl | rfl | rfl <;> cases hn <;>
    simp only [IsNext] <;> decide

/-- Off the system route an answer is the least exposed OID above the request,
or, where the request is no place of a metric, above the root. -/
theorem isNext_ahead {o : Oid} {r : Option Oid} (hs : agent.onSystemRoute o = false) (h : agent.nextOid o = .ok r) :
    ∃ a, IsNext agent.exposed a r ∧ agent.ahead o = agent.exposed.filter (a < ·) := by
  rcases agent.getNextOidValue_first_or hs with ⟨s, hl, rfl⟩ | ⟨hne, hfirst⟩
  · have hn := agent.isNext_exposed hl
    rw [← agent.eq_nextPlace h] at hn
    exact ⟨_, hn, if_pos (agent.short_iff.mpr ⟨s, hl, rfl⟩)⟩
  · have hshort : ¬ agent.Short o := fun hsh => by
      obtain ⟨s, hl, he⟩ := agent.short_iff.mp hsh
      exact hne s hl he
    have hn := agent.isNext_exposed (s := []) (by simp)
    rw [nextOid, hfirst] at h
    rw [← agent.eq_nextPlace h] at hn
    refine ⟨_, hn, ?_⟩
    rw [ahead, if_neg hshort, List.filter_eq_self.mpr fun o ho => decide_eq_true (agent.rootOid_lt_exposed ho)]

/-- Where there is an answer the walk goes on from it. -/
theorem visits_next {o o' : Oid} (h : agent.nextOid o = .ok (some o')) : agent.visits o = o' :: agent.visits o' := by
  cases hs : agent.onSystemRoute o with
  | true =>
    obtain ⟨next, hn, -, -⟩ := agent.exists_nextSysOid hs
    have hnext := isNext_system hs hn
    obtain rfl : o' = next := by
      rw [nextOid, agent.getNextOidValue_system hs hn] at h
      cases hv : agent.systemGroup.getSysOidVariable o with
      | error e => simp [hv, Except.map] at h
      | ok v => simpa [hv, Except.map] using h.symm
    rw [visits, if_pos hs, IsNext.filter_eq agent.systemGroup.systemGroupList_sorted hnext]
    rfl
  | false =>
    obtain ⟨a, hn, hall⟩ := isNext_ahead hs h
    rw [visits, hs, if_neg Bool.false_ne_true, hall, IsNext.filter_eq agent.exposed_sorted hn, visits_exposed hn.1]

/-- Where there is none it is over. -/
theorem visits_stop {o : Oid} (h : agent.nextOid o = .ok none) : agent.visits o = [] := by
  cases hs : agent.onSystemRoute o with
  | true =>
    obtain ⟨next, hn, -, -⟩ := agent.exists_nextSysOid hs
    rw [nextOid, agent.getNextOidValue_system hs hn] at h
    cases hv : agent.systemGroup.getSysOidVariable o <;> simp [hv, Except.map] at h
  | false =>
    obtain ⟨a, hn, hall⟩ := isNext_ahead hs h
    rw [visits, hs, if_neg Bool.false_ne_true, hall, IsNext.filter_eq agent.exposed_sorted hn]

theorem fromSystem_append {e : Oid} (he : agent.onSystemRoute e = false) : ∀ {l : List Oid},
    (∀ o ∈ l, agent.onSystemRoute o = true) → agent.fromSystem (l ++ [e]) = l ++ e :: agent.ahead e
  | [], _ => by simp [fromSystem, he]
  | o :: l, h => by
    have ho : agent.onSystemRoute o = true := h o List.mem_cons_self
    have ih := fromSystem_append he fun o ho => h o (List.mem_cons_of_mem _ ho)
    simp [fromSystem, ho, ih]

/-- What is ahead does not come back to the OID. -/
theorem not_mem_ahead (o : Oid) : o ∉ agent.ahead o := by
  unfold ahead
  split
  · simp
  · rename_i hs
    exact fun h => hs (short_of_exposed h)

theorem mem_exposed_of_ahead {o e : Oid} (h : e ∈ agent.ahead o) : e ∈ agent.exposed := by
  unfold ahead at h
  split at h
  · exact List.mem_of_mem_filter h
  · exact h

theorem ahead_nodup (o : Oid) : (agent.ahead o).Nodup := by
  have hexposed : agent.exposed.Nodup := agent.exposed_sorted.imp fun hlt => ne_of_lt hlt
  unfold ahead
  split
  · exact hexposed.filter _
  · exact hexposed

theorem mem_fromSystem {e : Oid} : ∀ {l : List Oid}, e ∈ agent.fromSystem l → e ∈ l ∨ e ∈ agent.exposed
  | [], h => by simp [fromSystem] at h
  | o :: l, h => by
    rw [fromSystem, List.mem_cons] at h
    rcases h with rfl | h
    · simp
    · split at h
      · exact (mem_fromSystem h).imp_left (List.mem_cons_of_mem _)
      · exact Or.inr (mem_exposed_of_ahead h)

theorem fromSystem_nodup : ∀ {l : List Oid}, l.Pairwise (· < ·) → (agent.fromSystem l).Nodup
  | [], _ => by simp [fromSystem]
  | o :: l, hl => by
    obtain ⟨ho, hl⟩ := List.pairwise_cons.mp hl
    rw [fromSystem, List.nodup_cons]
    cases hs : agent.onSystemRoute o with
    | false => simpa using ⟨not_mem_ahead o, ahead_nodup o⟩
    | true =>
      refine ⟨fun h => ?_, by simpa using fromSystem_nodup hl⟩
      rcases mem_fromSystem h with h | h
      · exact lt_irrefl o (ho o h)
      · -- an exposed OID is off the route
        rw [off_of_short (short_of_exposed h)] at hs
        cases hs

/-- Nothing is visited twice. -/
theorem visits_nodup (o : Oid) : (o :: agent.visits o).Nodup := by
  rw [List.nodup_cons, visits]
  cases hs : agent.onSystemRoute o with
  | false => simpa using ⟨not_mem_ahead o, ahead_nodup o⟩
  | true =>
    refine ⟨fun h => ?_, ?_⟩
    · rcases mem_fromSystem h with h | h
      · simp at h
      · rw [off_of_short (short_of_exposed h)] at hs
        cases hs
    · simpa using fromSystem_nodup (agent.systemGroup.systemGroupList_sorted.filter _)

/-- If the group does not lie under the root, a walk from it visits what is left
of it and then all the metrics. -/
theorem visits_system {o : Oid} (hs : agent.onSystemRoute o = true)
    (hroot : ∀ e ∈ agent.systemGroup.systemGroupList, e.startsWith agent.rootOid = false) :
    agent.visits o = agent.systemGroup.systemGroupList.filter (o < ·) ++ agent.exposed := by
  have hsplit : agent.systemGroup.systemGroupList = agent.systemGroup.systemGroupList.dropLast ++
      [SystemGroup.ifNumberOid] := rfl
  have hroute : ∀ e ∈ agent.systemGroup.systemGroupList.dropLast, agent.onSystemRoute e = true := by
    intro e he
    have hnext : ∀ e ∈ agent.systemGroup.systemGroupList.dropLast, agent.systemGroup.hasNext e = true := by
      simp only [SystemGroup.systemGroupList_eq, List.dropLast, List.forall_mem_cons]
      exact ⟨rfl, rfl, rfl, rfl, rfl, rfl, rfl, nofun⟩
    simp [onSystemRoute, hroot e (List.mem_of_mem_dropLast he), hnext e he]
  have hout : SystemGroup.ifNumberOid.startsWith agent.rootOid = false :=
    hroot _ (by simp [SystemGroup.systemGroupList_eq])
  have hend : agent.onSystemRoute SystemGroup.ifNumberOid = false := by
    have hno : agent.systemGroup.hasNext SystemGroup.ifNumberOid = false := rfl
    simp [onSystemRoute, hno]
  have hlast : agent.ahead SystemGroup.ifNumberOid = agent.exposed := by simp [ahead, Short, hout]
  have habove : o < SystemGroup.ifNumberOid := by
    rw [onSystemRoute, Bool.and_eq_true] at hs
    rcases agent.systemGroup.hasNext_cases hs.2 with rfl | rfl | rfl | rfl | rfl | rfl | rfl <;> decide
  have hfilter : agent.systemGroup.systemGroupList.filter (o < ·) =
      agent.systemGroup.systemGroupList.dropLast.filter (o < ·) ++ [SystemGroup.ifNumberOid] := by
    rw [hsplit, List.filter_append]
    simp [habove]
  rw [visits, if_pos hs, hfilter, fromSystem_append hend fun e he => hroute e (List.mem_of_mem_filter he), hlast,
    List.append_assoc, List.singleton_append]

/-! ### What the agent sends -/

/-- The reply with this OID and value first. -/
def reply (others : List VariableBinding) : Option OidValue → Pdu
  | none => { bindings := ⟨⟨[]⟩, .endOfMibView⟩ :: others.map asked, errorIndex := 1 }
  | some next => { bindings := ⟨next.oid, next.value⟩ :: others.map asked }

/-- The answer to a GETNEXT: for the first binding, with the others as they were
asked. -/
theorem processPdu_request (first : VariableBinding) (others : List VariableBinding) :
    agent.processPdu (some (request (first :: others))) = (agent.getNextOidValue first.oid).map fun next =>
      some ⟨.RESPONSE, reply others next⟩ := by
  unfold processPdu request handleSnmpGetnext
  simp only [List.map_cons, asked]
  cases agent.getNextOidValue first.oid with
  | error e => rfl
  | ok next => cases next <;> rfl

theorem asked_asked (others : List VariableBinding) : (others.map asked).map asked = others.map asked := by
  simp [asked]

/-! ### The walk of the first OID -/

/-- A session's replies tell a walk, whatever is asked beside it. -/
theorem Session.walks {bindings : List VariableBinding} {replies : List Pdu} {last : Option JavaError}
    (h : agent.Session bindings replies last) : ∀ {first : VariableBinding} {others : List VariableBinding},
    bindings = first :: others → ∃ l, Walks agent.nextOid first.oid l last ∧
      replies.map toldOid = l ++ (if last = none then [⟨[]⟩] else []) ∧
      ∀ reply ∈ replies, reply.bindings.tail = others.map asked := by
  induction h with
  | @lost bindings e h =>
    rintro first others rfl
    rw [processPdu_request] at h
    refine ⟨[], .fail ?_, by simp, nofun⟩
    rw [nextOid]
    cases hn : agent.getNextOidValue first.oid with
    | error e' =>
      rw [hn] at h
      cases h
      rfl
    | ok next => simp [hn, Except.map] at h
  | @ends bindings reply h hend =>
    rintro first others rfl
    rw [processPdu_request] at h
    cases hn : agent.getNextOidValue first.oid with
    | error e => simp [hn, Except.map] at h
    | ok next =>
      rw [hn] at h
      cases next with
      | some next =>
        -- the reply would be an answer
        cases h
        exact absurd (Option.some.inj hend) ((agent.getNextOidValue_assigned hn).2)
      | none =>
        cases h
        refine ⟨[], .stop (by rw [nextOid, hn]; rfl), by simp [toldOid, reply], by simp [reply]⟩
  | @next bindings reply replies last h hgo walk ih =>
    rintro first others rfl
    rw [processPdu_request] at h
    cases hn : agent.getNextOidValue first.oid with
    | error e => simp [hn, Except.map] at h
    | ok next =>
      rw [hn] at h
      cases next with
      | none =>
        cases h
        exact absurd rfl hgo
      | some next =>
        cases h
        obtain ⟨l, hw, hl, hrest⟩ := ih rfl
        refine ⟨next.oid :: l, .step (by rw [nextOid, hn]; rfl) hw, ?_, ?_⟩
        · simp [toldOid, hl, reply]
        · rw [asked_asked] at hrest
          simpa [reply] using hrest

/-- And every walk is told by some session. -/
theorem exists_session {o : Oid} {l : List Oid} {last : Option JavaError} (h : Walks agent.nextOid o l last) :
    ∀ {first : VariableBinding} (others : List VariableBinding), first.oid = o →
      ∃ replies, agent.Session (first :: others) replies last := by
  induction h with
  | @stop o h =>
    rintro first others rfl
    rw [nextOid] at h
    cases hn : agent.getNextOidValue first.oid with
    | error e => simp [hn, Except.map] at h
    | ok next =>
      cases next with
      | some next => simp [hn, Except.map] at h
      | none =>
        have hreply : agent.processPdu (some (request (first :: others))) = .ok (some ⟨.RESPONSE, reply others none⟩) := by
          rw [processPdu_request, hn]
          rfl
        exact ⟨_, .ends hreply rfl⟩
  | @fail o e h =>
    rintro first others rfl
    rw [nextOid] at h
    cases hn : agent.getNextOidValue first.oid with
    | error e' =>
      rw [hn] at h
      cases h
      exact ⟨[], .lost (by rw [processPdu_request, hn]; rfl)⟩
    | ok next => simp [hn, Except.map] at h
  | @step o o' l last h walk ih =>
    rintro first others rfl
    rw [nextOid] at h
    cases hn : agent.getNextOidValue first.oid with
    | error e => simp [hn, Except.map] at h
    | ok next =>
      cases next with
      | none => simp [hn, Except.map] at h
      | some next =>
        rw [hn] at h
        obtain ⟨replies, hr⟩ := @ih ⟨next.oid, next.value⟩ (others.map asked) (Option.some.inj (Except.ok.inj h))
        refine ⟨_, .next (by rw [processPdu_request, hn]; rfl) ?_ hr⟩
        exact fun hend => (agent.getNextOidValue_assigned hn).2 (Option.some.inj hend)

/-- A walk visits a beginning of what lies ahead, and all of it if it is not
broken off. -/
theorem walks_visits {o : Oid} {l : List Oid} {last : Option JavaError} (h : Walks agent.nextOid o l last) :
    l <+: agent.visits o ∧ (last = none → l = agent.visits o) := by
  induction h with
  | stop h => simp [visits_stop h]
  | fail h => simp
  | step h walk ih =>
    rw [visits_next h]
    exact ⟨(List.prefix_cons_inj _).mpr ih.1, fun hl => by rw [ih.2 hl]⟩

/-- With nothing that throws, every request is answered. -/
theorem Answerable.exists_next (h : agent.Answerable) (o : Oid) : ∃ r, agent.nextOid o = .ok r := by
  have hmetrics : ∀ i, ∃ r, agent.getNext i = .ok r := by
    intro i
    unfold getNext
    cases hm : agent.metricService.metricAt i.1.toNat (i.2.toNat + 1) with
    | none => exact ⟨_, rfl⟩
    | some p =>
      obtain ⟨v, hv⟩ := agent.metricService.metricVariable_ok_iff.mpr (h.metrics _ _ _ _ hm)
      simp [hv, Except.map]
  unfold nextOid
  cases hs : agent.onSystemRoute o with
  | false =>
    rcases agent.getNextOidValue_metrics hs with ⟨s, -, -, he⟩ | ⟨-, he⟩
    · obtain ⟨r, hr⟩ := hmetrics (indexes s)
      exact ⟨_, by rw [he, hr]; rfl⟩
    · obtain ⟨r, hr⟩ := hmetrics (0, 0)
      exact ⟨_, by rw [he, hr]; rfl⟩
  | true =>
    obtain ⟨next, hn, -, -⟩ := agent.exists_nextSysOid hs
    have hv : ∃ v, agent.systemGroup.getSysOidVariable o = .ok v := by
      unfold SystemGroup.getSysOidVariable
      split
      · exact h.uptime
      · rw [onSystemRoute, Bool.and_eq_true] at hs
        rcases agent.systemGroup.hasNext_cases hs.2 with rfl | rfl | rfl | rfl | rfl | rfl | rfl <;> exact ⟨_, rfl⟩
    obtain ⟨v, hv⟩ := hv
    exact ⟨_, by rw [agent.getNextOidValue_system hs hn, hv]; rfl⟩

theorem Answerable.last_eq_none (h : agent.Answerable) {o : Oid} {l : List Oid} {last : Option JavaError}
    (hw : Walks agent.nextOid o l last) : last = none := by
  induction hw with
  | stop _ => rfl
  | @fail o e he =>
    obtain ⟨r, hr⟩ := h.exists_next o
    rw [he] at hr
    cases hr
  | step _ _ ih => exact ih

/-- **A manager is told what lies ahead of the OID it starts from**, once each
and in order, with nothing that it asks beside it; a walk ends, early only if a
request is lost to an exception, and then with a beginning of the same. -/
theorem session_visits (agent : SnmpAgent) (first : VariableBinding) (others : List VariableBinding) :
    (∃ replies last, agent.Session (first :: others) replies last) ∧
    (first.oid :: agent.visits first.oid).Nodup ∧
    ∀ replies last, agent.Session (first :: others) replies last →
      replies.map toldOid <+: agent.visits first.oid ++ [⟨[]⟩] ∧
      (last = none ↔ replies.map toldOid = agent.visits first.oid ++ [⟨[]⟩]) ∧
      (∀ reply ∈ replies, reply.bindings.tail = others.map asked) ∧ (agent.Answerable → last = none) := by
  obtain ⟨l, last, hw⟩ := exists_walks agent.routeRank_lt first.oid
  obtain ⟨replies, hreplies⟩ := exists_session hw others rfl
  refine ⟨⟨replies, last, hreplies⟩, visits_nodup _, fun replies last h => ?_⟩
  obtain ⟨l, hw, htold, hrest⟩ := h.walks rfl
  obtain ⟨hstart, hall⟩ := walks_visits hw
  rw [htold]
  refine ⟨?_, ?_, hrest, fun ha => ha.last_eq_none hw⟩
  · cases last with
    | none => simp [hall rfl]
    | some e => simpa using hstart.trans (List.prefix_append _ _)
  · cases last with
    | none => simp [hall rfl]
    | some e =>
      refine iff_of_false nofun fun he => ?_
      have hle := hstart.length_le
      have hlen := congrArg List.length he
      simp at hlen
      omega

theorem oneMetric_answerable : (oneMetric "cpu".toList).Answerable where
  metrics := by
    intro m k module metric h
    obtain ⟨h1, hm, hk1, hk⟩ := MetricService.metricAt_isSome _ |>.mp (Option.isSome_iff_exists.mpr ⟨_, h⟩)
    obtain rfl : m = 1 := le_antisymm hm h1
    obtain rfl : k = 1 := le_antisymm hk hk1
    cases h
    refine ⟨by decide, by decide, ?_⟩
    rintro _ m ⟨⟩ ⟨⟩
    exact ⟨some (.long 7), nofun, rfl⟩
  uptime := ⟨_, rfl⟩

/-- From the location of the system on, with its description asked for beside. -/
theorem session_visits_oneMetric : ∃ replies,
    (oneMetric "cpu".toList).Session [⟨SystemGroup.sysOid 6, .null⟩, ⟨SystemGroup.sysOid 1, .null⟩] replies none ∧
      replies.map toldOid = [SystemGroup.sysOid 7, SystemGroup.ifNumberOid, (oneMetric "cpu".toList).moduleOid 1,
        (oneMetric "cpu".toList).metricOid 1 1, ⟨[]⟩] := by
  obtain ⟨⟨replies, last, h⟩, -, htold⟩ :=
    (oneMetric "cpu".toList).session_visits ⟨SystemGroup.sysOid 6, .null⟩ [⟨SystemGroup.sysOid 1, .null⟩]
  obtain ⟨-, hiff, -, hlast⟩ := htold replies last h
  obtain rfl := hlast oneMetric_answerable
  refine ⟨replies, h, (hiff.mp rfl).trans ?_⟩
  decide

end SnmpAgent

end Plethora
