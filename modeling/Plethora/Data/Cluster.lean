/-
# Polling a cluster service

`Cluster.getMemberList` asks the cluster service for its members if the
service was updated since the last poll: it reads the service's time stamp,
compares it with the time of the last poll, records the time of this one, and
reads the members if the stamp was the later. The service may be updated
between any two of these steps. `Sys` is both of them with the clock, `Step`
what either does next.

The stamp and the recorded time are milliseconds and the stamp must be strictly
later, and the time recorded is not the one the stamp was read at. An update
is missed if its millisecond is the one recorded, or if it falls between
reading a stamp that is not later and recording the time. If no update does,
every call that starts after an update returns its members or those of a later
one: `served_of_timely`.

Key definitions: `MemberMap`, `Cluster.buildMemberList`, `Polled.Sys`,
`Polled.Step`, `Polled.Timely`, `Polled.Served`.
Key theorems: `Polled.caught_iff`, `served_of_timely`, `Polled.missed`.
-/
import Plethora.Common.Java
import Plethora.Lib.Runs

namespace Plethora

structure ClusterMember where
  hostname : Text
  port : Int32
  deriving DecidableEq

/-- `Map<String, ClusterMember>`. -/
structure MemberMap where
  entries : List (Text × ClusterMember)
  nodup : (entries.map (·.1)).Nodup

namespace MemberMap

/-- `putAll`. -/
def putAll (m : MemberMap) (es : List (Text × ClusterMember)) : MemberMap :=
  es.foldl (fun m e => ⟨put e.1 e.2 m.entries, nodup_keys_put m.nodup⟩) m

theorem lookup_putAll (k : Text) : ∀ (es : List (Text × ClusterMember)) (m : MemberMap),
    (m.putAll es).entries.lookup k = (es.reverse.lookup k).or (m.entries.lookup k)
  | [], _ => rfl
  | (k', v) :: es, m => by
    have h : m.putAll ((k', v) :: es) = MemberMap.putAll ⟨put k' v m.entries, nodup_keys_put m.nodup⟩ es := rfl
    rw [h, lookup_putAll k es, lookup_put, List.reverse_cons, List.lookup_append, List.lookup_cons]
    by_cases hk : k = k'
    · rw [if_pos hk, hk, beq_self_eq_true, Option.or_assoc]
      rfl
    · rw [if_neg hk, beq_eq_false_iff_ne.mpr hk, List.lookup_nil, Option.or_none]

/-- The members put are there. -/
theorem mem_putAll {m new : MemberMap} {e : Text × ClusterMember} (he : e ∈ new.entries) :
    e ∈ (m.putAll new.entries).entries := by
  obtain ⟨k, v⟩ := e
  have hnew : new.entries.reverse.lookup k = some v := by
    refine lookup_of_mem ?_ (List.mem_reverse.mpr he)
    rw [List.map_reverse, List.nodup_reverse]
    exact new.nodup
  apply mem_of_lookup
  rw [lookup_putAll, hnew]
  rfl

end MemberMap

/-- What a `Cluster` is set up with: the HTTP port of this server, and the order
in which a `HashMap` gives its values. -/
structure Cluster where
  httpPort : Int32
  hashOrder : List (Text × ClusterMember) → List (Text × ClusterMember)
  perm : ∀ l, (hashOrder l).Perm l

namespace Cluster

variable (cluster : Cluster)

/-- A member in the list; one with no port has the port of this server. -/
def memberText (member : ClusterMember) : Text :=
  member.hostname ++ ':' :: (toString (if 0 < member.port then member.port else cluster.httpPort).toInt).toList

/-- `buildMemberList`: a separator after each member, and the last one removed. -/
def buildMemberList (clusterMembers : MemberMap) : Text :=
  ((cluster.hashOrder clusterMembers.entries).flatMap fun e => cluster.memberText e.2 ++ [',']).dropLast

/-- The text is one of those between the commas. -/
def Listed (list entry : Text) : Prop := ∃ entries, list = ([','] : Text).intercalate entries ∧ entry ∈ entries

theorem flatMap_dropLast : ∀ entries : List Text,
    (entries.flatMap fun e => e ++ [',']).dropLast = ([','] : Text).intercalate entries
  | [] => rfl
  | [e] => by simp
  | e :: e' :: entries => by
    have ih := flatMap_dropLast (e' :: entries)
    have hne : ((e' :: entries).flatMap fun e => e ++ [',']) ≠ [] := by simp
    rw [List.flatMap_cons, List.dropLast_append_of_ne_nil hne, ih, List.intercalate_cons_cons]

/-- In the empty list there is no entry. -/
theorem eq_nil_of_listed {entry : Text} (h : Listed [] entry) : entry = [] := by
  obtain ⟨entries, he, hm⟩ := h
  cases entries with
  | nil => cases hm
  | cons e entries =>
    cases entries with
    | nil =>
      rw [List.intercalate_singleton] at he
      rw [List.mem_singleton.mp hm, he]
    | cons e' entries =>
      rw [List.intercalate_cons_cons] at he
      simp at he

theorem listed_buildMemberList {clusterMembers : MemberMap} {e : Text × ClusterMember} (he : e ∈ clusterMembers.entries) :
    Listed (cluster.buildMemberList clusterMembers) (cluster.memberText e.2) := by
  refine ⟨(cluster.hashOrder clusterMembers.entries).map fun e => cluster.memberText e.2, ?_, ?_⟩
  · rw [← flatMap_dropLast, List.flatMap_map]
    rfl
  · exact List.mem_map.mpr ⟨e, (cluster.perm _).mem_iff.mpr he, rfl⟩

end Cluster

/-! ### The service and the polls -/

namespace Polled

/-- A new member map of the service. -/
structure Update where
  members : MemberMap
  nonempty : members.entries ≠ []

/-- Where a call of `getMemberList` has got to. -/
inductive Pc
  | idle
  /-- The service's stamp is read. -/
  | stampRead (lastUpdated : ℕ)
  /-- It is compared with the time of the last poll. -/
  | compared (updated : Bool)
  /-- The time of this poll is recorded. -/
  | recorded (updated : Bool)
  /-- The members are read, and the list is built. -/
  | built
  deriving DecidableEq

/-- The clock, in milliseconds; the service, with its updates so far, newest
first, and the stamp of the last; and the cluster, with the number of the
update it has read. -/
structure Sys where
  clock : ℕ
  updates : List Update
  lastUpdated : ℕ
  clusterMembers : MemberMap
  memberListString : Text
  lastPolled : ℕ
  seen : ℕ
  pc : Pc

inductive Event
  | tick (clock : ℕ)
  | update (update : Update)
  | readStamp
  | compare
  | record
  | readMembers
  | ret

/-- The time goes on, the service is updated, or the call under way takes its
next step. The service has no member map before its first update. -/
inductive Step (cluster : Cluster) : Sys → Event → Sys → Prop
  | tick {s : Sys} {t : ℕ} (later : s.clock ≤ t) : Step cluster s (.tick t) { s with clock := t }
  | update {s : Sys} (update : Update) :
    Step cluster s (.update update) { s with updates := update :: s.updates, lastUpdated := s.clock }
  | readStamp {s : Sys} (here : s.pc = .idle) : Step cluster s .readStamp { s with pc := .stampRead s.lastUpdated }
  | compare {s : Sys} {lastUpdated : ℕ} (here : s.pc = .stampRead lastUpdated) :
    Step cluster s .compare { s with pc := .compared (s.lastPolled < lastUpdated) }
  | record {s : Sys} {updated : Bool} (here : s.pc = .compared updated) :
    Step cluster s .record { s with lastPolled := s.clock, pc := .recorded updated }
  | readNone {s : Sys} (here : s.pc = .recorded true) (unset : s.updates = []) :
    Step cluster s .readMembers { s with pc := .built }
  | readMembers {s : Sys} {last : Update} {rest : List Update} (here : s.pc = .recorded true)
    (latest : s.updates = last :: rest) :
    Step cluster s .readMembers
      { s with
        clusterMembers := s.clusterMembers.putAll last.members.entries
        memberListString := cluster.buildMemberList (s.clusterMembers.putAll last.members.entries)
        seen := s.updates.length
        pc := .built }
  | ret {s : Sys} (here : s.pc = .recorded false ∨ s.pc = .built) : Step cluster s .ret { s with pc := .idle }

/-- No poll has been made and the service has not been updated. -/
structure Start (s : Sys) : Prop where
  updates : s.updates = []
  seen : s.seen = 0
  pc : s.pc = .idle

/-- The call under way will read the members. -/
def Pending (s : Sys) : Prop :=
  (∃ stamp, s.pc = .stampRead stamp ∧ s.lastPolled < stamp) ∨ s.pc = .compared true ∨ s.pc = .recorded true

/-- The call under way will not read the members, and has yet to record its time. -/
def Missing (s : Sys) : Prop := (∃ stamp, s.pc = .stampRead stamp ∧ ¬ s.lastPolled < stamp) ∨ s.pc = .compared false

/-- An update is made while a call is under way that will read it, or else later
than the recorded time and not before a call records its own. -/
def Timely (s : Sys) : Event → Prop
  | .update _ => Pending s ∨ (¬ Missing s ∧ s.lastPolled < s.clock)
  | _ => True

/-- The last update will be read: by the call under way, or has been, or by the next call. -/
def Caught (s : Sys) : Prop := Pending s ∨ s.seen = s.updates.length ∨ (¬ Missing s ∧ s.lastPolled < s.lastUpdated)

variable {cluster : Cluster} {s t : Sys} {e : Event}

/-- The last update of the run is caught exactly if it is timely; no other step loses it. -/
theorem caught_iff (h : Step cluster s e t) (hseen : s.seen ≤ s.updates.length) (hs : Caught s) : Caught t ↔ Timely s e := by
  cases h with
  | tick later => exact iff_of_true hs trivial
  | update update =>
    -- it is not read yet, so it must be pending, or later than the recorded time
    have hunread : s.seen ≠ s.updates.length + 1 := by omega
    constructor
    · rintro (hp | hread | hlater)
      · exact Or.inl hp
      · exact absurd hread hunread
      · exact Or.inr hlater
    · rintro (hp | hlater)
      · exact Or.inl hp
      · exact Or.inr (Or.inr hlater)
  | readStamp here =>
    refine iff_of_true ?_ trivial
    by_cases hlater : s.lastPolled < s.lastUpdated
    · exact Or.inl (Or.inl ⟨_, rfl, hlater⟩)
    · rcases hs with hp | hread | hl
      · simp [Pending, here] at hp
      · exact Or.inr (Or.inl hread)
      · exact absurd hl.2 hlater
  | compare here =>
    refine iff_of_true ?_ trivial
    rename_i stamp
    by_cases hlater : s.lastPolled < stamp
    · exact Or.inl (Or.inr (Or.inl (congrArg Pc.compared (decide_eq_true hlater))))
    · rcases hs with hp | hread | hl
      · simp [Pending, here, hlater] at hp
      · exact Or.inr (Or.inl hread)
      · exact absurd (Or.inl ⟨stamp, here, hlater⟩) hl.1
  | record here =>
    refine iff_of_true ?_ trivial
    rename_i updated
    cases updated with
    | true => exact Or.inl (Or.inr (Or.inr rfl))
    | false =>
      rcases hs with hp | hread | hl
      · simp [Pending, here] at hp
      · exact Or.inr (Or.inl hread)
      · exact absurd (Or.inr here) hl.1
  | readNone here unset =>
    refine iff_of_true (Or.inr (Or.inl ?_)) trivial
    rw [unset] at hseen ⊢
    exact Nat.le_zero.mp hseen
  | readMembers here latest => exact iff_of_true (Or.inr (Or.inl rfl)) trivial
  | ret here =>
    refine iff_of_true ?_ trivial
    rcases hs with hp | hread | hl
    · rcases here with here | here <;> simp [Pending, here] at hp
    · exact Or.inr (Or.inl hread)
    · exact Or.inr (Or.inr ⟨by simp [Missing], hl.2⟩)

/-! ### What the list holds -/

/-- The list holds the members of the update that was read last. -/
structure Reads (cluster : Cluster) (s : Sys) : Prop where
  seen : s.seen ≤ s.updates.length
  listed : ∀ update rest, s.updates.drop (s.updates.length - s.seen) = update :: rest →
    ∀ e ∈ update.members.entries, Cluster.Listed s.memberListString (cluster.memberText e.2)

theorem reads_start (h : Start s) : Reads cluster s := by
  refine ⟨by rw [h.seen]; exact Nat.zero_le _, fun update rest hdrop => ?_⟩
  rw [h.updates, List.drop_nil] at hdrop
  cases hdrop

theorem reads_step (h : Step cluster s e t) (hs : Reads cluster s) : Reads cluster t := by
  cases h with
  | tick | readStamp | compare | record | ret => exact ⟨hs.seen, hs.listed⟩
  | update update =>
    refine ⟨Nat.le_succ_of_le hs.seen, fun u rest hdrop => hs.listed u rest ?_⟩
    have hlen : (update :: s.updates).length - s.seen = (s.updates.length - s.seen) + 1 := by
      rw [List.length_cons]
      have := hs.seen
      omega
    rw [← hdrop, hlen, List.drop_succ_cons]
  | readNone here unset => exact ⟨hs.seen, hs.listed⟩
  | readMembers here latest =>
    rename_i last rest
    refine ⟨le_rfl, fun u rest' hdrop => ?_⟩
    have hlast : u = last := by
      rw [Nat.sub_self, List.drop_zero, latest] at hdrop
      exact (List.cons.inj hdrop).1.symm
    rw [hlast]
    exact fun e he => cluster.listed_buildMemberList (MemberMap.mem_putAll he)

/-! ### One call -/

/-- Every call that starts after an update returns all members of it, or of a
later one: of `update`, which is among the updates at the return but not
among those before the last one at the start. -/
def Served (cluster : Cluster) (steps : List (Sys × Event)) : Prop :=
  ∀ pre s mid t post, steps = pre ++ (s, .readStamp) :: mid ++ (t, .ret) :: post → (∀ p ∈ mid, p.2 ≠ .ret) →
    s.updates ≠ [] → ∃ k update rest, k ≤ t.updates.length - s.updates.length ∧ t.updates.drop k = update :: rest ∧
      ∀ e ∈ update.members.entries, Cluster.Listed t.memberListString (cluster.memberText e.2)

/-- Of the first `n` updates all are read, or the last will be by the call under way. -/
def Due (n : ℕ) (s : Sys) : Prop := n ≤ s.updates.length ∧ (n ≤ s.seen ∨ Pending s)

theorem due_step {n : ℕ} (h : Step cluster s e t) (hs : Due n s) (he : e ≠ .ret) : Due n t := by
  obtain ⟨hn, hdue⟩ := hs
  cases h with
  | tick later => exact ⟨hn, hdue⟩
  | update update => exact ⟨Nat.le_succ_of_le hn, hdue⟩
  | readStamp here =>
    refine ⟨hn, Or.inl (hdue.resolve_right fun hp => ?_)⟩
    simp [Pending, here] at hp
  | compare here =>
    refine ⟨hn, hdue.imp_right fun hp => ?_⟩
    rename_i stamp
    have hlater : s.lastPolled < stamp := by simpa [Pending, here] using hp
    exact Or.inr (Or.inl (congrArg Pc.compared (decide_eq_true hlater)))
  | record here =>
    refine ⟨hn, hdue.imp_right fun hp => ?_⟩
    rename_i updated
    have hupdated : updated = true := by simpa [Pending, here] using hp
    rw [hupdated]
    exact Or.inr (Or.inr rfl)
  | readNone here unset =>
    rw [unset] at hn
    exact ⟨by rw [unset]; exact hn, Or.inl (hn.trans (Nat.zero_le _))⟩
  | readMembers here latest => exact ⟨hn, Or.inl hn⟩
  | ret here => exact absurd rfl he

/-- A call that starts when the last update is caught comes to read it. -/
theorem due_readStamp (h : Step cluster s .readStamp t) (hs : Caught s) : Due s.updates.length t := by
  cases h with
  | readStamp here =>
    refine ⟨le_rfl, ?_⟩
    rcases hs with hp | hread | hl
    · simp [Pending, here] at hp
    · exact Or.inl hread.ge
    · exact Or.inr (Or.inl ⟨_, rfl, hl.2⟩)

theorem seen_of_ret {n : ℕ} (h : Step cluster s .ret t) (hs : Due n s) : n ≤ s.seen := by
  cases h with
  | ret here =>
    refine hs.2.resolve_right fun hp => ?_
    rcases here with here | here <;> simp [Pending, here] at hp

/-- A call that starts when the last update is not caught returns the list as
it was, and the update is not caught after it either. -/
theorem missed (cluster : Cluster) (hpc : s.pc = .idle) (hnot : ¬ Caught s) (hclock : s.lastUpdated ≤ s.clock) :
    Run (Step cluster) s
      [(s, .readStamp), ({ s with pc := .stampRead s.lastUpdated }, .compare), ({ s with pc := .compared false }, .record),
        ({ s with lastPolled := s.clock, pc := .recorded false }, .ret)]
      { s with lastPolled := s.clock, pc := .idle } ∧
    ¬ Caught { s with lastPolled := s.clock, pc := .idle } := by
  have hlate : ¬ s.lastPolled < s.lastUpdated := fun hlt => hnot (Or.inr (Or.inr ⟨by simp [Missing, hpc], hlt⟩))
  have hunread : s.seen ≠ s.updates.length := fun he => hnot (Or.inr (Or.inl he))
  constructor
  · have hcompare : Step cluster { s with pc := .stampRead s.lastUpdated } .compare { s with pc := .compared false } := by
      have hfalse : decide (s.lastPolled < s.lastUpdated) = false := decide_eq_false hlate
      rw [← hfalse]
      exact .compare rfl
    exact .cons (.readStamp hpc) (.cons hcompare (.cons (.record rfl) (.cons (.ret (Or.inl rfl)) (.nil _))))
  · rintro (hp | hread | hl)
    · simp [Pending] at hp
    · exact hunread hread
    · exact absurd hl.2 (not_lt.mpr hclock)

end Polled

open Polled in
/-- **No update is missed if every one is timely.** -/
theorem served_of_timely {cluster : Cluster} {s₀ u : Sys} {steps : List (Sys × Event)} (h0 : Start s₀)
    (h : Run (Step cluster) s₀ steps u) (hg : ∀ p ∈ steps, Timely p.1 p.2) : Served cluster steps := by
  have hstep : ∀ s e t, Step cluster s e t → Reads cluster s ∧ Caught s → Timely s e → Reads cluster t ∧ Caught t :=
    fun s e t hst hs hgood => ⟨reads_step hst hs.1, (caught_iff hst hs.1.seen hs.2).mpr hgood⟩
  have hcaught0 : Caught s₀ := Or.inr (Or.inl (by rw [h0.seen, h0.updates]; rfl))
  have hall := Run.invariant hstep h ⟨reads_start h0, hcaught0⟩ hg
  rintro pre s mid t post rfl hmid hsome
  -- the run up to the call, the call, and the rest
  obtain ⟨v, -, hcall⟩ := Run.exists_of_append (List.append_assoc .. ▸ h)
  cases hcall with
  | cons hstart hcall =>
    obtain ⟨w, hcall, hrest⟩ := Run.exists_of_append hcall
    cases hrest with
    | cons hret hrest =>
      have hs := hall.1 (s, .readStamp) (by simp)
      have ht := hall.1 (t, .ret) (by simp)
      have hkeeps : ∀ x e y, Step cluster x e y → Due s.updates.length x → e ≠ .ret → Due s.updates.length y :=
        fun x e y hst hd he => due_step hst hd he
      have hdue := Run.invariant hkeeps hcall (due_readStamp hstart hs.2) hmid
      have hseen : s.updates.length ≤ t.seen := seen_of_ret hret hdue.2
      have hpos : 0 < s.updates.length := List.length_pos_iff.mpr hsome
      have hbound : t.seen ≤ t.updates.length := ht.1.seen
      obtain ⟨update, rest, hdrop⟩ : ∃ update rest, t.updates.drop (t.updates.length - t.seen) = update :: rest := by
        apply List.exists_cons_of_ne_nil
        rw [ne_eq, List.drop_eq_nil_iff]
        omega
      exact ⟨_, update, rest, by omega, hdrop, ht.1.listed update rest hdrop⟩

namespace Polled

/-- A cluster with no members of its own, at the fifth millisecond. -/
def demoCluster : Cluster := ⟨80, id, fun _ => .refl _⟩

def noMembers : MemberMap := ⟨[], List.nodup_nil⟩

def demoStart : Sys := ⟨5, [], 0, noMembers, [], 0, 0, .idle⟩

/-- The service finds a peer. -/
def peer : Update := ⟨⟨[("p".toList, ⟨"p".toList, 90⟩)], by decide⟩, by decide⟩

theorem served_of_timely_demo : ∃ steps u, Run (Step demoCluster) demoStart steps u ∧
    steps.map (·.2) = [.update peer, .readStamp, .compare, .record, .readMembers, .ret] ∧ Served demoCluster steps := by
  have hrun : Run (Step demoCluster) demoStart _ _ :=
    .cons (.update peer) (.cons (.readStamp rfl) (.cons (.compare rfl) (.cons (.record rfl)
      (.cons (.readMembers rfl rfl) (.cons (.ret (Or.inr rfl)) (.nil _))))))
  refine ⟨_, _, hrun, rfl, served_of_timely ⟨rfl, rfl, rfl⟩ hrun ?_⟩
  simp only [List.forall_mem_cons]
  refine ⟨Or.inr ⟨by simp [Missing, demoStart], by decide⟩, trivial, trivial, trivial, trivial, trivial, ?_⟩
  exact fun p hp => absurd hp List.not_mem_nil

/-- A poll and then an update in one millisecond: the next poll does not see it. -/
theorem sameTick_missed : ∃ steps u, Start demoStart ∧ Run (Step demoCluster) demoStart steps u ∧
    steps.map (·.2) = [.readStamp, .compare, .record, .ret, .update peer, .readStamp, .compare, .record, .ret] ∧
    ¬ Served demoCluster steps := by
  have hrun : Run (Step demoCluster) demoStart _ _ :=
    .cons (.readStamp rfl) (.cons (.compare rfl) (.cons (.record rfl) (.cons (.ret (Or.inl rfl))
      (.cons (.update peer) (.cons (.readStamp rfl) (.cons (.compare rfl) (.cons (.record rfl)
        (.cons (.ret (Or.inl rfl)) (.nil _)))))))))
  refine ⟨_, _, ⟨rfl, rfl, rfl⟩, hrun, rfl, fun h => ?_⟩
  obtain ⟨k, update, rest, hk, hdrop, hlisted⟩ :=
    h [_, _, _, _, _] _ [_, _] _ [] rfl (by simp) (List.cons_ne_nil peer [])
  have hk : k = 0 := Nat.le_zero.mp hk
  subst hk
  obtain rfl : peer = update := (List.cons.inj hdrop).1
  have hempty := Cluster.eq_nil_of_listed (hlisted _ (.head _))
  revert hempty
  decide

end Polled

end Plethora
