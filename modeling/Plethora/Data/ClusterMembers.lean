/-
# The configured members of a cluster

`Cluster.getStaticDefinedMembers`: the configured list is split at its commas
and each item at its colon, and the members go into a map under their hosts. Of
two members on one host the last one is kept. The list that is printed is read
back as the configured one exactly if it has members, each on a host of its
own, and the `int` of a member holds the number of every port:
`getMemberList_iff`. A text that is no `long` is the number 0.

Key definitions: `Cluster.memberOf`,
`Cluster.getStaticDefinedMembers`, `ConfiguredMember`, `Cluster.Lists`,
`Cluster.Fits`.
Key theorems: `MemberMap.putAll_perm`, `getMemberList_iff`.
-/
import Plethora.Common.Numerals
import Plethora.Data.Cluster
import Plethora.Lib.Pieces
import Mathlib.Data.List.Dedup

namespace Plethora

/-! ### A map of members -/

namespace MemberMap

def empty : MemberMap := ⟨[], List.nodup_nil⟩

variable {es : List (Text × ClusterMember)}

theorem mem_of_putAll {e : Text × ClusterMember} : ∀ {es : List (Text × ClusterMember)} {m : MemberMap},
    e ∈ (m.putAll es).entries → e ∈ m.entries ∨ e ∈ es
  | [], _, h => Or.inl h
  | (k, v) :: es, m, h => by
    rcases @mem_of_putAll e es ⟨put k v m.entries, nodup_keys_put m.nodup⟩ h with h | h
    · rcases mem_put h with rfl | h
      · exact Or.inr List.mem_cons_self
      · exact Or.inl h
    · exact Or.inr (List.mem_cons_of_mem _ h)

theorem mem_keys_putAll {k : Text} : k ∈ (empty.putAll es).entries.map (·.1) ↔ k ∈ es.map (·.1) := by
  rw [mem_keys_iff, lookup_putAll, ← List.mem_reverse, ← List.map_reverse, mem_keys_iff]
  have hempty : empty.entries.lookup k = none := rfl
  rw [hempty, Option.or_none]

/-- Under keys that differ all of them are kept. -/
theorem putAll_perm (h : (es.map (·.1)).Nodup) : (empty.putAll es).entries.Perm es := by
  refine (List.perm_ext_iff_of_nodup (empty.putAll es).nodup.of_map h.of_map).mpr fun e => ⟨fun he => ?_, fun he => ?_⟩
  · exact (mem_of_putAll he).resolve_left List.not_mem_nil
  · exact @mem_putAll empty ⟨es, h⟩ e he

/-- If none is lost the keys differ. -/
theorem nodup_of_length (h : es.length ≤ (empty.putAll es).entries.length) : (es.map (·.1)).Nodup := by
  have hnodup := (empty.putAll es).nodup
  have hsub : (empty.putAll es).entries.map (·.1) ⊆ es.map (·.1) := fun k hk => mem_keys_putAll.mp hk
  have hperm : ((empty.putAll es).entries.map (·.1)).Perm (es.map (·.1)) :=
    (List.subperm_of_subset hnodup hsub).perm_of_length_le (by simpa using h)
  exact hperm.nodup_iff.mp hnodup

end MemberMap

namespace Cluster

/-! ### The configured list -/

/-- The member of an item; an item of colons only has none. -/
def memberOf (memberitem : Text) : Option ClusterMember :=
  match Text.split ':' memberitem with
  | [] => none
  | hostname :: items => some ⟨hostname, items.head?.elim 0 fun port => Util.getInt (some port) 0⟩

/-- `getStaticDefinedMembers`. -/
def getStaticDefinedMembers (memberlist : Option Text) : MemberMap :=
  match memberlist with
  | none => .empty
  | some memberlist =>
    MemberMap.empty.putAll ((Text.split ',' memberlist).filterMap fun memberitem =>
      (memberOf memberitem).map fun member => (member.hostname, member))

variable (cluster : Cluster)

/-- `getMemberList`, without a service. -/
def getMemberList (memberlist : Option Text) : Text := cluster.buildMemberList (getStaticDefinedMembers memberlist)

end Cluster

/-! ### The members that are configured -/

/-- A host, and a port if one is given. -/
structure ConfiguredMember where
  hostname : Text
  port : Option Text
  named : hostname ≠ []
  plain : ',' ∉ hostname ∧ ':' ∉ hostname
  plainPort : ∀ p ∈ port, ',' ∉ p ∧ ':' ∉ p

namespace ConfiguredMember

/-- The item in the list. -/
def text (m : ConfiguredMember) : Text :=
  match m.port with
  | none => m.hostname
  | some port => m.hostname ++ ':' :: port

/-- The number given for the port, 0 without one. -/
def number (m : ConfiguredMember) : ℤ := ((m.port.bind Long.valueOf).map Int64.toInt).getD 0

/-- The member that the port is converted for. -/
def member (m : ConfiguredMember) : ClusterMember := ⟨m.hostname, Util.getInt m.port 0⟩

theorem text_ne_nil (m : ConfiguredMember) : m.text ≠ [] := by
  unfold text
  cases m.port with
  | none => exact m.named
  | some port => exact List.append_ne_nil_of_right_ne_nil _ (List.cons_ne_nil _ _)

theorem comma_not_mem_text (m : ConfiguredMember) : ',' ∉ m.text := by
  unfold text
  cases hp : m.port with
  | none => exact m.plain.1
  | some port =>
    have hport := m.plainPort port hp
    simp [m.plain.1, hport.1]

/-- An item is read as its host and port. -/
theorem memberOf_text (m : ConfiguredMember) : Cluster.memberOf m.text = some m.member := by
  have hfrom : ∀ {port : Option Text}, m.port = port → ∀ items : List Text,
      Text.split ':' m.text = m.hostname :: items →
      items.head?.elim 0 (fun port => Util.getInt (some port) 0) = Util.getInt port 0 →
      Cluster.memberOf m.text = some m.member := by
    intro port hp items hs hget
    simp only [Cluster.memberOf, hs, hget, member, hp]
  cases hp : m.port with
  | none =>
    have ht : m.text = m.hostname := by simp only [text, hp]
    refine hfrom hp [] ?_ rfl
    rw [ht, Text.split_of_not_mem m.plain.2]
  | some port =>
    have ht : m.text = ([':'] : Text).intercalate [m.hostname, port] := by
      simp only [text, hp]
      simp
    have hport := (m.plainPort port hp).2
    by_cases hnil : port = []
    · -- the colon at the end leaves no piece after it
      subst hnil
      refine hfrom hp [] ?_ rfl
      have hmem : ':' ∈ m.text := by simp [ht]
      have hplain : ∀ p ∈ [m.hostname, []], ':' ∉ p := by simp [m.plain.2]
      rw [Text.split_of_mem hmem, ht, List.splitOn_intercalate ':' hplain (List.cons_ne_nil _ _)]
      show ([m.hostname] ++ [[]]).rdropWhile _ = _
      rw [List.rdropWhile_concat_pos _ _ _ (by simp)]
      exact List.rdropWhile_concat_neg _ [] _ (by simpa using m.named)
    · refine hfrom hp [port] ?_ rfl
      rw [ht]
      refine Text.split_intercalate (List.cons_ne_nil _ _) ?_ (by simpa using hnil)
      intro p hmem
      rcases List.mem_cons.mp hmem with rfl | hmem
      · exact m.plain.2
      · rw [List.mem_singleton.mp hmem]
        exact hport

end ConfiguredMember

namespace Cluster

variable (cluster : Cluster)

/-- A member in the list, on this port. -/
def endpoint (hostname : Text) (port : ℤ) : Text := hostname ++ ':' :: (toString port).toList

/-- The port of a member in the list: the server's HTTP port, unless a positive
one is given. -/
def own (m : ConfiguredMember) : ℤ := if 0 < m.number then m.number else cluster.httpPort.toInt

/-- The port that is printed for it. -/
def shown (m : ConfiguredMember) : ℤ := (if 0 < m.member.port then m.member.port else cluster.httpPort).toInt

/-- The configured list. -/
def memberlist (ms : List ConfiguredMember) : Text := ([','] : Text).intercalate (ms.map ConfiguredMember.text)

/-- The list of members has the configured ones, each once and on its own port,
and is split into them again. -/
def Lists (ms : List ConfiguredMember) : Prop :=
  ∃ listed, listed.Perm (ms.map fun m => endpoint m.hostname (cluster.own m)) ∧
    cluster.getMemberList (some (memberlist ms)) = ([','] : Text).intercalate listed ∧
    Text.split ',' (cluster.getMemberList (some (memberlist ms))) = listed

variable {cluster}

theorem comma_not_mem_endpoint {hostname : Text} (h : ',' ∉ hostname) (port : ℤ) : ',' ∉ endpoint hostname port := by
  intro hmem
  rcases List.mem_append.mp hmem with hmem | hmem
  · exact h hmem
  · rcases List.mem_cons.mp hmem with hc | hmem
    · exact absurd hc (by decide)
    · rcases mem_toString hmem with hc | hc
      · exact absurd hc (by decide)
      · exact absurd hc (by decide)

/-- The colon ends the host. -/
theorem endpoint_inj {hostname hostname' : Text} {port port' : ℤ} (h : ':' ∉ hostname) (h' : ':' ∉ hostname')
    (he : endpoint hostname port = endpoint hostname' port') : hostname = hostname' ∧ port = port' := by
  obtain ⟨hhost, hport⟩ := Pieces.append_cons_inj h h' he
  exact ⟨hhost, toString_inj hport⟩

/-- The entries that the items put into the map. -/
def entriesOf (ms : List ConfiguredMember) : List (Text × ClusterMember) := ms.map fun m => (m.hostname, m.member)

theorem getStaticDefinedMembers_eq {ms : List ConfiguredMember} (hne : ms ≠ []) :
    getStaticDefinedMembers (some (memberlist ms)) = MemberMap.empty.putAll (entriesOf ms) := by
  have hsplit : Text.split ',' (memberlist ms) = ms.map ConfiguredMember.text := by
    refine Text.split_intercalate (by simpa using hne) (fun p hp => ?_) ?_
    · obtain ⟨m, -, rfl⟩ := List.mem_map.mp hp
      exact m.comma_not_mem_text
    · rw [List.getLast_map]
      exact ConfiguredMember.text_ne_nil _
  have hitems : (ms.map ConfiguredMember.text).filterMap (fun memberitem =>
      (memberOf memberitem).map fun member => (member.hostname, member)) = entriesOf ms := by
    rw [List.filterMap_map, entriesOf, ← List.filterMap_eq_map]
    congr 1
    funext m
    simp [ConfiguredMember.memberOf_text, ConfiguredMember.member]
  show MemberMap.empty.putAll ((Text.split ',' (memberlist ms)).filterMap _) = _
  rw [hsplit, hitems]

/-- What is printed for the members of a map, in its order. -/
def printed (cluster : Cluster) (m : MemberMap) : List Text :=
  (cluster.hashOrder m.entries).map fun e => cluster.memberText e.2

theorem buildMemberList_eq (m : MemberMap) : cluster.buildMemberList m = ([','] : Text).intercalate (cluster.printed m) := by
  rw [printed, ← flatMap_dropLast, List.flatMap_map]
  rfl

/-- The printed members are split apart again. -/
theorem split_printed {ms : List ConfiguredMember} (hne : ms ≠ []) :
    Text.split ',' (cluster.getMemberList (some (memberlist ms))) =
      cluster.printed (MemberMap.empty.putAll (entriesOf ms)) := by
  have hfrom : ∀ t ∈ cluster.printed (MemberMap.empty.putAll (entriesOf ms)), ∃ m ∈ ms,
      t = endpoint m.hostname (cluster.shown m) := by
    intro t ht
    obtain ⟨e, he, rfl⟩ := List.mem_map.mp ht
    have hmem := (MemberMap.mem_of_putAll ((cluster.perm _).mem_iff.mp he)).resolve_left List.not_mem_nil
    obtain ⟨m, hm, rfl⟩ := List.mem_map.mp hmem
    exact ⟨m, hm, rfl⟩
  have hprinted : cluster.printed (MemberMap.empty.putAll (entriesOf ms)) ≠ [] := by
    obtain ⟨m, rest, rfl⟩ := List.exists_cons_of_ne_nil hne
    have hkey : m.hostname ∈ (MemberMap.empty.putAll (entriesOf (m :: rest))).entries.map (·.1) :=
      MemberMap.mem_keys_putAll.mpr List.mem_cons_self
    obtain ⟨e, he, -⟩ := List.mem_map.mp hkey
    exact List.ne_nil_of_mem (List.mem_map_of_mem ((cluster.perm _).mem_iff.mpr he))
  rw [getMemberList, getStaticDefinedMembers_eq hne, buildMemberList_eq]
  refine Text.split_intercalate hprinted (fun t ht => ?_) ?_
  · obtain ⟨m, -, rfl⟩ := hfrom t ht
    exact comma_not_mem_endpoint m.plain.1 _
  · obtain ⟨m, -, hlast⟩ := hfrom _ (List.getLast_mem hprinted)
    rw [hlast]
    exact List.append_ne_nil_of_right_ne_nil _ (List.cons_ne_nil _ _)

/-- The number of the port is below 2^31; and where an `int` makes a positive one
of another number, that is the HTTP port. -/
def Fits (cluster : Cluster) (m : ConfiguredMember) : Prop :=
  m.number < 2 ^ 31 ∧
    (m.number ≤ 0 → 0 < m.number.bmod (2 ^ 32) → m.number.bmod (2 ^ 32) = cluster.httpPort.toInt)

/-- The member's port is the number, as an `int`. -/
theorem toInt_port (m : ConfiguredMember) : m.member.port.toInt = m.number.bmod (2 ^ 32) := by
  unfold ConfiguredMember.number ConfiguredMember.member Util.getInt
  cases m.port.bind Long.valueOf with
  | none => rfl
  | some k => exact Int64.toInt_toInt32 k

/-- A port is printed as it is given exactly if its number fits. -/
theorem shown_eq_own_iff {m : ConfiguredMember} : cluster.shown m = cluster.own m ↔ cluster.Fits m := by
  have hpositive : 0 < m.member.port ↔ 0 < m.number.bmod (2 ^ 32) := by
    rw [Int32.lt_iff_toInt_lt, toInt_port]
    rfl
  have hshown : cluster.shown m =
      if 0 < m.number.bmod (2 ^ 32) then m.number.bmod (2 ^ 32) else cluster.httpPort.toInt := by
    unfold shown
    simp only [hpositive]
    split
    · exact toInt_port m
    · rfl
  have hport : cluster.httpPort.toInt < 2 ^ 31 := Int32.toInt_lt _
  rw [hshown, own, Fits]
  by_cases hn : 0 < m.number
  · have hbelow : m.number.bmod (2 ^ 32) < 2 ^ 31 := by
      have h := Int.bmod_lt (x := m.number) (m := 2 ^ 32) (by decide)
      omega
    have hsame : m.number < 2 ^ 31 → m.number.bmod (2 ^ 32) = m.number :=
      fun h => Int.bmod_eq_of_le (by omega) (by omega)
    rw [if_pos hn]
    constructor
    · intro h
      refine ⟨?_, fun hle => absurd hn (by omega)⟩
      split at h
      · omega
      · omega
    · rintro ⟨hlt, -⟩
      rw [hsame hlt, if_pos hn]
  · rw [if_neg hn]
    constructor
    · intro h
      exact ⟨by omega, fun _ hpos => by rwa [if_pos hpos] at h⟩
    · rintro ⟨-, h⟩
      split
      · next hpos => exact h (by omega) hpos
      · rfl

/-- A list without items is one item without a host. -/
theorem not_lists_nil : ¬ cluster.Lists [] := by
  rintro ⟨listed, hperm, hlist, -⟩
  have he : (([], ⟨[], 0⟩) : Text × ClusterMember) ∈ (getStaticDefinedMembers (some (memberlist []))).entries :=
    List.mem_cons_self
  have hlisted := cluster.listed_buildMemberList he
  have hnil : cluster.buildMemberList (getStaticDefinedMembers (some (memberlist []))) = [] := by
    have hl : listed = [] := hperm.eq_nil
    rw [hl] at hlist
    exact hlist
  rw [hnil] at hlisted
  exact List.cons_ne_nil _ _ (eq_nil_of_listed hlisted)

/-- **The list has the configured members exactly if there are members, each on
a host of its own, and the numbers of the ports fit.** -/
theorem getMemberList_iff (cluster : Cluster) (ms : List ConfiguredMember) :
    cluster.Lists ms ↔
      ms ≠ [] ∧ (ms.map (·.hostname)).Nodup ∧ ∀ m ∈ ms, cluster.Fits m := by
  by_cases hne : ms = []
  · subst hne
    exact iff_of_false not_lists_nil fun h => h.1 rfl
  have hkeys : (entriesOf ms).map (·.1) = ms.map (·.hostname) := by
    rw [entriesOf, List.map_map]
    rfl
  have hsplit := @split_printed cluster ms hne
  constructor
  · rintro ⟨listed, hperm, -, hlisted⟩
    rw [hsplit] at hlisted
    subst hlisted
    -- as many are printed as there are items, so no host has two of them
    have hlen := hperm.length_eq
    rw [printed, List.length_map, (cluster.perm _).length_eq, List.length_map] at hlen
    have hnodup : (ms.map (·.hostname)).Nodup := by
      rw [← hkeys]
      refine MemberMap.nodup_of_length ?_
      rw [entriesOf, List.length_map]
      exact hlen.ge
    refine ⟨hne, hnodup, fun m hm => ?_⟩
    have hmem := hperm.mem_iff.mpr (List.mem_map_of_mem (f := fun m => endpoint m.hostname (cluster.own m)) hm)
    obtain ⟨e, he, htext⟩ := List.mem_map.mp hmem
    have hentry := (MemberMap.mem_of_putAll ((cluster.perm _).mem_iff.mp he)).resolve_left List.not_mem_nil
    obtain ⟨m', hm', rfl⟩ := List.mem_map.mp hentry
    obtain ⟨hhost, hport⟩ := endpoint_inj m'.plain.2 m.plain.2 htext
    rw [List.inj_on_of_nodup_map hnodup hm' hm hhost] at hport
    exact shown_eq_own_iff.mp hport
  · rintro ⟨-, hnodup, hports⟩
    have hentries : (MemberMap.empty.putAll (entriesOf ms)).entries.Perm (entriesOf ms) :=
      MemberMap.putAll_perm (by rwa [hkeys])
    refine ⟨cluster.printed (MemberMap.empty.putAll (entriesOf ms)), ?_, ?_, hsplit⟩
    · have hperm := ((cluster.perm _).trans hentries).map fun e => cluster.memberText e.2
      have hmap : (entriesOf ms).map (fun e => cluster.memberText e.2) =
          ms.map fun m => endpoint m.hostname (cluster.own m) := by
        rw [entriesOf, List.map_map]
        refine List.map_congr_left fun m hm => ?_
        rw [← shown_eq_own_iff.mpr (hports m hm)]
        rfl
      rwa [hmap] at hperm
    · rw [getMemberList, getStaticDefinedMembers_eq hne, buildMemberList_eq]

/-- A cluster whose map keeps the order of its entries. -/
def inOrder : Cluster := ⟨8080, id, List.Perm.refl⟩

/-- Two members on one host. -/
def sameHost : List ConfiguredMember :=
  [⟨"db".toList, some "1".toList, by decide, by decide, by decide⟩,
    ⟨"db".toList, some "2".toList, by decide, by decide, by decide⟩]

theorem not_getMemberList_sameHost :
    memberlist sameHost = "db:1,db:2".toList ∧ inOrder.getMemberList (some "db:1,db:2".toList) = "db:2".toList ∧
      ¬ inOrder.Lists sameHost := by
  have hconfigured : memberlist sameHost = "db:1,db:2".toList := by decide
  have hlist : inOrder.getMemberList (some "db:1,db:2".toList) = "db:2".toList := by decide
  refine ⟨hconfigured, hlist, ?_⟩
  rintro ⟨listed, hperm, -, hsplit⟩
  rw [hconfigured, hlist] at hsplit
  have hone : (Text.split ',' "db:2".toList).length = 1 := by decide
  rw [hsplit] at hone
  have htwo := hperm.length_eq
  rw [hone, List.length_map] at htwo
  exact absurd htwo (by decide)

end Cluster

end Plethora
