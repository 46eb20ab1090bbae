/-
# The processes of the system module

`SystemModule` keeps the ids of the processes that it found when it was made.
While one of them is 0, or there is none, every poke asks the mapper again: the
processes that it knows get the ids of the new map, or 0, and others are left
out until the server is restarted. A clock that has gone back puts a scan off.
Which pokes scan is settled by the state they find and the clock (`Due`), and
what the module knows of a process by the latest of them (`tracked_pokes`).

A metric of a process is registered under the process's name, a dot and the
type, and read by what stands before and after the first dot. So a process with
a dot in its name has metrics that are registered and not read.

Key definitions: `SystemModule.State`, `SystemModule.pokeModule`,
`SystemModule.Due`, `SystemModule.latestScan`, `SystemModule.Tracked`,
`SystemModule.access`.
Key theorems: `SystemModule.get_scanProcessMap`, `SystemModule.tracked_pokes`,
`SystemModule.getValue_metricName_iff`.
-/
import Plethora.Data.LocalModule
import Plethora.Lib.Pieces
import Plethora.Lib.Runs

namespace Plethora

/-- `ConcurrentHashMap<String, Long>`. -/
structure ProcessMap where
  entries : List (Text × Int64)
  nodup : (entries.map (·.1)).Nodup
  deriving DecidableEq

namespace ProcessMap

def get (m : ProcessMap) (name : Text) : Option Int64 := m.entries.lookup name

def containsKey (m : ProcessMap) (name : Text) : Bool := (m.get name).isSome

def put (m : ProcessMap) (name : Text) (pid : Int64) : ProcessMap :=
  ⟨Plethora.put name pid m.entries, nodup_keys_put m.nodup⟩

def keySet (m : ProcessMap) : List Text := m.entries.map (·.1)

def values (m : ProcessMap) : List Int64 := m.entries.map (·.2)

theorem get_put (m : ProcessMap) (name other : Text) (pid : Int64) :
    (m.put name pid).get other = if other = name then some pid else m.get other :=
  lookup_put name other pid m.entries

theorem mem_keySet {m : ProcessMap} {name : Text} : name ∈ m.keySet ↔ m.containsKey name = true := mem_keys_iff

end ProcessMap

namespace SystemModule

/-! ### Scans -/

structure State where
  pidMap : ProcessMap
  lastScanMillis : Int64 := 0

/-- No scan is too early: the field is never set. -/
def scanIntervalMillis : Int64 := 0

/-- A poke finds the clock and the mapper so. -/
structure Poke where
  currentTimeMillis : Int64
  map : ProcessMap

/-- `new SystemModule`, with the system access available. -/
def init (map : ProcessMap) : State := { pidMap := map }

def inValidProcs (s : State) : Bool := s.pidMap.entries.isEmpty || s.pidMap.values.contains 0

/-- The first pass: existing processes. -/
def updateExisting (entries : List (Text × Int64)) (pidMap : ProcessMap) : ProcessMap :=
  entries.foldl (fun pidMap entry => if pidMap.containsKey entry.1 then pidMap.put entry.1 entry.2 else pidMap) pidMap

/-- The second pass: the names that are gone. -/
def removeNames (newMap pidMap : ProcessMap) : List Text := pidMap.keySet.filter fun name => !newMap.containsKey name

/-- The third pass: removed processes. -/
def disable (names : List Text) (pidMap : ProcessMap) : ProcessMap :=
  names.foldl (fun pidMap name => pidMap.put name 0) pidMap

def scanProcessMap (newMap : ProcessMap) (s : State) : State :=
  let pidMap := updateExisting newMap.entries s.pidMap
  { s with pidMap := disable (removeNames newMap pidMap) pidMap }

def rescanProcessMap (p : Poke) (s : State) : State :=
  if scanIntervalMillis ≤ p.currentTimeMillis - s.lastScanMillis then
    scanProcessMap p.map { s with lastScanMillis := p.currentTimeMillis }
  else s

def pokeModule (s : State) (p : Poke) : State := if inValidProcs s then rescanProcessMap p s else s

theorem get_updateExisting (name : Text) : ∀ {entries : List (Text × Int64)} {pidMap : ProcessMap},
    (entries.map (·.1)).Nodup →
    (updateExisting entries pidMap).get name = (pidMap.get name).map fun pid => (entries.lookup name).getD pid
  | [], pidMap, _ => by simp [updateExisting]
  | (k, v) :: entries, pidMap, h => by
    rw [List.map_cons, List.nodup_cons] at h
    have ih := fun m => @get_updateExisting name entries m h.2
    have hcons : updateExisting ((k, v) :: entries) pidMap =
        updateExisting entries (if pidMap.containsKey k = true then pidMap.put k v else pidMap) := rfl
    rw [hcons, ih, List.lookup_cons]
    by_cases hname : name = k
    · subst hname
      have hnone : entries.lookup name = none := by
        rw [← Option.not_isSome_iff_eq_none, ← mem_keys_iff]
        exact h.1
      rw [beq_self_eq_true, hnone]
      by_cases hk : pidMap.containsKey name = true
      · obtain ⟨pid, hpid⟩ := Option.isSome_iff_exists.mp hk
        rw [if_pos hk, ProcessMap.get_put, if_pos rfl, hpid]
        rfl
      · have hget : pidMap.get name = none := by simpa [ProcessMap.containsKey] using hk
        rw [if_neg hk, hget]
        rfl
    · rw [beq_eq_false_iff_ne.mpr hname]
      by_cases hk : pidMap.containsKey k = true
      · rw [if_pos hk, ProcessMap.get_put, if_neg hname]
      · rw [if_neg hk]

theorem get_disable (name : Text) : ∀ {names : List Text} {pidMap : ProcessMap},
    (disable names pidMap).get name = if name ∈ names then some 0 else pidMap.get name
  | [], pidMap => by simp [disable]
  | k :: names, pidMap => by
    have hcons : disable (k :: names) pidMap = disable names (pidMap.put k 0) := rfl
    rw [hcons, get_disable name, ProcessMap.get_put]
    by_cases hname : name ∈ names
    · rw [if_pos hname, if_pos (List.mem_cons_of_mem _ hname)]
    · by_cases hk : name = k
      · rw [if_neg hname, if_pos hk, if_pos (hk ▸ List.mem_cons_self)]
      · have hnot : name ∉ k :: names := fun h => (List.mem_cons.mp h).elim hk hname
        rw [if_neg hname, if_neg hk, if_neg hnot]

/-- **What a scan leaves**: the names that were there, each with the id of the
new map, or 0. -/
theorem get_scanProcessMap (newMap : ProcessMap) (s : State) (name : Text) :
    (scanProcessMap newMap s).pidMap.get name = (s.pidMap.get name).map fun _ => (newMap.get name).getD 0 := by
  show (disable (removeNames newMap _) _).get name = _
  have hupdate := @get_updateExisting name newMap.entries s.pidMap newMap.nodup
  have hremove : name ∈ removeNames newMap (updateExisting newMap.entries s.pidMap) ↔
      (s.pidMap.get name).isSome = true ∧ newMap.get name = none := by
    unfold removeNames
    rw [List.mem_filter, ProcessMap.mem_keySet, ProcessMap.containsKey, hupdate, Option.isSome_map]
    simp [ProcessMap.containsKey]
  rw [get_disable, hupdate]
  cases hget : s.pidMap.get name with
  | none =>
    rw [if_neg]
    · rfl
    · rw [hremove, hget]
      simp
  | some pid =>
    rw [hget] at hremove
    cases hnew : newMap.get name with
    | none =>
      rw [if_pos (hremove.mpr ⟨rfl, hnew⟩)]
      rfl
    | some pid' =>
      have hlookup : newMap.entries.lookup name = some pid' := hnew
      rw [if_neg (by rw [hremove, hnew]; simp), hlookup]
      rfl

/-! ### Any number of pokes -/

/-- There is no process, or the id of one is 0. -/
def Invalid (m : ProcessMap) : Prop := m.entries = [] ∨ ∃ name, m.get name = some 0

/-- A poke is to scan: the map is invalid, and the clock has not gone back. -/
def Due (s : State) (p : Poke) : Prop :=
  Invalid s.pidMap ∧ scanIntervalMillis ≤ p.currentTimeMillis - s.lastScanMillis

theorem inValidProcs_iff {s : State} : inValidProcs s = true ↔ Invalid s.pidMap := by
  rw [inValidProcs, Bool.or_eq_true, List.isEmpty_iff, List.contains_iff_mem]
  refine or_congr_right ⟨fun h => ?_, fun ⟨name, h⟩ => ?_⟩
  · obtain ⟨⟨name, pid⟩, hmem, rfl⟩ := List.mem_map.mp h
    exact ⟨name, lookup_of_mem s.pidMap.nodup hmem⟩
  · exact List.mem_map_of_mem (mem_of_lookup h)

instance (s : State) (p : Poke) : Decidable (Due s p) :=
  decidable_of_iff (inValidProcs s = true ∧ scanIntervalMillis ≤ p.currentTimeMillis - s.lastScanMillis)
    (and_congr_left fun _ => inValidProcs_iff)

/-- What the mapper returned to the last poke that was to scan. -/
def latestScan (steps : List (State × Poke)) : Option ProcessMap :=
  ((steps.filter fun step => Due step.1 step.2).getLast?).map (·.2.map)

/-- The names are those of the first map, and each has the id that the latest
scan reported, or 0, or before any scan the one of the first map. -/
structure Tracked (first : ProcessMap) (latest : Option ProcessMap) (s : State) : Prop where
  names : ∀ name, s.pidMap.containsKey name = first.containsKey name
  unscanned : latest = none → ∀ name, s.pidMap.get name = first.get name
  scanned : ∀ map, latest = some map → ∀ name pid, s.pidMap.get name = some pid → pid = (map.get name).getD 0

theorem tracked_init (first : ProcessMap) : Tracked first none (init first) := ⟨fun _ => rfl, fun _ _ => rfl, nofun⟩

theorem tracked_scanProcessMap {first newMap : ProcessMap} {latest : Option ProcessMap} {s t : State}
    (h : Tracked first latest s) (ht : t.pidMap = s.pidMap) : Tracked first (some newMap) (scanProcessMap newMap t) where
  names name := by
    rw [← h.names name, ProcessMap.containsKey, get_scanProcessMap, Option.isSome_map, ht]
    rfl
  unscanned hnone := nomatch hnone
  scanned map hmap name pid hget := by
    obtain rfl := Option.some.inj hmap
    rw [get_scanProcessMap] at hget
    obtain ⟨old, -, hpid⟩ := Option.map_eq_some_iff.mp hget
    exact hpid.symm

theorem pokeModule_of_due {s : State} {p : Poke} (h : Due s p) :
    pokeModule s p = scanProcessMap p.map { s with lastScanMillis := p.currentTimeMillis } := by
  rw [pokeModule, if_pos (inValidProcs_iff.mpr h.1), rescanProcessMap, if_pos h.2]

theorem pokeModule_of_not_due {s : State} {p : Poke} (h : ¬ Due s p) : pokeModule s p = s := by
  unfold pokeModule rescanProcessMap
  by_cases hv : inValidProcs s = true
  · rw [if_pos hv, if_neg fun ht => h ⟨inValidProcs_iff.mp hv, ht⟩]
  · rw [if_neg hv]

/-- **Any number of pokes.** The module knows the processes that it was made
with by the latest poke that was to scan; and a poke that finds all their ids,
and some, or the clock gone back, leaves the module as it is. -/
theorem tracked_pokes (first : ProcessMap) (pokes : List Poke) :
    Tracked first (latestScan (stepsOf pokeModule (init first) pokes)) (pokes.foldl pokeModule (init first)) ∧
    ∀ step ∈ stepsOf pokeModule (init first) pokes, ¬ Due step.1 step.2 → pokeModule step.1 step.2 = step.1 := by
  refine ⟨?_, fun step _ hdue => pokeModule_of_not_due hdue⟩
  induction pokes using List.reverseRecOn with
  | nil => exact tracked_init first
  | append_singleton pokes p ih =>
    rw [stepsOf_concat, List.foldl_append]
    show Tracked first _ (pokeModule (pokes.foldl pokeModule (init first)) p)
    by_cases hdue : Due (pokes.foldl pokeModule (init first)) p
    · have hlatest : latestScan (stepsOf pokeModule (init first) pokes ++ [(pokes.foldl pokeModule (init first), p)]) =
          some p.map := by
        simp [latestScan, List.filter_append, hdue]
      rw [hlatest, pokeModule_of_due hdue]
      exact tracked_scanProcessMap ih rfl
    · have hlatest : latestScan (stepsOf pokeModule (init first) pokes ++ [(pokes.foldl pokeModule (init first), p)]) =
          latestScan (stepsOf pokeModule (init first) pokes) := by
        simp [latestScan, List.filter_append, hdue]
      rw [hlatest, pokeModule_of_not_due hdue]
      exact ih

/-- A process that is gone, and pokes that find it again and are told another
id. -/
def stopped : ProcessMap := ⟨[("db".toList, 0)], List.nodup_singleton _⟩

def restarted : Poke := ⟨1, ⟨[("db".toList, 9)], List.nodup_singleton _⟩⟩

def ignored : Poke := ⟨2, ⟨[("db".toList, 10)], List.nodup_singleton _⟩⟩

theorem tracked_pokes_restarted :
    Tracked stopped (some restarted.map) ([restarted, ignored].foldl pokeModule (init stopped)) ∧
    pokeModule (pokeModule (init stopped) restarted) ignored = pokeModule (init stopped) restarted := by
  obtain ⟨htracked, hsame⟩ := tracked_pokes stopped [restarted, ignored]
  have hlatest : latestScan (stepsOf pokeModule (init stopped) [restarted, ignored]) = some restarted.map := by decide
  rw [hlatest] at htracked
  have hsame := hsame (pokeModule (init stopped) restarted, ignored) (List.mem_cons_of_mem _ List.mem_cons_self)
  exact ⟨htracked, hsame (by decide)⟩

/-! ### The metrics of the processes -/

/-- What `getValue` asks the system for, if anything: the load of a process or,
without one, of the machine. -/
def access (pidMap : List (Text × Int64)) (metric : Text) : Option (SystemMetricType × Option Int64) :=
  let pair := getNameTypePair metric
  match pair.1, SystemMetricType.valueOf pair.2 with
  | some name, some type => (pidMap.lookup name).bind fun pid => if 0 < pid then some (type, some pid) else none
  | none, some type => some (type, none)
  | _, none => none

/-- The value is that of what is asked for, and null if nothing is. -/
theorem getValue_eq (pidMap : List (Text × Int64)) (getMetric : SystemMetricType → Option Int64 → Option Int64)
    (metric : Text) :
    getValue pidMap getMetric metric = (access pidMap metric).bind fun a => (getMetric a.1 a.2).map .long := by
  unfold getValue access
  obtain ⟨name, text⟩ := getNameTypePair metric
  dsimp only
  cases SystemMetricType.valueOf text with
  | none =>
    cases name with
    | none => rfl
    | some name => rfl
  | some type =>
    cases name with
    | none => rfl
    | some name =>
      dsimp only
      cases pidMap.lookup name with
      | none => rfl
      | some pid =>
        rw [Option.bind_some, Option.bind_some]
        by_cases h : 0 < pid
        · rw [if_pos h, if_pos h]
          rfl
        · rw [if_neg h, if_neg h]
          rfl

theorem dot_not_mem_name : ∀ type : SystemMetricType, '.' ∉ type.name
  | .cpu | .memory => by decide

theorem valueOf_name : ∀ type : SystemMetricType, SystemMetricType.valueOf type.name = some type
  | .cpu | .memory => by decide

/-- No type has a dot in its name. -/
theorem valueOf_of_dot {name : Text} (h : '.' ∈ name) : SystemMetricType.valueOf name = none := by
  unfold SystemMetricType.valueOf
  rw [List.find?_eq_none]
  intro type _ htype
  have hname : type.name = name := of_decide_eq_true htype
  exact dot_not_mem_name type (hname ▸ h)

/-- The first dot parts a text, unless it comes first. -/
theorem getNameTypePair_append {before after : Text} (hdot : '.' ∉ before) :
    getNameTypePair (before ++ '.' :: after) =
      if before = [] then (none, before ++ '.' :: after) else (some before, after) := by
  have hmem : '.' ∈ before ++ '.' :: after := List.mem_append_right _ List.mem_cons_self
  have hdrop : (before ++ '.' :: after).drop (before.length + 1) = after := by
    rw [← List.drop_drop, List.drop_left]
    rfl
  unfold getNameTypePair
  rw [Pieces.takeWhile_append_cons hdot]
  dsimp only
  rw [hdrop]
  by_cases hb : before = []
  · rw [if_pos hb, if_neg fun h => h.1 hb]
  · rw [if_neg hb, if_pos ⟨hb, hmem⟩]

variable {name : Text} {type : SystemMetricType}

/-- What comes after the first of two dots is no type. -/
theorem valueOf_getNameTypePair (hdot : '.' ∈ name) :
    SystemMetricType.valueOf (getNameTypePair (metricName name type)).2 = none := by
  obtain ⟨before, after, rfl, hbefore⟩ := List.eq_append_cons_of_mem hdot
  have hname : metricName (before ++ '.' :: after) type = before ++ '.' :: (after ++ '.' :: type.name) :=
    List.append_assoc ..
  rw [hname, getNameTypePair_append hbefore]
  by_cases hb : before = []
  · rw [if_pos hb]
    exact valueOf_of_dot (List.mem_append_right _ List.mem_cons_self)
  · rw [if_neg hb]
    exact valueOf_of_dot (List.mem_append_right _ List.mem_cons_self)

variable {pidMap : List (Text × Int64)} {pid : Int64}

/-- The metric of a process is read from that process, if its name has no dot
and its id is known, and from nothing otherwise. -/
theorem access_metricName (type : SystemMetricType) (hne : name ≠ []) (hpid : pidMap.lookup name = some pid) :
    access pidMap (metricName name type) = if '.' ∉ name ∧ 0 < pid then some (type, some pid) else none := by
  unfold access
  by_cases hdot : '.' ∈ name
  · rw [if_neg fun h => h.1 hdot]
    simp only [valueOf_getNameTypePair hdot]
  · have hpair : getNameTypePair (metricName name type) = (some name, type.name) := by
      rw [metricName, getNameTypePair_append hdot, if_neg hne]
    simp only [hpair, valueOf_name, hpid, Option.bind_some, hdot, not_false_eq_true, true_and]

theorem metricName_mem_discoverMetrics (hpid : pidMap.lookup name = some pid) :
    metricName name type ∈ (discoverMetrics pidMap).map (·.1) := by
  rw [discoverMetrics, List.map_append, List.mem_append, List.map_flatMap, List.mem_flatMap]
  refine Or.inr ⟨(name, pid), mem_of_lookup hpid, ?_⟩
  cases type with
  | cpu => exact List.mem_cons_self
  | memory => exact List.mem_cons_of_mem _ List.mem_cons_self

/-- **A metric of a process is read exactly if the name has no dot**, or there
is nothing to read. -/
theorem getValue_metricName_iff (getMetric : SystemMetricType → Option Int64 → Option Int64) (hne : name ≠ [])
    (hpid : pidMap.lookup name = some pid) :
    (metricName name type ∈ (discoverMetrics pidMap).map (·.1) ∧
      getValue pidMap getMetric (metricName name type) =
        (if 0 < pid then (getMetric type (some pid)).map .long else none) ∧
      ∀ a, access pidMap (metricName name type) = some a → a = (type, some pid)) ↔
    '.' ∉ name ∨ ¬ 0 < pid ∨ getMetric type (some pid) = none := by
  have haccess := access_metricName type hne hpid
  have honly : ∀ a, access pidMap (metricName name type) = some a → a = (type, some pid) := by
    intro a ha
    rw [haccess] at ha
    exact (Option.some.inj (Option.ite_none_right_eq_some.mp ha).2).symm
  rw [and_iff_right (metricName_mem_discoverMetrics hpid), and_iff_left honly, getValue_eq, haccess]
  by_cases hpos : 0 < pid
  · by_cases hdot : '.' ∈ name
    · rw [if_neg fun h => h.1 hdot, if_pos hpos]
      simp [hdot, hpos, eq_comm]
    · rw [if_pos ⟨hdot, hpos⟩, if_pos hpos]
      exact iff_of_true rfl (Or.inl hdot)
  · rw [if_neg fun h => hpos h.2, if_neg hpos]
    exact iff_of_true rfl (Or.inr (Or.inl hpos))

theorem getValue_metricName_db :
    getValue [("db".toList, 7)] (fun _ pid => pid) (metricName "db".toList .cpu) = some (.long 7) :=
  ((@getValue_metricName_iff "db".toList .cpu [("db".toList, 7)] 7 (fun _ pid => pid) (by decide) rfl).mpr
    (Or.inl (by decide))).2.1

/-- A process with a dot in its name. -/
theorem not_getValue_metricName_dotted :
    metricName "db.main".toList .cpu ∈ (discoverMetrics [("db.main".toList, 7)]).map (·.1) ∧
    getValue [("db.main".toList, 7)] (fun _ pid => pid) (metricName "db.main".toList .cpu) = none ∧
    getValue [("db.main".toList, 7)] (fun _ pid => pid) (metricName "db.main".toList .cpu) ≠
      (if (0 : Int64) < 7 then (some 7).map .long else none) := by
  decide

end SystemModule

end Plethora
