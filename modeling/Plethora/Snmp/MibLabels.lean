/-
# The MIB as a tree of labels

A line of the MIB hangs from another by its label: what is in front of
`OBJECT IDENTIFIER`, or of `OBJECT-TYPE` in a section, is the label, and between
the braces are the parent and the number. Object identifier lines show the names
they are given, except for the template's own labels in them, and sections the
descriptors of theirs.

`LabelsLinkUp` says for which configurations and registries what is written is a
tree that leads from each section to the OID its metric is served at. The path
of the enterprise has to name each number once, and a module that has metrics
has to be its own descriptor and to share it with no line before them. Whether
the text reads as what was written is another matter (`MibText`).

Key definitions: `showLine`, `showSection`, `SnmpAgent.EntriesLink`,
`SnmpAgent.LabelsLinkUp`.
Key theorems: `contents_eq`, `pathLinks_iff`, `entriesLink_iff`.
-/
import Plethora.Lib.Labels
import Plethora.Snmp.Mib
import Mathlib.Data.List.Induction

namespace Plethora

open Labels Template MIBEngine

/-! ### What the text shows -/

/-- The line an entry becomes. -/
def OidEntry.line (e : OidEntry) : Line Text where
  label := oidLabel e.name e.parent e.id
  parent := oidParent e.parent e.id
  id := e.id

def MetricEntry.line (e : MetricEntry) : Line Text where
  label := validDescriptor e.name
  parent := validDescriptor e.parent
  id := e.id

def showLine (l : Line Text) : Text :=
  l.label ++ (IDENTIFIER ++ (l.parent ++ (" ".toList ++ (valueOf l.id ++ "\x7d\n".toList))))

def showSection (l : Line Text) (syntx description : Text) : Text :=
  l.label ++ (OBJECT_TYPE ++ (syntx ++ CLAUSES)) ++ (description ++ (ASSIGNMENT ++
    (l.parent ++ (" ".toList ++ (valueOf l.id ++ "\x7d\n\n".toList)))))

namespace MIBEngine

variable (engine : MIBEngine)

theorem transformLine_eq (e : OidEntry) : transformLine e = showLine e.line := transformOidLine_eq ..

/-- The description, with the template's labels in it replaced. -/
def description (e : MetricEntry) : Text :=
  shownDescription (if e.properties.description = [] then "Metric for ".toList ++ e.name
    else e.properties.description) e.parent e.id

theorem transformMetric_eq {e : MetricEntry} (h : '<' ∉ e.syntx) :
    transformMetric e = showSection e.line e.syntx (description e) :=
  transformSection_eq h ..

/-- The text, line by line and section by section. -/
theorem contents_eq (date : Text) (lines : List OidEntry) {sections : List MetricEntry}
    (h : ∀ e ∈ sections, ∃ m, engine.Describes e m) : engine.contents date lines sections =
      Transformer.transformHeaderSection engine.productName date engine.mibUrl ++
        (lines.map OidEntry.line).flatMap showLine ++ EOL ++
        sections.flatMap (fun e => showSection e.line e.syntx (description e)) ++ END_LINE := by
  have hl : lines.flatMap transformLine = (lines.map OidEntry.line).flatMap showLine := by
    rw [List.flatMap_map]
    exact List.flatMap_congr fun e _ => transformLine_eq e
  have hs : sections.flatMap transformMetric =
      sections.flatMap fun e => showSection e.line e.syntx (description e) := by
    refine List.flatMap_congr fun e he => ?_
    obtain ⟨m, hm⟩ := h e he
    exact transformMetric_eq (syntax_plain hm.syntx).1
  rw [contents, hl, hs]

/-! ### The entries' numbers -/

theorem mapM_integerValueOf : ∀ {numbers ns : List ℕ}, numbers.mapM integerValueOf = .ok ns → ns = numbers
  | [], ns, h => by
    cases h
    rfl
  | n :: numbers, ns, h => by
    rw [List.mapM_cons] at h
    unfold integerValueOf at h
    by_cases hn : n < 2 ^ 31
    · rw [if_pos hn] at h
      change (numbers.mapM integerValueOf >>= _) = _ at h
      obtain ⟨ms, hm, h⟩ := bind_eq_ok.mp h
      cases h
      rw [mapM_integerValueOf hm]
    · rw [if_neg hn] at h
      cases h

theorem makeOidMap_eq {numbers : List ℕ} {names : List Text} {oidMap : List (ℕ × Text)}
    (h : makeOidMap numbers names = .ok oidMap) : oidMap = named numbers names := by
  obtain ⟨ns, hm, h⟩ := bind_eq_ok.mp h
  cases h
  rw [mapM_integerValueOf hm]

theorem named_keys (numbers : List ℕ) (names : List Text) :
    (named numbers names).map (·.1) = numbers.drop MIB_OID_COMMON_ROOT_COUNT := by
  unfold named
  rw [List.map_map, List.map_drop]
  congr 1
  exact List.zipIdx_map_fst 0 numbers

theorem oidEntries_ids (oidMap : List (ℕ × Text)) : ∀ (keys : List ℕ) (parent : Text),
    (oidEntries oidMap parent keys).map (·.id) = keys
  | [], _ => rfl
  | key :: keys, parent => by
    rw [oidEntries, List.map_cons, oidEntries_ids oidMap keys]

theorem buildModules_ids (parent : Text) : ∀ (modules : List Text) (id : ℕ),
    (buildModules parent modules id).map (·.id) = List.range' id modules.length
  | [], _ => rfl
  | module :: modules, id => by
    rw [buildModules, List.map_cons, buildModules_ids parent modules, List.length_cons, List.range'_succ]

theorem buildModules_dropLast (parent : Text) : ∀ (modules : List Text) (id : ℕ),
    (buildModules parent modules id).dropLast = buildModules parent modules.dropLast id
  | [], _ => rfl
  | [_], _ => rfl
  | module :: module' :: modules, id => by
    have ih := buildModules_dropLast parent (module' :: modules) (id + 1)
    rw [List.dropLast_cons_cons, buildModules, buildModules, List.dropLast_cons_cons, buildModules, ← ih]
    rfl

/-- A name that holds none of the template's labels is its own label. -/
theorem oidLabel_eq {name : Text} (h : '<' ∉ name) (parent : Text) (id : ℕ) : oidLabel name parent id = name := by
  have hP : PARENT ∈ labels := by decide
  have hI : ID ∈ labels := by decide
  rw [oidLabel, Replace.replace_of_not_mem (label_head _ hP).1 h, Replace.replace_of_not_mem (label_head _ hI).1 h]

theorem oidParent_eq {parent : Text} (h : '<' ∉ parent) (id : ℕ) : oidParent parent id = parent := by
  have hI : ID ∈ labels := by decide
  rw [oidParent, Replace.replace_of_not_mem (label_head _ hI).1 h]

/-! ### The names on the path -/

theorem named_eq_zip {numbers : List ℕ} {names : List Text} (h : names.length = numbers.length) :
    named numbers names =
      (numbers.drop MIB_OID_COMMON_ROOT_COUNT).zip (names.drop MIB_OID_COMMON_ROOT_COUNT) := by
  have hz : numbers.zipIdx.map (fun p => (p.1, names.getD p.2 MIB_OID_NAME_DEFAULT)) =
      numbers.zip names := by
    refine List.ext_getElem (by simp [h]) fun i h1 h2 => ?_
    have hi : i < names.length := by
      rw [List.length_map, List.length_zipIdx] at h1
      omega
    simp [List.getElem?_eq_getElem hi]
  have hd : named numbers names = (numbers.zip names).drop MIB_OID_COMMON_ROOT_COUNT := by
    rw [← hz, ← List.map_drop]
    rfl
  rw [hd]
  exact List.drop_zipWith

/-- A path with different numbers shows its names. -/
theorem oidNames_eq {numbers : List ℕ} {names : List Text} (h : names.length = numbers.length)
    (hn : numbers.Nodup) : numbers.map (oidName (numbers.zip names)) = names := by
  refine List.ext_getElem (by simp [h]) fun i h1 h2 => ?_
  have hi : i < (numbers.zip names).length := by
    rw [List.length_map] at h1
    simp [h1, h2]
  have hmem : ((numbers.zip names)[i]) ∈ (numbers.zip names).reverse := List.mem_reverse.mpr (List.getElem_mem hi)
  rw [List.getElem_zip] at hmem
  have hkeys : ((numbers.zip names).reverse.map (·.1)).Nodup := by
    rw [List.map_reverse, List.nodup_reverse, List.map_fst_zip (by omega)]
    exact hn
  rw [List.getElem_map, oidName, lookup_of_mem hkeys hmem, Option.getD_some]

theorem lastParent_concat (oidMap : List (ℕ × Text)) (parent : Text) (keys : List ℕ) (key : ℕ) :
    lastParent oidMap parent (keys ++ [key]) = oidName oidMap key := by
  rw [lastParent, List.getLast?_concat]

theorem lastParent_cons (oidMap : List (ℕ × Text)) (parent : Text) (keys : List ℕ) (key : ℕ) :
    lastParent oidMap parent (key :: keys) = lastParent oidMap (oidName oidMap key) keys := by
  rw [lastParent, lastParent, List.getLast?_cons]
  cases keys.getLast? <;> rfl

theorem oidEntries_concat (oidMap : List (ℕ × Text)) (key : ℕ) : ∀ (keys : List ℕ) (parent : Text),
    oidEntries oidMap parent (keys ++ [key]) =
      oidEntries oidMap parent keys ++ [⟨oidName oidMap key, lastParent oidMap parent keys, key⟩]
  | [], _ => rfl
  | key' :: keys, parent => by
    rw [List.cons_append, oidEntries, oidEntries, oidEntries_concat oidMap key keys, List.cons_append,
      lastParent_cons]

section Path

variable {oidMap : List (ℕ × Text)} (hlt : ∀ key, '<' ∉ oidName oidMap key)
include hlt

theorem path_labels : ∀ (keys : List ℕ) (parent : Text),
    ((oidEntries oidMap parent keys).map OidEntry.line).map (·.label) = keys.map (oidName oidMap)
  | [], _ => rfl
  | key :: keys, parent => by
    rw [oidEntries, List.map_cons, List.map_cons, path_labels keys, OidEntry.line, oidLabel_eq (hlt key),
      List.map_cons]

theorem path_chain_iff (keys : List ℕ) : ∀ id, Chain MIB_OID_ENTERPRISE_NAME
    ((oidEntries oidMap MIB_OID_ENTERPRISE_NAME keys).map OidEntry.line).reverse
      (oidParent (lastParent oidMap MIB_OID_ENTERPRISE_NAME keys) id) ↔
    ∀ key ∈ keys, oidName oidMap key ≠ MIB_OID_ENTERPRISE_NAME := by
  induction keys using List.reverseRecOn with
  | nil =>
    intro id
    exact iff_of_true (oidParent_eq (show '<' ∉ MIB_OID_ENTERPRISE_NAME by decide) id) nofun
  | append_singleton keys key ih =>
    intro id
    rw [oidEntries_concat, List.map_append, List.map_singleton, List.reverse_append, List.reverse_singleton,
      lastParent_concat, oidParent_eq (hlt key)]
    have hlabel : (OidEntry.line ⟨oidName oidMap key, lastParent oidMap MIB_OID_ENTERPRISE_NAME keys, key⟩).label =
        oidName oidMap key := oidLabel_eq (hlt key) ..
    rw [List.singleton_append, Chain, hlabel]
    have ih := ih key
    constructor
    · rintro ⟨hne, -, hchain⟩ k hk
      rcases List.mem_append.mp hk with hk | hk
      · exact ih.mp hchain k hk
      · rw [List.mem_singleton.mp hk]
        exact hne
    · intro h
      exact ⟨h key (by simp), rfl, ih.mpr fun k hk => h k (List.mem_append_left _ hk)⟩

end Path

end MIBEngine

/-! ### The agent's lines -/

namespace SnmpAgent

variable (agent : SnmpAgent)

/-- What `enterprises` stands for. -/
def enterprisesOid : List ℕ := [1, 3, 6, 1, 4, 1]

def oidMap : List (ℕ × Text) := named agent.enterprise.arcs agent.oidNames

def oidList : List ℕ := agent.oidMap.map (·.1)

/-- The lines of the enterprise OID. -/
def pathLines : List (Line Text) :=
  (oidEntries agent.oidMap MIB_OID_ENTERPRISE_NAME agent.oidList).map OidEntry.line

/-- The line of the metrics subtree. -/
def topLine : Line Text :=
  OidEntry.line ⟨MIB_OID_PLETHORA_SUBTREE_ROOT, lastParent agent.oidMap MIB_OID_ENTERPRISE_NAME agent.oidList, 1⟩

/-- The label of a module's line. -/
def moduleLabel (m : ℕ) (module : Text) : Text := oidLabel module MIB_OID_PLETHORA_SUBTREE_ROOT m

def moduleLines : List (Line Text) :=
  (buildModules MIB_OID_PLETHORA_SUBTREE_ROOT agent.metricService.moduleList 1).map OidEntry.line

theorem oidLines_eq : (agent.mibEngine.oidLines agent.oidMap).map OidEntry.line =
    agent.pathLines ++ agent.topLine :: agent.moduleLines := by
  simp only [oidLines, List.map_append, List.map_cons]
  rfl

/-- Every parent is the label of one line before, and a section's parents lead
to the OID its metric is served at. -/
structure EntriesLink (sections : List MetricEntry) : Prop where
  linked : Linked MIB_OID_ENTERPRISE_NAME []
    ((agent.mibEngine.oidLines agent.oidMap).map OidEntry.line ++ sections.map MetricEntry.line)
  leads : ∀ before e after, sections = before ++ e :: after →
    (resolve MIB_OID_ENTERPRISE_NAME ((before.map MetricEntry.line).reverse ++
        ((agent.mibEngine.oidLines agent.oidMap).map OidEntry.line).reverse) e.line.parent).map
      (fun arcs => enterprisesOid ++ (arcs ++ [e.id])) = some (agent.metricOid e.moduleId e.id).arcs

/-- Each name on the path is read where it is used as it is where it is
defined, there are no two alike, and none is `enterprises`. -/
structure PathLinks : Prop where
  chain : Chain MIB_OID_ENTERPRISE_NAME agent.pathLines.reverse agent.topLine.parent
  nodup : (agent.pathLines.map (·.label)).Nodup

/-- The module's line is found from its metrics' sections: it shows the
module's descriptor, and no other line does that comes before. -/
structure ModuleLinks (m : ℕ) (module : Text) : Prop where
  shown : moduleLabel m module = validDescriptor module
  not_root : validDescriptor module ≠ MIB_OID_ENTERPRISE_NAME
  not_top : validDescriptor module ≠ MIB_OID_PLETHORA_SUBTREE_ROOT
  not_path : validDescriptor module ∉ agent.pathLines.map (·.label)
  not_module : ∀ m' module', agent.metricService.moduleAt m' = some module' → m' ≠ m →
    moduleLabel m' module' ≠ validDescriptor module

/-- The metrics subtree's line is found from the modules' lines. -/
structure SubtreeLinks : Prop where
  not_path : MIB_OID_PLETHORA_SUBTREE_ROOT ∉ agent.pathLines.map (·.label)
  not_module : ∀ m module, agent.metricService.moduleAt m = some module → m ≠ agent.metricService.moduleList.length →
    moduleLabel m module ≠ MIB_OID_PLETHORA_SUBTREE_ROOT

/-- The configurations and registries whose MIB is a tree. -/
structure LabelsLinkUp : Prop where
  subtree : agent.metricService.moduleList ≠ [] → agent.SubtreeLinks
  path : (∃ module ∈ agent.metricService.moduleList, agent.metricService.metricList module ≠ []) →
    agent.enterprise.arcs.take MIB_OID_COMMON_ROOT_COUNT = enterprisesOid ∧ agent.PathLinks
  /-- Without a section the path only has to hang together. -/
  path_only : (∀ module ∈ agent.metricService.moduleList, agent.metricService.metricList module = []) →
    Linked MIB_OID_ENTERPRISE_NAME [] (agent.pathLines ++ [agent.topLine])
  module : ∀ m module, agent.metricService.moduleAt m = some module → agent.metricService.metricList module ≠ [] →
    agent.ModuleLinks m module
  /-- No metric takes the descriptor of its own module or a later one, before
  another section of that module. -/
  metric : (agent.mibEngine.numbered agent.metricService.moduleList 1).Pairwise fun p q =>
    validDescriptor p.2.2 ≠ validDescriptor q.2.1

theorem subtree_ne_root : MIB_OID_PLETHORA_SUBTREE_ROOT ≠ MIB_OID_ENTERPRISE_NAME := by decide

theorem topLine_label : agent.topLine.label = MIB_OID_PLETHORA_SUBTREE_ROOT :=
  oidLabel_eq (show '<' ∉ MIB_OID_PLETHORA_SUBTREE_ROOT by decide) ..

theorem pathLines_ids : agent.pathLines.map (·.id) = agent.enterprise.arcs.drop MIB_OID_COMMON_ROOT_COUNT := by
  rw [pathLines, List.map_map]
  show (oidEntries agent.oidMap MIB_OID_ENTERPRISE_NAME agent.oidList).map (·.id) = _
  rw [oidEntries_ids, oidList, oidMap, named_keys]

theorem moduleLines_ids : agent.moduleLines.map (·.id) = List.range' 1 agent.metricService.moduleList.length := by
  rw [moduleLines, List.map_map]
  exact buildModules_ids ..

theorem moduleLines_nodup : agent.moduleLines.Nodup :=
  List.Nodup.of_map (·.id) (by rw [moduleLines_ids]; exact List.nodup_range')

theorem mem_moduleLines {l : Line Text} : l ∈ agent.moduleLines ↔ ∃ m module,
    agent.metricService.moduleAt m = some module ∧ l = ⟨moduleLabel m module, MIB_OID_PLETHORA_SUBTREE_ROOT, m⟩ := by
  have hp : ∀ id, oidParent MIB_OID_PLETHORA_SUBTREE_ROOT id = MIB_OID_PLETHORA_SUBTREE_ROOT :=
    fun id => oidParent_eq (by decide) id
  rw [moduleLines, List.mem_map]
  constructor
  · rintro ⟨⟨name, parent, id⟩, he, rfl⟩
    obtain ⟨rfl, j, rfl, hj⟩ := mem_buildModules.mp he
    exact ⟨1 + j, name, nth_eq_some.mpr ⟨j, rfl, hj⟩, by rw [OidEntry.line, hp, moduleLabel]⟩
  · rintro ⟨m, module, hm, rfl⟩
    obtain ⟨j, rfl, hj⟩ := nth_eq_some.mp hm
    exact ⟨⟨module, MIB_OID_PLETHORA_SUBTREE_ROOT, 1 + j⟩, mem_buildModules.mpr ⟨rfl, j, rfl, hj⟩,
      by rw [OidEntry.line, hp, moduleLabel]⟩

theorem moduleLines_parent {l : Line Text} (h : l ∈ agent.moduleLines) :
    l.parent = MIB_OID_PLETHORA_SUBTREE_ROOT := by
  obtain ⟨m, module, -, rfl⟩ := agent.mem_moduleLines.mp h
  rfl

/-- The subtree's name, where a module's line comes after it. -/
theorem dropLast_moduleLines : (∀ l ∈ agent.moduleLines.dropLast, l.label ≠ MIB_OID_PLETHORA_SUBTREE_ROOT) ↔
    ∀ m module, agent.metricService.moduleAt m = some module → m ≠ agent.metricService.moduleList.length →
      moduleLabel m module ≠ MIB_OID_PLETHORA_SUBTREE_ROOT := by
  rw [moduleLines, ← List.map_dropLast, buildModules_dropLast, List.forall_mem_map]
  constructor
  · intro h m module hm hlast
    obtain ⟨j, rfl, hj⟩ := nth_eq_some.mp hm
    have hlt := (List.getElem?_eq_some_iff.mp hj).1
    refine h ⟨module, MIB_OID_PLETHORA_SUBTREE_ROOT, 1 + j⟩ (mem_buildModules.mpr ⟨rfl, j, rfl, ?_⟩)
    rw [List.getElem?_dropLast, if_pos (by omega)]
    exact hj
  · rintro h ⟨name, parent, id⟩ he
    obtain ⟨rfl, j, rfl, hj⟩ := mem_buildModules.mp he
    rw [List.getElem?_dropLast] at hj
    split at hj
    · exact h (1 + j) name (nth_eq_some.mpr ⟨j, rfl, hj⟩) (by omega)
    · cases hj

theorem subtree_iff : Linked MIB_OID_ENTERPRISE_NAME (agent.topLine :: agent.pathLines.reverse) agent.moduleLines ↔
    (agent.metricService.moduleList ≠ [] → agent.SubtreeLinks) := by
  have hnil : agent.moduleLines ≠ [] ↔ agent.metricService.moduleList ≠ [] := by
    rw [← List.length_pos_iff, ← List.length_pos_iff, ← List.length_map (·.id), moduleLines_ids, List.length_range']
  have hdefs : defs (agent.topLine :: agent.pathLines.reverse) MIB_OID_PLETHORA_SUBTREE_ROOT = 1 ↔
      MIB_OID_PLETHORA_SUBTREE_ROOT ∉ agent.pathLines.map (·.label) := by
    rw [defs_cons_self agent.topLine_label, Nat.add_eq_right, defs_eq_zero, List.mem_map, not_exists]
    simp only [List.mem_reverse, not_and]
  rw [linked_siblings_iff subtree_ne_root fun l hl => agent.moduleLines_parent hl, hnil, hdefs,
    dropLast_moduleLines]
  exact forall_congr' fun _ => ⟨fun h => ⟨h.1, h.2⟩, fun h => ⟨h.not_path, h.not_module⟩⟩

/-- The numbers of the path. -/
theorem chain_pathLines_iff : Chain MIB_OID_ENTERPRISE_NAME agent.pathLines.reverse agent.topLine.parent ↔
    resolve MIB_OID_ENTERPRISE_NAME agent.pathLines.reverse agent.topLine.parent =
      some (agent.enterprise.arcs.drop MIB_OID_COMMON_ROOT_COUNT) := by
  rw [← pathLines_ids]
  constructor
  · intro h
    rw [resolve_chain h, List.map_reverse, List.reverse_reverse]
  · intro h
    exact chain_iff.mpr ⟨_, h, by rw [List.length_map, List.length_reverse]⟩

theorem exists_line {m : ℕ} {module : Text} (hm : agent.metricService.moduleAt m = some module) :
    (⟨moduleLabel m module, MIB_OID_PLETHORA_SUBTREE_ROOT, m⟩ : Line Text) ∈ agent.moduleLines :=
  agent.mem_moduleLines.mpr ⟨m, module, hm, rfl⟩

/-- The lines of the modules, and those before them. -/
theorem defs_lines (x : Text) : defs (agent.moduleLines.reverse ++ agent.topLine :: agent.pathLines.reverse) x =
    defs agent.moduleLines x + defs (agent.topLine :: agent.pathLines.reverse) x := by
  rw [defs_append, defs, List.countP_reverse, ← defs]

theorem defs_base_iff (x : Text) : defs (agent.topLine :: agent.pathLines.reverse) x = 0 ↔
    x ≠ MIB_OID_PLETHORA_SUBTREE_ROOT ∧ x ∉ agent.pathLines.map (·.label) := by
  rw [defs_eq_zero, List.forall_mem_cons, topLine_label, List.mem_map, not_exists]
  simp only [List.mem_reverse, not_and]
  exact and_congr_left fun _ => ne_comm

/-- A module's label is found by the numbers of the path, and the module's. -/
theorem resolve_module_iff {x : Text} {m : ℕ} (hsub : agent.SubtreeLinks) (hx : x ≠ MIB_OID_ENTERPRISE_NAME) :
    resolve MIB_OID_ENTERPRISE_NAME (agent.moduleLines.reverse ++ agent.topLine :: agent.pathLines.reverse) x =
      some (agent.enterprise.arcs.drop MIB_OID_COMMON_ROOT_COUNT ++ [1, m]) ↔
    (∃ l, agent.moduleLines.reverse.find? (·.label = x) = some l ∧ l.id = m) ∧
      Chain MIB_OID_ENTERPRISE_NAME agent.pathLines.reverse agent.topLine.parent := by
  have hp : ∀ l ∈ agent.moduleLines.reverse, l.parent = MIB_OID_PLETHORA_SUBTREE_ROOT :=
    fun l hl => agent.moduleLines_parent (List.mem_reverse.mp hl)
  have ht : ∀ l ∈ agent.moduleLines.reverse.tail, l.label ≠ MIB_OID_PLETHORA_SUBTREE_ROOT := by
    rw [List.tail_reverse]
    exact fun l hl => agent.dropLast_moduleLines.mpr hsub.not_module l (List.mem_reverse.mp hl)
  have hP : (agent.enterprise.arcs.drop MIB_OID_COMMON_ROOT_COUNT).length = agent.pathLines.reverse.length := by
    rw [← pathLines_ids, List.length_map, List.length_reverse]
  rw [chain_pathLines_iff]
  exact resolve_sibling_iff subtree_ne_root hp ht agent.topLine_label hP hx

/-- What a section's parent has to be found by, the module of which it is
under. -/
theorem module_iff {m : ℕ} {module : Text} (hm : agent.metricService.moduleAt m = some module)
    (hsub : agent.SubtreeLinks) :
    (validDescriptor module ≠ MIB_OID_ENTERPRISE_NAME ∧
      defs (agent.moduleLines.reverse ++ agent.topLine :: agent.pathLines.reverse) (validDescriptor module) = 1 ∧
      resolve MIB_OID_ENTERPRISE_NAME (agent.moduleLines.reverse ++ agent.topLine :: agent.pathLines.reverse)
        (validDescriptor module) = some (agent.enterprise.arcs.drop MIB_OID_COMMON_ROOT_COUNT ++ [1, m])) ↔
    agent.ModuleLinks m module ∧
      Chain MIB_OID_ENTERPRISE_NAME agent.pathLines.reverse agent.topLine.parent := by
  have hline := agent.exists_line hm
  constructor
  · rintro ⟨hroot, h1, h⟩
    obtain ⟨⟨l, hf, hid⟩, hchain⟩ := (agent.resolve_module_iff hsub hroot).mp h
    have hlabel : l.label = validDescriptor module := by simpa using List.find?_some hf
    have hl := List.mem_reverse.mp (List.mem_of_find?_eq_some hf)
    obtain ⟨m', module', hm', rfl⟩ := agent.mem_moduleLines.mp hl
    obtain rfl : m' = m := hid
    rw [hm] at hm'
    cases hm'
    have hpos : 0 < defs agent.moduleLines (validDescriptor module) :=
      List.countP_pos_iff.mpr ⟨_, hl, decide_eq_true hlabel⟩
    rw [defs_lines] at h1
    obtain ⟨htop, hpath⟩ := (agent.defs_base_iff (validDescriptor module)).mp (by omega)
    obtain ⟨u, hu, hux, hall⟩ := (defs_eq_one agent.moduleLines_nodup).mp
      (show defs agent.moduleLines (validDescriptor module) = 1 by omega)
    refine ⟨⟨hlabel, hroot, htop, hpath, fun m'' module'' hm'' hne he => hne ?_⟩, hchain⟩
    have h1 := hall _ hl hlabel
    rw [← hall _ (agent.exists_line hm'') he] at h1
    exact (congrArg Line.id h1).symm
  · rintro ⟨hlink, hchain⟩
    have hall : ∀ l ∈ agent.moduleLines, l.label = validDescriptor module →
        l = ⟨moduleLabel m module, MIB_OID_PLETHORA_SUBTREE_ROOT, m⟩ := by
      intro l hl hlabel
      obtain ⟨m', module', hm', rfl⟩ := agent.mem_moduleLines.mp hl
      by_cases hne : m' = m
      · subst hne
        rw [hm] at hm'
        cases hm'
        rfl
      · exact absurd hlabel (hlink.not_module m' module' hm' hne)
    refine ⟨hlink.not_root, ?_, (agent.resolve_module_iff hsub hlink.not_root).mpr ⟨?_, hchain⟩⟩
    · rw [defs_lines, (defs_eq_one agent.moduleLines_nodup).mpr ⟨_, hline, hlink.shown, hall⟩,
        (agent.defs_base_iff _).mpr ⟨hlink.not_top, hlink.not_path⟩]
    · cases hf : agent.moduleLines.reverse.find? (·.label = validDescriptor module) with
      | none =>
        rw [List.find?_eq_none] at hf
        exact absurd (decide_eq_true hlink.shown) (hf _ (List.mem_reverse.mpr hline))
      | some l =>
        have hlabel : l.label = validDescriptor module := by simpa using List.find?_some hf
        refine ⟨l, rfl, ?_⟩
        rw [hall l (List.mem_reverse.mp (List.mem_of_find?_eq_some hf)) hlabel]

/-! ### The whole text -/

/-- The numbers a section should be found at, below `enterprises`. -/
def sectionArcs (e : MetricEntry) : List ℕ :=
  agent.enterprise.arcs.drop MIB_OID_COMMON_ROOT_COUNT ++ [1, e.moduleId, e.id]

section Sections

variable {agent : SnmpAgent} {sections : List MetricEntry}
  (hn : sections.map MetricEntry.numbers = agent.mibEngine.numbered agent.metricService.moduleList 1)
include hn

theorem moduleAt_of_mem {e : MetricEntry} (he : e ∈ sections) :
    agent.metricService.moduleAt e.moduleId = some e.parent ∧ agent.metricService.metricList e.parent ≠ [] := by
  have h := metricAt_of_mem hn he
  rw [MetricService.metricAt, Option.bind_eq_some_iff] at h
  obtain ⟨module, hm, hk⟩ := h
  obtain ⟨metric, hk, he⟩ := Option.map_eq_some_iff.mp hk
  cases he
  obtain ⟨j, -, hj⟩ := nth_eq_some.mp hk
  exact ⟨hm, List.ne_nil_of_mem (List.mem_of_getElem? hj)⟩

/-- A module with metrics has a section. -/
theorem exists_section {m : ℕ} {module : Text} (hm : agent.metricService.moduleAt m = some module)
    (hne : agent.metricService.metricList module ≠ []) : ∃ e ∈ sections, e.moduleId = m ∧ e.parent = module := by
  obtain ⟨metric, rest, hl⟩ := List.exists_cons_of_ne_nil hne
  have hat : agent.metricService.metricAt m 1 = some (module, metric) := by
    rw [MetricService.metricAt, hm, Option.bind_some, hl]
    rfl
  have hmem := agent.mibEngine.mem_numbered_iff.mpr hat
  change _ ∈ agent.mibEngine.numbered agent.metricService.moduleList 1 at hmem
  rw [← hn, List.mem_map] at hmem
  obtain ⟨e, he, hnum⟩ := hmem
  exact ⟨e, he, congrArg (·.1.1) hnum, congrArg (·.2.1) hnum⟩

theorem exists_metric_iff : (∃ module ∈ agent.metricService.moduleList, agent.metricService.metricList module ≠ []) ↔
    ∃ e, e ∈ sections := by
  constructor
  · rintro ⟨module, hmem, hne⟩
    obtain ⟨j, hj⟩ := List.mem_iff_getElem?.mp hmem
    obtain ⟨e, he, -⟩ := exists_section hn (nth_eq_some.mpr ⟨j, rfl, hj⟩) hne
    exact ⟨e, he⟩
  · rintro ⟨e, he⟩
    obtain ⟨hm, hne⟩ := moduleAt_of_mem hn he
    obtain ⟨j, -, hj⟩ := nth_eq_some.mp hm
    exact ⟨e.parent, List.mem_of_getElem? hj, hne⟩

theorem metricOid_arcs {e : MetricEntry} (he : e ∈ sections) :
    (agent.metricOid e.moduleId e.id).arcs = agent.enterprise.arcs ++ [1, e.moduleId, e.id] := by
  obtain ⟨a, b, ha, hb, -⟩ := agent.exists_arcs (metricAt_of_mem hn he)
  rw [metricOid, ha, hb, UInt32.ofNat_toNat, UInt32.ofNat_toNat, Oid.arcs_append, rootOid, Oid.arcs_append,
    List.append_assoc]
  rfl

/-- Where a section is found, in parts. -/
theorem found_iff (h6 : MIB_OID_COMMON_ROOT_COUNT ≤ agent.enterprise.arcs.length) {e : MetricEntry}
    (he : e ∈ sections) (found : Option (List ℕ)) :
    found.map (fun arcs => enterprisesOid ++ (arcs ++ [e.id])) = some (agent.metricOid e.moduleId e.id).arcs ↔
      agent.enterprise.arcs.take MIB_OID_COMMON_ROOT_COUNT = enterprisesOid ∧
        found.map (· ++ [e.id]) = some (agent.sectionArcs e) := by
  rw [metricOid_arcs hn he]
  cases found with
  | none => simp
  | some arcs =>
    rw [Option.map_some, Option.map_some, Option.some_inj, Option.some_inj, sectionArcs]
    constructor
    · intro h
      rw [← List.take_append_drop MIB_OID_COMMON_ROOT_COUNT agent.enterprise.arcs, List.append_assoc] at h
      obtain ⟨h1, h2⟩ := List.append_inj h (by rw [List.length_take, Nat.min_eq_left h6]; rfl)
      exact ⟨h1.symm, h2⟩
    · rintro ⟨h1, h2⟩
      rw [h2, ← h1, ← List.append_assoc, List.take_append_drop]

end Sections

/-- The lines before the sections, the last one first. -/
theorem reverse_lines (agent : SnmpAgent) : (agent.pathLines ++ agent.topLine :: agent.moduleLines).reverse =
    agent.moduleLines.reverse ++ agent.topLine :: agent.pathLines.reverse := by
  simp

theorem linked_lines_iff (agent : SnmpAgent) (sections : List MetricEntry) : Linked MIB_OID_ENTERPRISE_NAME []
      (agent.pathLines ++ agent.topLine :: agent.moduleLines ++ sections.map MetricEntry.line) ↔
    Linked MIB_OID_ENTERPRISE_NAME [] (agent.pathLines ++ [agent.topLine]) ∧
    (agent.metricService.moduleList ≠ [] → agent.SubtreeLinks) ∧
    Linked MIB_OID_ENTERPRISE_NAME (agent.moduleLines.reverse ++ agent.topLine :: agent.pathLines.reverse)
      (sections.map MetricEntry.line) := by
  have hsplit : agent.pathLines ++ agent.topLine :: agent.moduleLines =
      (agent.pathLines ++ [agent.topLine]) ++ agent.moduleLines := by
    simp
  rw [linked_append, List.append_nil, reverse_lines, hsplit, linked_append, and_assoc, ← agent.subtree_iff]
  simp

/-- Sections that are found at their numbers, each by the lines before it. -/
theorem leads_sections_iff (agent : SnmpAgent) (sections : List MetricEntry) :
    Leads MIB_OID_ENTERPRISE_NAME (agent.moduleLines.reverse ++ agent.topLine :: agent.pathLines.reverse)
      (sections.map fun e => (e.line, agent.sectionArcs e)) ↔
    ∀ before e after, sections = before ++ e :: after →
      (resolve MIB_OID_ENTERPRISE_NAME ((before.map MetricEntry.line).reverse ++
        (agent.moduleLines.reverse ++ agent.topLine :: agent.pathLines.reverse)) e.line.parent).map (· ++ [e.id]) =
          some (agent.sectionArcs e) := by
  rw [leads_iff_split]
  constructor
  · rintro h before e after rfl
    have h' := h (before.map fun e => (e.line, agent.sectionArcs e)) (e.line, agent.sectionArcs e)
      (after.map fun e => (e.line, agent.sectionArcs e)) (by simp)
    rw [List.map_map] at h'
    exact h'
  · intro h before p after he
    obtain ⟨b, rest, rfl, rfl, hrest⟩ := List.map_eq_append_iff.mp he
    obtain ⟨e, a, rfl, rfl, rfl⟩ := List.map_eq_cons_iff.mp hrest
    rw [List.map_map]
    exact h b e a rfl

/-- The sections of the text lead somewhere if the lines before them do. -/
theorem entriesLink_parts {agent : SnmpAgent} {sections : List MetricEntry}
    (hn : sections.map MetricEntry.numbers = agent.mibEngine.numbered agent.metricService.moduleList 1)
    (h6 : MIB_OID_COMMON_ROOT_COUNT ≤ agent.enterprise.arcs.length) : agent.EntriesLink sections ↔
      Linked MIB_OID_ENTERPRISE_NAME [] (agent.pathLines ++ [agent.topLine]) ∧
      (agent.metricService.moduleList ≠ [] → agent.SubtreeLinks) ∧
      ((∃ e, e ∈ sections) → agent.enterprise.arcs.take MIB_OID_COMMON_ROOT_COUNT = enterprisesOid) ∧
      Linked MIB_OID_ENTERPRISE_NAME (agent.moduleLines.reverse ++ agent.topLine :: agent.pathLines.reverse)
        ((sections.map fun e => (e.line, agent.sectionArcs e)).map (·.1)) ∧
      Leads MIB_OID_ENTERPRISE_NAME (agent.moduleLines.reverse ++ agent.topLine :: agent.pathLines.reverse)
        (sections.map fun e => (e.line, agent.sectionArcs e)) := by
  have hlines : (sections.map fun e => (e.line, agent.sectionArcs e)).map (·.1) = sections.map MetricEntry.line := by
    rw [List.map_map]
    rfl
  rw [hlines, leads_sections_iff]
  constructor
  · rintro ⟨hl, hs⟩
    rw [oidLines_eq] at hl hs
    rw [reverse_lines] at hs
    obtain ⟨h1, h2, h3⟩ := (agent.linked_lines_iff sections).mp hl
    refine ⟨h1, h2, ?_, h3, fun before e after he => ?_⟩
    · rintro ⟨e, he⟩
      obtain ⟨before, after, hsp⟩ := List.append_of_mem he
      exact ((found_iff hn h6 he _).mp (hs before e after hsp)).1
    · have hmem : e ∈ sections := by rw [he]; simp
      exact ((found_iff hn h6 hmem _).mp (hs before e after he)).2
  · rintro ⟨h1, h2, h6', h3, hs⟩
    refine ⟨?_, fun before e after he => ?_⟩
    · rw [oidLines_eq]
      exact (agent.linked_lines_iff sections).mpr ⟨h1, h2, h3⟩
    · have hmem : e ∈ sections := by rw [he]; simp
      rw [oidLines_eq, reverse_lines]
      exact (found_iff hn h6 hmem _).mpr ⟨h6' ⟨e, hmem⟩, hs before e after he⟩

/-- A section's last number is its own. -/
theorem found_map_iff (agent : SnmpAgent) (e : MetricEntry) (found : Option (List ℕ)) :
    found.map (· ++ [e.line.id]) = some (agent.sectionArcs e) ↔
      found = some (agent.enterprise.arcs.drop MIB_OID_COMMON_ROOT_COUNT ++ [1, e.moduleId]) := by
  have hsplit : agent.sectionArcs e =
      agent.enterprise.arcs.drop MIB_OID_COMMON_ROOT_COUNT ++ [1, e.moduleId] ++ [e.line.id] := by
    simp [sectionArcs, MetricEntry.line]
  rw [hsplit, Option.map_eq_some_iff]
  constructor
  · rintro ⟨q, rfl, he⟩
    rw [List.append_cancel_right he]
  · rintro rfl
    exact ⟨_, rfl, rfl⟩

/-- Where the text is a tree. -/
theorem entriesLink_iff {agent : SnmpAgent} {sections : List MetricEntry}
    (hn : sections.map MetricEntry.numbers = agent.mibEngine.numbered agent.metricService.moduleList 1)
    (h6 : MIB_OID_COMMON_ROOT_COUNT ≤ agent.enterprise.arcs.length) :
    agent.EntriesLink sections ↔ agent.LabelsLinkUp := by
  have hdepth : ∀ p ∈ sections.map (fun e => (e.line, agent.sectionArcs e)),
      p.2.length = (agent.enterprise.arcs.drop MIB_OID_COMMON_ROOT_COUNT).length + 3 := by
    rw [List.forall_mem_map]
    exact fun e _ => List.length_append
  have hpair : (sections.map fun e => (e.line, agent.sectionArcs e)).Pairwise
      (fun p q => p.1.label ≠ q.1.parent) ↔
      (agent.mibEngine.numbered agent.metricService.moduleList 1).Pairwise fun p q =>
        validDescriptor p.2.2 ≠ validDescriptor q.2.1 := by
    rw [← hn, List.pairwise_map, List.pairwise_map]
    rfl
  rw [entriesLink_parts hn h6, linked_leads_iff (by omega) hdepth _, hpair, List.forall_mem_map]
  constructor
  · rintro ⟨hpath, hsub, htake, hmetric, hall⟩
    have hmodule : ∀ e ∈ sections, agent.ModuleLinks e.moduleId e.parent ∧
        Chain MIB_OID_ENTERPRISE_NAME agent.pathLines.reverse agent.topLine.parent := by
      intro e he
      obtain ⟨hm, -⟩ := moduleAt_of_mem hn he
      obtain ⟨hroot, hdefs, hres⟩ := hall e he
      obtain ⟨j, -, hj⟩ := nth_eq_some.mp hm
      exact (agent.module_iff hm (hsub (List.ne_nil_of_mem (List.mem_of_getElem? hj)))).mp
        ⟨hroot, hdefs, (agent.found_map_iff e _).mp hres⟩
    refine ⟨hsub, fun hne => ?_, fun _ => hpath, fun m module hm hne => ?_, hmetric⟩
    · obtain ⟨e, he⟩ := (exists_metric_iff hn).mp hne
      have hchain := (hmodule e he).2
      refine ⟨htake ⟨e, he⟩, hchain, ?_⟩
      rw [← List.nodup_reverse, ← List.map_reverse, ← linked_chain_iff hchain, List.reverse_reverse]
      exact hpath
    · obtain ⟨e, he, rfl, rfl⟩ := exists_section hn hm hne
      exact (hmodule e he).1
  · intro h
    refine ⟨?_, h.subtree, fun hne => (h.path ((exists_metric_iff hn).mpr hne)).1, h.metric, fun e he => ?_⟩
    · by_cases hne : ∃ module ∈ agent.metricService.moduleList, agent.metricService.metricList module ≠ []
      · obtain ⟨-, hchain, hnodup⟩ := h.path hne
        rw [← List.reverse_reverse agent.pathLines, linked_chain_iff hchain, List.map_reverse, List.nodup_reverse]
        exact hnodup
      · push Not at hne
        exact h.path_only hne
    · obtain ⟨hm, hne⟩ := moduleAt_of_mem hn he
      obtain ⟨j, -, hj⟩ := nth_eq_some.mp hm
      have hchain := (h.path ((exists_metric_iff hn).mpr ⟨e, he⟩)).2.chain
      obtain ⟨hroot, hdefs, hres⟩ := (agent.module_iff hm
        (h.subtree (List.ne_nil_of_mem (List.mem_of_getElem? hj)))).mpr ⟨h.module _ _ hm hne, hchain⟩
      exact ⟨hroot, hdefs, (agent.found_map_iff e _).mpr hres⟩

/-! ### What comes of it -/

/-- Where the configured names are names, the path names each number once if
the numbers are different. -/
theorem pathLinks_iff (hlen : agent.oidNames.length = agent.enterprise.arcs.length)
    (hlt : ∀ name ∈ agent.oidNames.drop MIB_OID_COMMON_ROOT_COUNT, '<' ∉ name)
    (hnames : (agent.oidNames.drop MIB_OID_COMMON_ROOT_COUNT).Nodup) :
    agent.PathLinks ↔ (agent.enterprise.arcs.drop MIB_OID_COMMON_ROOT_COUNT).Nodup ∧
      MIB_OID_ENTERPRISE_NAME ∉ agent.oidNames.drop MIB_OID_COMMON_ROOT_COUNT := by
  have hmap : agent.oidMap = (agent.enterprise.arcs.drop MIB_OID_COMMON_ROOT_COUNT).zip
      (agent.oidNames.drop MIB_OID_COMMON_ROOT_COUNT) := named_eq_zip hlen
  have hlist : agent.oidList = agent.enterprise.arcs.drop MIB_OID_COMMON_ROOT_COUNT := named_keys _ _
  have hname : ∀ key, '<' ∉ oidName agent.oidMap key := by
    intro key
    rw [oidName]
    cases hl : agent.oidMap.reverse.lookup key with
    | none => exact List.not_mem_nil
    | some name =>
      have hmem := List.mem_reverse.mp (mem_of_lookup hl)
      rw [hmap] at hmem
      exact hlt name (List.of_mem_zip hmem).2
  have hlabels : agent.pathLines.map (·.label) = agent.oidList.map (oidName agent.oidMap) := path_labels hname ..
  have hchain : Chain MIB_OID_ENTERPRISE_NAME agent.pathLines.reverse agent.topLine.parent ↔
      ∀ key ∈ agent.oidList, oidName agent.oidMap key ≠ MIB_OID_ENTERPRISE_NAME := path_chain_iff hname ..
  have heq (hn : (agent.enterprise.arcs.drop MIB_OID_COMMON_ROOT_COUNT).Nodup) :
      agent.oidList.map (oidName agent.oidMap) = agent.oidNames.drop MIB_OID_COMMON_ROOT_COUNT := by
    rw [hlist, hmap]
    exact oidNames_eq (by rw [List.length_drop, List.length_drop, hlen]) hn
  constructor
  · rintro ⟨hc, hn⟩
    rw [hlabels] at hn
    have hkeys := List.Nodup.of_map _ hn
    rw [hlist] at hkeys
    refine ⟨hkeys, fun hmem => ?_⟩
    rw [← heq hkeys, List.mem_map] at hmem
    obtain ⟨key, hkey, he⟩ := hmem
    exact hchain.mp hc key hkey he
  · rintro ⟨hkeys, hmem⟩
    refine ⟨hchain.mpr fun key hkey he => hmem ?_, ?_⟩
    · rw [← heq hkeys, ← he]
      exact List.mem_map_of_mem hkey
    · rw [hlabels, heq hkeys]
      exact hnames

theorem integerValueOf_mapM : ∀ {numbers : List ℕ}, (∀ n ∈ numbers, n < 2 ^ 31) →
    numbers.mapM integerValueOf = .ok numbers
  | [], _ => rfl
  | n :: numbers, h => by
    rw [List.mapM_cons, integerValueOf, if_pos (h n (List.mem_cons_self ..)),
      integerValueOf_mapM fun m hm => h m (List.mem_cons_of_mem _ hm)]
    rfl

/-- A MIB is written where every listed name has a metric. -/
theorem generateMib_ok (date : Text) (hall : agent.metricService.AllRegistered)
    (harcs : ∀ n ∈ agent.enterprise.arcs, n < 2 ^ 31) :
    ∃ text, agent.mibEngine.generateMib date agent.enterprise.arcs agent.oidNames = .ok text := by
  obtain ⟨sections, hs⟩ := agent.mibEngine.buildSections_ok agent.metricService.moduleList 1 hall
  refine ⟨agent.mibEngine.contents date (agent.mibEngine.oidLines agent.oidMap) sections, ?_⟩
  rw [generateMib, makeOidMap, integerValueOf_mapM harcs]
  show agent.mibEngine.buildMib date agent.oidMap = _
  unfold MIBEngine.buildMib
  show (agent.mibEngine.buildSections agent.metricService.moduleList 1 >>= _) = _
  rw [hs]
  rfl

/-- A module whose name is no descriptor, with one metric. -/
def webApp : SnmpAgent where
  enterprise := ⟨[1, 3, 6, 1, 4, 1, 42]⟩
  oidNames := ["iso", "org", "dod", "internet", "private", "enterprises", "acme"].map String.toList
  productName := "plethora".toList
  sysDescr := "agent".toList
  mibUrl := none
  sysContact := []
  sysName := []
  sysLocation := []
  metricService :=
    { modules := Modules.init
        [("web-app".toList, { moduleName := "web-app".toList, metricNames := TreeSet.empty.add "cpu".toList })]
        one_small (by
          intro p hp
          rw [List.mem_singleton.mp hp]
          exact one_small)
      metrics := ⟨[("hackorama.web-app.cpu".toList,
        Metric.init "hackorama.web-app.cpu".toList (.long 7) {} Metric.made_default)]⟩
      immediateAccess := false
      getValue _ _ := .ok none }
  elapsed := 0

theorem webApp_registered : webApp.metricService.AllRegistered := by
  intro module hm metric hk
  obtain rfl : module = "web-app".toList := List.mem_singleton.mp hm
  obtain rfl : metric = "cpu".toList := List.mem_singleton.mp hk
  exact ⟨_, rfl⟩

end SnmpAgent

end Plethora
