/-
# The keys of the modules

`Modules.init` finds the modules in the configuration by their keys, a type,
the module's name and a property: it takes the hosts, ports and paths of each
type out of the table and creates a module for each host. A key that is a type
and a property with one dot for both is the failure of the cut, and ends the
start of the server.

Key definitions: `Modules.initJMXModules`, `Modules.initWebModules`,
`Modules.initFromKeys`.
Key theorems: `Modules.getConfiguration_iff`.
-/
import Plethora.Common.Affixes
import Plethora.Common.Numerals

namespace Plethora

namespace Modules

/-- The properties of a module, as `initJMXModule` and `initWebModule` take them. -/
structure ModuleArguments where
  module : Text
  hostname : Option Text
  port : Int32
  /-- Only web modules have one. -/
  path : Option Text
  deriving DecidableEq

variable (hashOrder : List (Text × Option Text) → List (Text × Option Text)) (T : Properties) (keySet : List Text)

/-- `getConfiguration`. -/
def getConfiguration (ofType withProperty : String) : Except JavaError (List (Text × Option Text)) :=
  getValuesStartingAndEndingWith T ofType.toList withProperty.toList keySet []

/-- The modules that `initJMXModules` creates, in the order of the map of hosts. -/
def initJMXModules : Except JavaError (List ModuleArguments) := do
  let hosts ← getConfiguration T keySet "jmxmodule." ".host"
  let ports ← getConfiguration T keySet "jmxmodule." ".port"
  return (hashOrder hosts).map fun host =>
    ⟨host.1, host.2, Util.getInt (ports.lookup host.1).join 0, none⟩

/-- The modules that `initWebModules` creates. -/
def initWebModules : Except JavaError (List ModuleArguments) := do
  let hosts ← getConfiguration T keySet "webmodule." ".host"
  let ports ← getConfiguration T keySet "webmodule." ".port"
  let paths ← getConfiguration T keySet "webmodule." ".path"
  return (hashOrder hosts).map fun host =>
    ⟨host.1, host.2, Util.getInt (ports.lookup host.1).join 0, (paths.lookup host.1).join⟩

/-- What `init` creates for the keys of the configuration. -/
def initFromKeys : Except JavaError (List ModuleArguments × List ModuleArguments) := do
  let jmx ← initJMXModules hashOrder T keySet
  let web ← initWebModules hashOrder T keySet
  return (jmx, web)

/-- The keys with one dot for the type's and the property's. -/
def strayKeys : List Text :=
  ["jmxmodule.host".toList, "jmxmodule.port".toList, "webmodule.host".toList, "webmodule.port".toList,
    "webmodule.path".toList]

/-- A type ends with the only dot that it has, and a property begins with one,
so no more than a dot of theirs can overlap. -/
theorem overlap_iff {type property name : Text} (ht : '.' ∉ type) :
    (type ++ ['.'] <+: name ∧ '.' :: property <:+ name ∧ name.length < type.length + 1 + (property.length + 1)) ↔
      name = type ++ '.' :: property := by
  constructor
  · rintro ⟨⟨r, rfl⟩, hsuffix, hlen⟩
    simp only [List.length_append, List.length_cons, List.length_nil] at hlen
    -- what follows the type is shorter than the property with its dot
    have hr : r <:+ '.' :: property :=
      List.suffix_of_suffix_length_le (List.suffix_append _ _) hsuffix (by rw [List.length_cons]; omega)
    obtain ⟨s, hs⟩ := hr
    obtain ⟨l, hl⟩ := hsuffix
    rw [← hs, ← List.append_assoc] at hl
    have hcut : l ++ s = type ++ ['.'] := List.append_cancel_right hl
    cases s with
    | nil =>
      rw [List.nil_append] at hs
      rw [hs, List.length_cons] at hlen
      omega
    | cons c s =>
      obtain ⟨rfl, hproperty⟩ := List.cons.inj hs
      have hs' : s = [] := by
        rcases List.eq_nil_or_concat s with rfl | ⟨s', d, rfl⟩
        · rfl
        · have hlast : l ++ '.' :: s' = type := by
            have hsplit : (l ++ '.' :: s') ++ [d] = type ++ ['.'] := by simpa using hcut
            exact (List.append_inj' hsplit rfl).1
          rw [← hlast] at ht
          exact absurd (List.mem_append_right _ List.mem_cons_self) ht
      rw [hs'] at hproperty
      have hr : r = property := hproperty
      rw [hr, List.append_assoc]
      rfl
  · rintro rfl
    refine ⟨⟨property, by simp⟩, List.suffix_append _ _, ?_⟩
    simp only [List.length_append, List.length_cons]
    omega

theorem exists_getConfiguration_iff {T : Properties} {keySet : List Text} {ofType withProperty : String}
    {type property : Text} (ht : '.' ∉ type) (hType : ofType.toList = type ++ ['.'])
    (hProperty : withProperty.toList = '.' :: property) :
    (∃ values, getConfiguration T keySet ofType withProperty = .ok values) ↔ type ++ '.' :: property ∉ keySet := by
  unfold getConfiguration
  rw [exists_getValuesStartingAndEndingWith_iff, hType, hProperty]
  simp only [List.length_append, List.length_cons, List.length_nil]
  constructor
  · intro h hmem
    obtain ⟨hs, he, hlen⟩ := (overlap_iff ht).mpr rfl
    have := h _ hmem hs he
    omega
  · intro h name hname hs he
    by_contra hlen
    obtain rfl := (overlap_iff ht).mp ⟨hs, he, by omega⟩
    exact h hname

variable {hashOrder : List (Text × Option Text) → List (Text × Option Text)} {T : Properties} {keySet : List Text}

theorem exists_initJMXModules_iff : (∃ modules, initJMXModules hashOrder T keySet = .ok modules) ↔
    "jmxmodule.host".toList ∉ keySet ∧ "jmxmodule.port".toList ∉ keySet := by
  have hhost := @exists_getConfiguration_iff T keySet "jmxmodule." ".host" "jmxmodule".toList "host".toList
    (by decide) rfl rfl
  have hport := @exists_getConfiguration_iff T keySet "jmxmodule." ".port" "jmxmodule".toList "port".toList
    (by decide) rfl rfl
  refine Iff.trans ?_ (and_congr hhost hport)
  simp only [initJMXModules, exists_bind_ok_iff, exists_pure_ok, and_true, exists_and_right]

theorem exists_initWebModules_iff : (∃ modules, initWebModules hashOrder T keySet = .ok modules) ↔
    "webmodule.host".toList ∉ keySet ∧ "webmodule.port".toList ∉ keySet ∧ "webmodule.path".toList ∉ keySet := by
  have hhost := @exists_getConfiguration_iff T keySet "webmodule." ".host" "webmodule".toList "host".toList
    (by decide) rfl rfl
  have hport := @exists_getConfiguration_iff T keySet "webmodule." ".port" "webmodule".toList "port".toList
    (by decide) rfl rfl
  have hpath := @exists_getConfiguration_iff T keySet "webmodule." ".path" "webmodule".toList "path".toList
    (by decide) rfl rfl
  refine Iff.trans ?_ (and_congr hhost (and_congr hport hpath))
  simp only [initWebModules, exists_bind_ok_iff, exists_pure_ok, and_true, exists_and_right]

theorem exists_initFromKeys_iff : (∃ modules, initFromKeys hashOrder T keySet = .ok modules) ↔
    ∀ key ∈ strayKeys, key ∉ keySet := by
  have hkeys : (∀ key ∈ strayKeys, key ∉ keySet) ↔
      ("jmxmodule.host".toList ∉ keySet ∧ "jmxmodule.port".toList ∉ keySet) ∧
      "webmodule.host".toList ∉ keySet ∧ "webmodule.port".toList ∉ keySet ∧ "webmodule.path".toList ∉ keySet := by
    unfold strayKeys
    simp only [List.forall_mem_cons, List.not_mem_nil, false_implies, implies_true, and_true, and_assoc]
  rw [hkeys, ← @exists_initJMXModules_iff hashOrder T, ← @exists_initWebModules_iff hashOrder T]
  simp only [initFromKeys, exists_bind_ok_iff, exists_pure_ok, and_true, exists_and_right]

/-- **Values by start and end.** The map has the values of the names made of the
start, any text and the end exactly if start and end overlap in no name of the
table, and the modules are initialised exactly if no key of theirs has one dot
for two. -/
theorem getValues_iff (hk : keySet.Perm T.stringPropertyNames) :
    (∀ start ending, (∃ values, getValuesStartingAndEndingWith T start ending keySet [] = .ok values ∧
      ∀ w, values.lookup w = if (T.getProperty (start ++ (w ++ ending))).isSome = true then
        some (getProperty T (start ++ (w ++ ending))) else none) ↔
      ∀ name ∈ T.stringPropertyNames, start <+: name → ending <:+ name →
        start.length + ending.length ≤ name.length) ∧
    ((∃ modules, initFromKeys hashOrder T keySet = .ok modules) ↔ ∀ key ∈ strayKeys, T.getProperty key = none) := by
  constructor
  · intro start ending
    have hnames : (∀ name ∈ keySet, start <+: name → ending <:+ name → start.length + ending.length ≤ name.length) ↔
        ∀ name ∈ T.stringPropertyNames, start <+: name → ending <:+ name →
          start.length + ending.length ≤ name.length :=
      forall_congr' fun name => imp_congr hk.mem_iff Iff.rfl
    rw [← hnames, ← @exists_getValuesStartingAndEndingWith_iff T start ending keySet []]
    refine exists_congr fun values => and_iff_left_of_imp fun h w => ?_
    rw [lookup_getValuesStartingAndEndingWith w h]
    simp only [hk.mem_iff, Properties.mem_names_iff]
    rfl
  · rw [exists_initFromKeys_iff]
    refine forall_congr' fun key => imp_congr Iff.rfl ?_
    rw [hk.mem_iff, Properties.mem_names_iff, Option.isSome_iff_ne_none, not_not]

/-- The host and the port of one module. -/
def shopConfiguration : Properties where
  entries := [("jmxmodule.shop.port".toList, "9999".toList), ("jmxmodule.shop.host".toList, "localhost".toList)]
  nodup := by decide

theorem getValues_shop :
    ∃ modules, initFromKeys id shopConfiguration shopConfiguration.stringPropertyNames = .ok modules :=
  (getValues_iff (List.Perm.refl _)).2.mpr (by decide)

/-- A module without a name, and without the second dot. -/
def strayConfiguration : Properties := ⟨[("jmxmodule.host".toList, "localhost".toList)], List.nodup_singleton _⟩

theorem not_getValues_stray :
    (¬ ∃ values, getValuesStartingAndEndingWith strayConfiguration "jmxmodule.".toList ".host".toList
      strayConfiguration.stringPropertyNames [] = .ok values) ∧
    ¬ ∃ modules, initFromKeys id strayConfiguration strayConfiguration.stringPropertyNames = .ok modules := by
  have hvalues : getValuesStartingAndEndingWith strayConfiguration "jmxmodule.".toList ".host".toList
      strayConfiguration.stringPropertyNames [] = .error .indexOutOfBounds := by decide
  have hinit : initFromKeys id strayConfiguration strayConfiguration.stringPropertyNames =
      .error .indexOutOfBounds := by decide
  rw [hvalues, hinit]
  simp

end Modules

end Plethora
