/-
# Protected properties

`ProtectedConfiguration.protectValues`: the properties whose names start with
the marker get a protected value, in the table and in the properties file,
which is filtered line by line through a pattern for each of them.

A value is left alone if it is protected already, and also if the protector
cannot tell or if the value itself starts with the marker: `protectProperty`
asks of the value what it should ask of the name. So the values that are left
alone are not all protected ones; `protectValues_protects_iff` says when they
are.

Key definitions: `ProtectedConfiguration`, `filterLine`, `protectProperty`,
`protectValues`, `updatesOf`.
Key theorems: `protectEntries_eq`, `protectValues_ok`, `protectValues_protects_iff`.
-/
import Plethora.Common.Configuration
import Plethora.Config.Protector
import Plethora.Lib.Regex

namespace Plethora

open PropertiesFile

/-- What the configuration is made with: its fields, and what the regular
expressions, the hash maps and the files of its surroundings do. The property
file is its bytes, if they can be read; the file writer can throw. -/
structure ProtectedConfiguration (ρ : Type) where
  protectedPropMarker : Text
  keyFilePropertyName : Option Text
  regex : Regex.Engine ρ
  hashOrder : List (Text × Text) → List (Text × Text)
  hashOrder_perm : ∀ l, (hashOrder l).Perm l
  canRead : Text → Bool
  propertyFile : Option (List UInt8)
  fileWrite : Text → Option JavaError

namespace ProtectedConfiguration

variable {ρ κ : Type} (C : ProtectedConfiguration ρ)

/-! ### Filtering a line -/

/-- A Java string in a concatenation. -/
def stringOf (t : Option Text) : Text := t.getD "null".toList

/-- The pattern of an entry: the name, one of the separators, and the value
with a quote on either side if there is one. -/
def patternOf (name value : Text) : Text :=
  "(^\\s*".toList ++ (name ++ ("\\s*[=: ]\\s*\"?)(".toList ++ (value ++ ")(\"?\\s*$)".toList)))

/-- A `PatternSyntaxException` is an illegal argument. -/
def javaError : Regex.Error → JavaError
  | .patternSyntax => .illegalArgument
  | .illegalArgument => .illegalArgument
  | .indexOutOfBounds => .indexOutOfBounds

def replacement (updated : Option Text) (m : Regex.MatchResult) : Except Regex.Error Text := do
  let before ← m.group 1
  let after ← m.group 3
  pure (stringOf before ++ (stringOf updated ++ stringOf after))

/-- What one entry appends to the result. -/
def filterEntry (updatedValues : List (Text × Text)) (line : Text) (entry : Text × Text) : Except JavaError Text :=
  match C.regex.compile (patternOf entry.1 entry.2) with
  | none => .error (javaError .patternSyntax)
  | some pattern =>
    (Regex.replaceMatches line (replacement (updatedValues.lookup entry.1)) 0 (C.regex.find pattern line)).mapError
      javaError

/-- The line, filtered once for each entry into one buffer. -/
def filterLine (originalValues updatedValues : List (Text × Text)) (line : Text) : Except JavaError Text :=
  (C.hashOrder originalValues).foldlM (fun result entry => do
    pure (result ++ (← C.filterEntry updatedValues line entry))) []

/-- The filtered text of the property file; empty if it cannot be read. -/
def getUpdatedProperties (originalValues updatedValues : List (Text × Text)) : Except JavaError (Option Text) :=
  if updatedValues.isEmpty then .ok none
  else
    match C.propertyFile with
    | none => .ok (some [])
    | some bytes => do
      let filtered ← (lines '\r' '\n' (Utf8.decode bytes)).mapM (C.filterLine originalValues updatedValues)
      pure (some (join '\n' filtered))

/-! ### Protecting the values -/

def isProtectedProperty (name : Text) : Bool := C.protectedPropMarker.isPrefixOf name

/-- A value that cannot be validated counts as protected. -/
def isProtectedValue (P : Protector κ) (value : Text) : Except JavaError Bool :=
  match P.isProtected value with
  | .ok b => .ok b
  | .error (.declared .configProtect) => .ok true
  | .error (.unchecked e) => .error e

/-- `null` for a value that cannot be read. -/
def plainValue (P : Protector κ) (key : κ) (value : Option Text) : Except JavaError (Option Text) :=
  match P.plainValue key value with
  | .ok t => .ok (some t)
  | .error (.declared _) => .ok none
  | .error (.unchecked e) => .error e

def getProperty (P : Protector κ) (key : κ) (T : Properties) (name : Text) : Except JavaError (Option Text) :=
  if C.isProtectedProperty name then plainValue P key (Plethora.getProperty T name)
  else .ok (Plethora.getProperty T name)

/-- `getProperty(name, def)`. -/
def getPropertyOr (P : Protector κ) (key : κ) (T : Properties) (name : Text) (dflt : Option Text) :
    Except JavaError (Option Text) :=
  if C.isProtectedProperty name then plainValue P key (Plethora.getPropertyOr T name dflt)
  else .ok (Plethora.getPropertyOr T name dflt)

/-- The readable key file, if there is one. -/
def initKeyFile (P : Protector κ) (key : κ) (T : Properties) : Except JavaError (Option Text) :=
  match C.keyFilePropertyName with
  | none => .ok none
  | some name => do
    let fileName ← C.getProperty P key T name
    pure (fileName.filter C.canRead)

/-- The protector's key after the key file is set, if there is one. -/
def keyed (P : Protector κ) (key : κ) (T : Properties) : Except JavaError κ := do
  match ← C.initKeyFile P key T with
  | none => pure key
  | some keyFile =>
    match P.setKey key keyFile with
    | .ok key' => .ok key'
    | .error (.declared _) => .error .security
    | .error (.unchecked e) => .error e

/-- The new value, if the value is not left alone, and the table with it. -/
def protectProperty (P : Protector κ) (key : κ) (T : Properties) (name value : Text) :
    Except JavaError (Option Text × Properties) :=
  if C.isProtectedProperty value then .ok (none, T)
  else
    match P.protectedValue key value with
    | .ok protectedValue => .ok (some protectedValue, T.setProperty name protectedValue)
    | .error (.declared .configProtect) => .ok (some [], T.setProperty name [])
    | .error (.unchecked e) => .error e

/-- The loop's variables. -/
structure Values where
  properties : Properties
  originalValues : List (Text × Text)
  updatedValues : List (Text × Text)

/-- The loop's body; the entry's name is without the marker. -/
def protectEntry (P : Protector κ) (key : κ) (s : Values) (entry : Text × Text) : Except JavaError Values := do
  let name := C.protectedPropMarker ++ entry.1
  if ← isProtectedValue P entry.2 then pure s
  else
    let (updatedValue, T) ← C.protectProperty P key s.properties name entry.2
    match updatedValue with
    | none => pure { s with properties := T }
    | some u => pure ⟨T, put name entry.2 s.originalValues, put name u s.updatedValues⟩

/-- What is left after a call: the protector's key, the table, and the text
handed to the file writer, if any. -/
structure Result (κ : Type) where
  key : κ
  properties : Properties
  handed : Option Text

/-- `protectValues` with a protector, up to the writing of the file. -/
def updateValues (P : Protector κ) (key : κ) (T : Properties) : Except JavaError (Result κ) := do
  let key ← C.keyed P key T
  let s ← (getValuesStartingWith C.hashOrder T C.protectedPropMarker).foldlM (C.protectEntry P key) ⟨T, [], []⟩
  let updated ← C.getUpdatedProperties s.originalValues s.updatedValues
  pure ⟨key, s.properties, updated⟩

/-- An `IOException` of the file writer is caught. -/
def protectValues (protector : Option (Protector κ)) (key : κ) (T : Properties) : Except JavaError (Result κ) := do
  match protector with
  | none => .error .security
  | some P =>
    let r ← C.updateValues P key T
    match r.handed.bind C.fileWrite with
    | some e => .error e
    | none => pure r

/-! ### The entries that get a new value -/

section Loop

variable (P : Protector κ) (key : κ)

/-- The new value for a protected property's value, if it gets one. -/
def newValue (value : Text) : Except JavaError (Option Text) := do
  if ← isProtectedValue P value then pure none
  else if C.isProtectedProperty value then pure none
  else
    match P.protectedValue key value with
    | .ok u => pure (some u)
    | .error (.declared .configProtect) => pure (some [])
    | .error (.unchecked e) => .error e

/-- The names, the values and the new values of the entries that get one. -/
def updatesOf : List (Text × Text) → Except JavaError (List (Text × Text × Text))
  | [] => .ok []
  | (rest, value) :: l => do
    match ← C.newValue P key value with
    | none => updatesOf l
    | some u => do pure ((C.protectedPropMarker ++ rest, value, u) :: (← updatesOf l))

/-- One entry: the maps and the table get its new value, if it gets one. -/
theorem protectEntry_eq (s : Values) (rest value : Text) : C.protectEntry P key s (rest, value) =
    (C.newValue P key value).map fun
      | none => s
      | some u => ⟨s.properties.setProperty (C.protectedPropMarker ++ rest) u,
          put (C.protectedPropMarker ++ rest) value s.originalValues,
          put (C.protectedPropMarker ++ rest) u s.updatedValues⟩ := by
  unfold protectEntry newValue protectProperty
  cases hp : isProtectedValue P value with
  | error e => rfl
  | ok b =>
    cases b with
    | true => rfl
    | false =>
      cases hv : C.isProtectedProperty value with
      | true => rfl
      | false =>
        cases hu : P.protectedValue key value with
        | ok u => rfl
        | error e =>
          cases e with
          | declared _ => rfl
          | unchecked _ => rfl

theorem put_of_not_mem {α : Type} {k : Text} {v : α} : ∀ {l : List (Text × α)}, k ∉ l.map (·.1) → put k v l = l ++ [(k, v)]
  | [], _ => rfl
  | (a, w) :: l, h => by
    rw [List.map_cons, List.mem_cons, not_or] at h
    rw [put, if_neg (Ne.symm h.1), put_of_not_mem h.2, List.cons_append]

/-- The loop's variables after more updates. -/
def Values.update (s : Values) (us : List (Text × Text × Text)) : Values :=
  ⟨s.properties.setAll (us.map fun u => (u.1, u.2.2)), s.originalValues ++ us.map fun u => (u.1, u.2.1),
    s.updatedValues ++ us.map fun u => (u.1, u.2.2)⟩

theorem update_nil (s : Values) : s.update [] = s := by
  show Values.mk s.properties (s.originalValues ++ []) (s.updatedValues ++ []) = s
  rw [List.append_nil, List.append_nil]

theorem update_cons (s : Values) (name value u : Text) (us : List (Text × Text × Text)) :
    s.update ((name, value, u) :: us) =
      Values.update ⟨s.properties.setProperty name u, s.originalValues ++ [(name, value)],
        s.updatedValues ++ [(name, u)]⟩ us := by
  unfold Values.update
  simp only [List.append_assoc, List.map_cons, List.singleton_append]
  rfl

/-- The loop over entries whose names are not in the maps yet. -/
theorem protectEntries_eq : ∀ (l : List (Text × Text)) (s : Values), (l.map (·.1)).Nodup →
    (∀ rest ∈ l.map (·.1), C.protectedPropMarker ++ rest ∉ s.originalValues.map (·.1)) →
    s.updatedValues.map (·.1) = s.originalValues.map (·.1) →
    l.foldlM (C.protectEntry P key) s = (C.updatesOf P key l).map s.update
  | [], s, _, _, _ => by
    rw [List.foldlM_nil, updatesOf]
    exact congrArg Except.ok (update_nil s).symm
  | (rest, value) :: l, s, hn, hs, hu => by
    rw [List.map_cons, List.nodup_cons] at hn
    have hrest := hs rest (List.mem_cons_self ..)
    have htail := fun r hr => hs r (List.mem_cons_of_mem _ hr)
    rw [List.foldlM_cons, protectEntry_eq, updatesOf]
    cases hv : C.newValue P key value with
    | error e => rfl
    | ok o =>
      cases o with
      | none => exact protectEntries_eq l s hn.2 htail hu
      | some u =>
        have hrest' : C.protectedPropMarker ++ rest ∉ s.updatedValues.map (·.1) := hu ▸ hrest
        show l.foldlM (C.protectEntry P key) ⟨_, put _ _ _, put _ _ _⟩ = _
        rw [put_of_not_mem hrest, put_of_not_mem hrest', protectEntries_eq l _ hn.2 ?_ ?_]
        · show (C.updatesOf P key l).map _ = Except.map _ (C.updatesOf P key l >>= fun us => _)
          cases C.updatesOf P key l with
          | error e => rfl
          | ok us => exact congrArg Except.ok (update_cons ..).symm
        · intro r hr hm
          rw [List.map_append, List.mem_append] at hm
          rcases hm with hm | hm
          · exact htail r hr hm
          · have := List.append_cancel_left (List.mem_singleton.mp hm)
            exact hn.1 (this ▸ hr)
        · rw [List.map_append, List.map_append, hu]
          rfl

variable {C P key}

/-- Every entry is settled, and the entries that get a new value are the ones listed. -/
theorem mem_updatesOf : ∀ {l : List (Text × Text)} {us}, C.updatesOf P key l = .ok us →
    (∀ e ∈ l, ∃ o, C.newValue P key e.2 = .ok o) ∧
    ∀ name value u, (name, value, u) ∈ us ↔
      ∃ rest, (rest, value) ∈ l ∧ name = C.protectedPropMarker ++ rest ∧ C.newValue P key value = .ok (some u)
  | [], us, h => by
    cases h
    exact ⟨fun _ h => absurd h List.not_mem_nil, by simp⟩
  | (rest, value) :: l, us, h => by
    rw [updatesOf] at h
    obtain ⟨o, hv, h⟩ := bind_eq_ok.mp h
    -- the entries of the list are those of its tail and the first, if that gets a new value
    have hcons : ∀ name v u, (∃ r, (r, v) ∈ (rest, value) :: l ∧ name = C.protectedPropMarker ++ r ∧
          C.newValue P key v = .ok (some u)) ↔
        (o = some u ∧ v = value ∧ name = C.protectedPropMarker ++ rest) ∨
          ∃ r, (r, v) ∈ l ∧ name = C.protectedPropMarker ++ r ∧ C.newValue P key v = .ok (some u) := by
      intro name v u
      constructor
      · rintro ⟨r, hr, hname, hu⟩
        rcases List.mem_cons.mp hr with hr | hr
        · cases hr
          exact Or.inl ⟨Except.ok.inj (hv.symm.trans hu), rfl, hname⟩
        · exact Or.inr ⟨r, hr, hname, hu⟩
      · rintro (⟨rfl, rfl, hname⟩ | ⟨r, hr, hname, hu⟩)
        · exact ⟨rest, List.mem_cons_self, hname, hv⟩
        · exact ⟨r, List.mem_cons_of_mem _ hr, hname, hu⟩
    cases o with
    | none =>
      obtain ⟨h1, h2⟩ := mem_updatesOf (l := l) h
      refine ⟨List.forall_mem_cons.mpr ⟨⟨none, hv⟩, h1⟩, fun name v u => ?_⟩
      rw [h2, hcons]
      exact (or_iff_right fun hfirst => Option.some_ne_none u hfirst.1.symm).symm
    | some w =>
      obtain ⟨us', ht, h⟩ := bind_eq_ok.mp h
      cases h
      obtain ⟨h1, h2⟩ := mem_updatesOf ht
      refine ⟨List.forall_mem_cons.mpr ⟨⟨_, hv⟩, h1⟩, fun name v u => ?_⟩
      rw [List.mem_cons, h2, hcons, Prod.mk.injEq, Prod.mk.injEq, Option.some.injEq, @eq_comm _ w u]
      exact or_congr_left ⟨fun ⟨hname, hv, hu⟩ => ⟨hu, hv, hname⟩, fun ⟨hu, hv, hname⟩ => ⟨hname, hv, hu⟩⟩

end Loop

/-! ### A whole call -/

variable {C} {P : Protector κ} {key : κ} {T : Properties}

theorem isProtectedProperty_iff {name : Text} : C.isProtectedProperty name = true ↔ C.protectedPropMarker <+: name :=
  List.isPrefixOf_iff_prefix

/-- The protected properties, by what comes after the marker. -/
def protectedProperties (C : ProtectedConfiguration ρ) (T : Properties) : List (Text × Text) :=
  getValuesStartingWith C.hashOrder T C.protectedPropMarker

theorem mem_protectedProperties {rest value : Text} :
    (rest, value) ∈ C.protectedProperties T ↔ T.getProperty (C.protectedPropMarker ++ rest) = some value :=
  mem_getValuesStartingWith C.hashOrder_perm

/-- The loop of a call, from empty maps. -/
theorem protectValues_loop (C : ProtectedConfiguration ρ) (P : Protector κ) (key : κ) (T : Properties) :
    (getValuesStartingWith C.hashOrder T C.protectedPropMarker).foldlM (C.protectEntry P key) ⟨T, [], []⟩ =
      (C.updatesOf P key (C.protectedProperties T)).map (Values.update ⟨T, [], []⟩) :=
  C.protectEntries_eq P key _ _ (nodup_getValuesStartingWith C.hashOrder_perm T _)
    (fun _ _ => List.not_mem_nil) rfl

/-- A call by the entries that get a new value. -/
theorem updateValues_eq (P : Protector κ) (key : κ) (T : Properties) : C.updateValues P key T = (do
    let key ← C.keyed P key T
    let us ← C.updatesOf P key (C.protectedProperties T)
    let updated ← C.getUpdatedProperties (us.map fun u => (u.1, u.2.1)) (us.map fun u => (u.1, u.2.2))
    pure ⟨key, T.setAll (us.map fun u => (u.1, u.2.2)), updated⟩) := by
  simp only [updateValues, protectValues_loop]
  cases C.keyed P key T with
  | error e => rfl
  | ok key' =>
    show (Except.map _ (C.updatesOf P key' (C.protectedProperties T)) >>= _) =
      C.updatesOf P key' (C.protectedProperties T) >>= _
    cases C.updatesOf P key' (C.protectedProperties T) <;> rfl

/-- What a call that returns has done. -/
theorem protectValues_ok {r : Result κ} (h : C.protectValues (some P) key T = .ok r) :
    ∃ us, C.keyed P key T = .ok r.key ∧ C.updatesOf P r.key (C.protectedProperties T) = .ok us ∧
      r.properties = T.setAll (us.map fun u => (u.1, u.2.2)) ∧
      C.getUpdatedProperties (us.map fun u => (u.1, u.2.1)) (us.map fun u => (u.1, u.2.2)) = .ok r.handed := by
  obtain ⟨r', hr, h⟩ := bind_eq_ok.mp h
  cases hw : r'.handed.bind C.fileWrite with
  | some e =>
    rw [hw] at h
    cases h
  | none =>
    rw [hw] at h
    obtain rfl : r' = r := Except.ok.inj h
    rw [updateValues_eq] at hr
    obtain ⟨key', hk, hr⟩ := bind_eq_ok.mp hr
    obtain ⟨us, hu, hr⟩ := bind_eq_ok.mp hr
    obtain ⟨updated, hg, hr⟩ := bind_eq_ok.mp hr
    cases hr
    exact ⟨us, hk, hu, rfl, hg⟩

/-- The entries that get a new value, by what the table finds. -/
theorem mem_of_lookup_updates {us : List (Text × Text × Text)} {name w : Text}
    (hu : C.updatesOf P key (C.protectedProperties T) = .ok us)
    (h : ((us.map fun u => (u.1, u.2.2)).reverse).lookup name = some w) :
    ∃ rest value, name = C.protectedPropMarker ++ rest ∧ T.getProperty name = some value ∧
      C.newValue P key value = .ok (some w) := by
  obtain ⟨⟨n, v, u⟩, hin, he⟩ := List.mem_map.mp (List.mem_reverse.mp (mem_of_lookup h))
  obtain ⟨rfl, rfl⟩ := Prod.mk.inj he
  obtain ⟨rest, hr, rfl, hnew⟩ := ((mem_updatesOf hu).2 _ _ _).mp hin
  exact ⟨rest, v, rfl, mem_protectedProperties.mp hr, hnew⟩

/-- A protected property has its new value, if it gets one. -/
theorem getProperty_protected {us : List (Text × Text × Text)} {rest value : Text}
    (hu : C.updatesOf P key (C.protectedProperties T) = .ok us)
    (hv : T.getProperty (C.protectedPropMarker ++ rest) = some value) :
    ∃ o, C.newValue P key value = .ok o ∧
      (T.setAll (us.map fun u => (u.1, u.2.2))).getProperty (C.protectedPropMarker ++ rest) = some (o.getD value) := by
  obtain ⟨hall, hmem⟩ := mem_updatesOf hu
  have hentry := mem_protectedProperties.mpr hv
  obtain ⟨o, ho⟩ := hall _ hentry
  refine ⟨o, ho, ?_⟩
  rw [Properties.getProperty_setAll]
  cases hl : ((us.map fun u => (u.1, u.2.2)).reverse).lookup (C.protectedPropMarker ++ rest) with
  | none =>
    cases o with
    | none => exact hv
    | some u =>
      have hin := (hmem _ _ _).mpr ⟨rest, hentry, rfl, ho⟩
      have hne := List.lookup_eq_none_iff.mp hl (C.protectedPropMarker ++ rest, u)
        (List.mem_reverse.mpr (List.mem_map.mpr ⟨_, hin, rfl⟩))
      rw [bne_self_eq_false] at hne
      cases hne
  | some w =>
    obtain ⟨-, v, -, hv', hnew⟩ := mem_of_lookup_updates hu hl
    rw [hv] at hv'
    cases hv'
    rw [ho] at hnew
    cases hnew
    rfl

/-- A property without the marker keeps its value, and no property joins. -/
theorem getProperty_unmarked {us : List (Text × Text × Text)} {name : Text}
    (hu : C.updatesOf P key (C.protectedProperties T) = .ok us)
    (hn : ¬ C.protectedPropMarker <+: name ∨ T.getProperty name = none) :
    (T.setAll (us.map fun u => (u.1, u.2.2))).getProperty name = T.getProperty name := by
  rw [Properties.getProperty_setAll]
  cases hl : ((us.map fun u => (u.1, u.2.2)).reverse).lookup name with
  | none => rfl
  | some w =>
    obtain ⟨rest, v, rfl, hv, -⟩ := mem_of_lookup_updates hu hl
    rcases hn with hn | hn
    · exact absurd ⟨rest, rfl⟩ hn
    · rw [hv] at hn
      cases hn

/-- The value a property is left with is protected, or not, by what the
protector says of the old one and of its own. -/
theorem isProtected_newValue_iff (hP : ∀ k v, ∃ u, P.protectedValue k v = .ok u) {value : Text} {o : Option Text}
    (ho : C.newValue P key value = .ok o) : P.isProtected (o.getD value) = .ok true ↔
      P.isProtected value = .ok true ∨ (P.isProtected value = .ok false ∧ ¬ C.protectedPropMarker <+: value ∧
        ∃ u, P.protectedValue key value = .ok u ∧ P.isProtected u = .ok true) := by
  obtain ⟨u, hu⟩ := hP key value
  unfold newValue isProtectedValue at ho
  cases hp : P.isProtected value with
  | error e =>
    rw [hp] at ho
    cases e with
    | unchecked e => cases ho
    | declared e =>
      cases ho
      rw [Option.getD_none, hp]
      simp
  | ok b =>
    rw [hp] at ho
    cases b with
    | true =>
      cases ho
      rw [Option.getD_none, hp]
      simp
    | false =>
      by_cases hm : C.protectedPropMarker <+: value
      · have hm' : C.isProtectedProperty value = true := isProtectedProperty_iff.mpr hm
        change (if C.isProtectedProperty value = true then _ else _) = _ at ho
        rw [if_pos hm'] at ho
        cases ho
        rw [Option.getD_none, hp]
        simp [hm]
      · have hm' : ¬ C.isProtectedProperty value = true := fun h => hm (isProtectedProperty_iff.mp h)
        change (if C.isProtectedProperty value = true then _ else _) = _ at ho
        rw [if_neg hm', hu] at ho
        cases ho
        rw [Option.getD_some, hu]
        simp [hm]

/-- A value the protector recognises is left alone. -/
theorem newValue_of_isProtected {value : Text} (h : P.isProtected value = .ok true) :
    C.newValue P key value = .ok none := by
  unfold newValue isProtectedValue
  rw [h]
  rfl

/-- With all of them recognised, no entry gets a new value. -/
theorem updatesOf_of_isProtected : ∀ {l : List (Text × Text)}, (∀ e ∈ l, P.isProtected e.2 = .ok true) →
    C.updatesOf P key l = .ok []
  | [], _ => rfl
  | (rest, value) :: l, h => by
    rw [updatesOf, newValue_of_isProtected (h _ (List.mem_cons_self ..))]
    exact updatesOf_of_isProtected fun e he => h e (List.mem_cons_of_mem _ he)

/-- **After a call every protected property holds a protected value, and a
second call changes nothing, if and only if each value was protected, or was
no text that starts with the marker, and the protector recognises what it
made of it.** -/
theorem protectValues_protects_iff (hP : ∀ k v, ∃ u, P.protectedValue k v = .ok u) {r : Result κ}
    (h : C.protectValues (some P) key T = .ok r) :
    ((∀ name value, C.protectedPropMarker <+: name → r.properties.getProperty name = some value →
        P.isProtected value = .ok true) ∧
      ∀ r', C.protectValues (some P) r.key r.properties = .ok r' → r'.properties = r.properties ∧ r'.handed = none) ↔
    ∀ name value, C.protectedPropMarker <+: name → T.getProperty name = some value →
      P.isProtected value = .ok true ∨ (P.isProtected value = .ok false ∧ ¬ C.protectedPropMarker <+: value ∧
        ∃ key' u, C.keyed P key T = .ok key' ∧ P.protectedValue key' value = .ok u ∧ P.isProtected u = .ok true) := by
  obtain ⟨us, hk, hu, hT, -⟩ := protectValues_ok h
  -- each value and its successor
  have hone : ∀ rest value, T.getProperty (C.protectedPropMarker ++ rest) = some value →
      ∃ o, r.properties.getProperty (C.protectedPropMarker ++ rest) = some (Option.getD o value) ∧
        (P.isProtected (o.getD value) = .ok true ↔
          P.isProtected value = .ok true ∨ (P.isProtected value = .ok false ∧ ¬ C.protectedPropMarker <+: value ∧
            ∃ key' u, C.keyed P key T = .ok key' ∧ P.protectedValue key' value = .ok u ∧
              P.isProtected u = .ok true)) := by
    intro rest value hv
    obtain ⟨o, ho, hget⟩ := getProperty_protected hu hv
    refine ⟨o, hT ▸ hget, (isProtected_newValue_iff hP ho).trans ?_⟩
    rw [hk]
    constructor
    · rintro (h1 | ⟨h1, h2, u, h3⟩)
      · exact Or.inl h1
      · exact Or.inr ⟨h1, h2, r.key, u, rfl, h3⟩
    · rintro (h1 | ⟨h1, h2, key', u, h3, h4⟩)
      · exact Or.inl h1
      · cases h3
        exact Or.inr ⟨h1, h2, u, h4⟩
  constructor
  · rintro ⟨hall, -⟩ name value ⟨rest, rfl⟩ hv
    obtain ⟨o, hget, hiff⟩ := hone rest value hv
    exact hiff.mp (hall _ _ ⟨rest, rfl⟩ hget)
  · intro hcond
    have hall : ∀ name value, C.protectedPropMarker <+: name → r.properties.getProperty name = some value →
        P.isProtected value = .ok true := by
      rintro name value ⟨rest, rfl⟩ hv
      cases hold : T.getProperty (C.protectedPropMarker ++ rest) with
      | some old =>
        obtain ⟨o, hget, hiff⟩ := hone rest old hold
        rw [hv] at hget
        cases hget
        exact hiff.mpr (hcond _ _ ⟨rest, rfl⟩ hold)
      | none =>
        rw [hT, getProperty_unmarked hu (Or.inr hold), hold] at hv
        cases hv
    refine ⟨hall, fun r' h' => ?_⟩
    obtain ⟨us', -, hu', hT', hg'⟩ := protectValues_ok h'
    rw [updatesOf_of_isProtected fun e he => hall _ _ ⟨_, rfl⟩ (mem_protectedProperties.mp he)] at hu'
    cases hu'
    exact ⟨hT', (Except.ok.inj hg').symm⟩

/-- The default of `protectedPropMarker`. -/
def MARKER : Text := ['p', 'r', 'o', 't', 'e', 'c', 't', 'e', 'd', '.']

/-- Two letters for each byte. -/
def letters (bytes : List UInt8) : Text :=
  bytes.flatMap fun b => [Char.ofNat (65 + b.toNat / 16), Char.ofNat (65 + b.toNat % 16)]

def unletters : Text → List UInt8
  | c :: d :: t => UInt8.ofNat ((c.toNat - 65) * 16 + (d.toNat - 65)) :: unletters t
  | _ => []

/-- A protector that spells a value in letters after a tag. -/
def tagging : Protector Unit where
  isProtected value := .ok (['E', 'N', 'C'].isPrefixOf value)
  protectedValue _ value := .ok (['E', 'N', 'C'] ++ letters (Utf8.encode value))
  plainValue _
    | none => .error (.unchecked .nullPointer)
    | some value =>
      if ['E', 'N', 'C'].isPrefixOf value then .ok (Utf8.decode (unletters (value.drop 3)))
      else .error (.declared .configProtectKey)
  setKey _ _ := .ok ()

theorem toNat_letter {n : ℕ} (h : n < 16) : (Char.ofNat (65 + n)).toNat = 65 + n := toNat_ofNat (Or.inl (by omega))

theorem unletters_letters : ∀ bytes : List UInt8, unletters (letters bytes) = bytes
  | [] => rfl
  | b :: bytes => by
    have hb := b.toNat_lt
    show unletters (_ :: _ :: letters bytes) = _
    rw [unletters, unletters_letters bytes, toNat_letter (by omega), toNat_letter (by omega)]
    congr 1
    rw [Nat.add_sub_cancel_left, Nat.add_sub_cancel_left, Nat.mul_comm, Nat.div_add_mod, UInt8.ofNat_toNat]

theorem base64_letter : ∀ n : ℕ, n < 16 → base64 (Char.ofNat (65 + n)) = true := by decide

theorem tagging_lawful : tagging.Lawful where
  isProtected := fun h => by
    cases h
    rfl
  plainValue := fun {k v u} h => by
    cases h
    show Except.ok (Utf8.decode (unletters (letters (Utf8.encode v)))) = _
    rw [unletters_letters, Utf8.decode_encode]
  encoded := fun {k v u} h => by
    cases h
    refine ⟨nofun, nofun, fun c hc => ?_⟩
    rcases List.mem_append.mp hc with hc | hc
    · exact List.all_eq_true.mp (by decide : ['E', 'N', 'C'].all base64 = true) c hc
    · obtain ⟨b, -, hb⟩ := List.mem_flatMap.mp hc
      have := b.toNat_lt
      simp only [List.mem_cons, List.not_mem_nil, or_false] at hb
      rcases hb with rfl | rfl
      · exact base64_letter _ (by omega)
      · exact base64_letter _ (by omega)

theorem id_perm : ∀ l : List (Text × Text), (id l).Perm l := List.Perm.refl

/-- A configuration whose file is gone after it was loaded. -/
def noFile : ProtectedConfiguration Empty where
  protectedPropMarker := MARKER
  keyFilePropertyName := none
  regex := ⟨fun _ => none, fun p => p.elim⟩
  hashOrder := id
  hashOrder_perm := id_perm
  canRead _ := false
  propertyFile := none
  fileWrite _ := none

/-- One protected property, with a value. -/
def oneSecret (value : Text) : Properties := ⟨[(MARKER ++ ['x'], value)], List.nodup_singleton _⟩

theorem noFile_run : noFile.protectValues (some tagging) () (oneSecret ['y']) =
    .ok ⟨(), oneSecret ['E', 'N', 'C', 'H', 'J'], some []⟩ := by
  rfl

theorem protectValues_protects_iff_oneSecret :
    noFile.protectValues (some tagging) () (oneSecret ['y']) = .ok ⟨(), oneSecret ['E', 'N', 'C', 'H', 'J'], some []⟩ ∧
    ∀ name value, MARKER <+: name → (oneSecret ['E', 'N', 'C', 'H', 'J']).getProperty name = some value →
      tagging.isProtected value = .ok true := by
  refine ⟨noFile_run, ((protectValues_protects_iff (fun _ _ => ⟨_, rfl⟩) noFile_run).mpr fun name value _ hv => ?_).1⟩
  have h := Properties.mem_entries_iff.mpr hv
  obtain ⟨rfl, rfl⟩ := Prod.mk.inj (List.mem_singleton.mp h)
  exact Or.inr ⟨rfl, by decide, (), _, rfl, rfl, rfl⟩

/-- A value that starts with the marker stays in plain text. -/
theorem noFile_plain : noFile.protectValues (some tagging) () (oneSecret (MARKER ++ ['y'])) =
      .ok ⟨(), oneSecret (MARKER ++ ['y']), none⟩ ∧
    (oneSecret (MARKER ++ ['y'])).getProperty (MARKER ++ ['x']) = some (MARKER ++ ['y']) ∧
    tagging.isProtected (MARKER ++ ['y']) = .ok false := by
  refine ⟨rfl, rfl, rfl⟩

end ProtectedConfiguration

end Plethora
