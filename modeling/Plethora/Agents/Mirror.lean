/-
# Whether the Python reader mirrors the Java one

The two readers take the keys of one table each in an order of its own. Both
come to their end and register the same metrics exactly if they agree on each
name that the keys stand for (`agree_iff`), and whether they do is a matter of
the texts that the table has for the name alone (`Agreeing`): what each takes
off a text, which words it tells, and what it takes for a number or a truth
value.

Key definitions: `MetricRecord`, `SameValue`, `SameType`, `Agreeing`.
Key theorems: `getMetric_agree_iff`, `readers_agree_iff`.
-/
import Plethora.Agents.Words
import Plethora.Channel.MetricsFile

namespace Plethora

open Strip Plethoralib

/-! ### What is compared -/

/-- A metric, as either reader registers it. -/
structure MetricRecord where
  type : MetricType
  value : Option Value
  level : Level
  displayname : Text
  description : Text
  deriving DecidableEq

/-- What a Java object is in Python. -/
def JavaObject.toValue : JavaObject → Option Value
  | .long n => some (.number n.toInt)
  | .string t => some (.text t)
  | .boolean b => some (.boolean b)
  | _ => none

def Metric.record (m : Metric) : MetricRecord where
  type := m.metricType
  value := m.initialValue.bind JavaObject.toValue
  level := m.properties.level
  displayname := m.properties.displayname
  description := m.properties.description

def Plethoralib.Metric.record (m : Plethoralib.Metric) : MetricRecord where
  type := m.properties.type
  value := some m.value
  level := m.properties.level
  displayname := m.properties.displayname
  description := m.properties.description

/-- Both readers come to their end on the table, and have registered the same. -/
def Agree (props : Properties) (keySet keys : List Text) (sysPropertyPrefix : Option Text) : Prop :=
  ∃ metrics metrics', PropertiesMetricsReader.processMetricsConfig props keySet sysPropertyPrefix {} = .ok metrics ∧
    MetricsPropertiesReader.processMetricsConfig props keys [] = .ok metrics' ∧
    ∀ n, (metrics.get n).map Metric.record = (metrics'.lookup n).map Plethoralib.Metric.record

/-! ### What they agree on -/

/-- `Long.valueOf` reads this number, or cannot read the text and the number is
zero. -/
def Reads (x : Text) (k : ℤ) : Prop :=
  match Long.valueOf x with
  | some j => j.toInt = k
  | none => k = 0

/-- What Python takes for a number is a whole one that Java reads as well, and
what it does not take for one is none to Java. -/
def SameNumber (x : Text) : Prop :=
  if isNumber (some x) then ∃ k, long x = .ok k ∧ Reads x k else Reads x 0

/-- The condition on the value of a metric of this type. -/
def SameValue (type : MetricType) (value : Option Text) : Prop :=
  match type, value with
  | .number, some x => SameNumber x
  | .boolean, some x => x ≠ "1".toList
  | _, _ => True

/-- The type Python derives from an ASCII value. -/
def Plethoralib.shows (x : Text) : MetricType :=
  if showsBoolean x then .boolean else if isNumber (some x) then .number else .text

/-- The condition on the value, by the type that the table declares to Java
and to Python, if any. -/
def SameType (declared declared' : Option MetricType) (value : Option Text) : Prop :=
  match declared, declared' with
  | some t, some t' => t = t' ∧ SameValue t value
  | some t, none =>
    (match value with
      | none => t = .text
      | some x => Ascii x ∧ Plethoralib.shows x = t) ∧ SameValue t value
  | none, some t' => (∃ x, value = some x ∧ shows x = t') ∧ SameValue t' value
  | none, none =>
    ∃ x, value = some x ∧ Ascii x ∧ (Double.parses x = true ↔ isNumber (some x) = true) ∧
      (Util.isBoolean (some x) = true ↔ showsBoolean x = true) ∧ (isNumber (some x) = true → SameNumber x)

/-- Both readers find the word of a level other than the default, or neither does. -/
def SameLevel (level : Text) : Prop :=
  ∀ word ∈ ["limited".toList, "internal".toList],
    equalsIgnoreCase word (Util.trimConfigStrings level) = MetricsPropertiesReader.isLevel word (strip isSpace level)

/-- The texts that the table has for this name, that both readers take alike. -/
structure Agreeing (props : Properties) (n : Text) : Prop where
  named : n ≠ []
  ascii : Ascii n
  displayname : ∀ x, props.rawAttribute n "name".toList = some x → Straight x ∧ Ascii (strip isSpace x)
  description : ∀ x, props.rawAttribute n "description".toList = some x → Straight x ∧ Ascii (strip isSpace x)
  level : ∀ x, props.rawAttribute n "level".toList = some x → SameLevel x
  type : SameType (known (PropertiesMetricsReader.declaredType props n))
    (known (MetricsPropertiesReader.declaredType props n)) (props.getProperty n)

/-! ### Types -/

theorem python_valueType_some {x : Text} {t : MetricType} :
    Plethoralib.valueType (some x) = .ok t ↔ Ascii x ∧ Plethoralib.shows x = t := by
  by_cases ha : Ascii x
  · have hs : str x = .ok x := by simp [str, ha]
    have hb : isBoolean x = .ok (showsBoolean x) := by
      rw [isBoolean, hs]
      rfl
    have hv : Plethoralib.valueType (some x) = .ok (Plethoralib.shows x) := by
      unfold Plethoralib.valueType Plethoralib.shows
      simp only [hb]
      cases showsBoolean x <;> cases isNumber (some x) <;> rfl
    rw [hv, Except.ok.injEq, and_iff_right ha]
  · have hs : str x = .error .unicodeEncode := by simp [str, ha]
    have hv : Plethoralib.valueType (some x) = .error .unicodeEncode := by
      simp only [Plethoralib.valueType, isBoolean, hs]
      rfl
    rw [hv]
    exact iff_of_false nofun fun h => ha h.1

/-- The type that Python settles on. -/
theorem python_theType_ok {d t : MetricType} {v : Option Text} : MetricsPropertiesReader.theType d v = .ok t ↔
    known d = some t ∨ known d = none ∧ (match v with
      | none => t = .text
      | some x => Ascii x ∧ Plethoralib.shows x = t) := by
  unfold MetricsPropertiesReader.theType
  cases hk : known d with
  | some t' =>
    rw [if_neg (not_of_known hk), known_eq_some hk]
    simp
  | none =>
    rw [if_pos (known_eq_none.mp hk)]
    cases v with
    | none =>
      simp [Plethoralib.valueType, eq_comm]
    | some x =>
      rw [python_valueType_some]
      simp

/-- The two derive the same type from a value exactly if they tell numbers and
truth values alike. -/
theorem shows_eq_iff {x : Text} : shows x = Plethoralib.shows x ↔
    (Double.parses x = true ↔ isNumber (some x) = true) ∧ (Util.isBoolean (some x) = true ↔ showsBoolean x = true) := by
  have hj := @not_parses_of_isBoolean x
  have hp := @not_isNumber_of_isBoolean x
  unfold shows Plethoralib.shows
  cases hd : Double.parses x <;> cases hb : Util.isBoolean (some x) <;> cases hn : isNumber (some x) <;>
    cases hs : showsBoolean x <;> simp_all

/-! ### Values -/

/-- The value that Java gives a metric of this type. -/
def javaValue (type : MetricType) (value : Option Text) : Value :=
  match type with
  | .number => .number (Util.getLong value 0).toInt
  | .boolean => .boolean (MetricFactory.getValidBoolean value)
  | _ => .text (value.getD [])

theorem reads_iff {x : Text} {k : ℤ} : Reads x k ↔ k = (Util.getLong (some x) 0).toInt := by
  unfold Reads Util.getLong
  rw [Option.bind_some]
  cases Long.valueOf x with
  | none => exact Iff.rfl
  | some j => exact eq_comm

theorem getNumber_iff {x : Text} :
    MetricsPropertiesReader.getNumber (some x) = .ok (Util.getLong (some x) 0).toInt ↔ SameNumber x := by
  unfold MetricsPropertiesReader.getNumber SameNumber
  by_cases h : isNumber (some x) = true
  · rw [if_pos h, if_pos h, Option.getD_some]
    simp only [reads_iff]
    simp
  · rw [if_neg h, if_neg h, reads_iff]
    exact ⟨fun h => Except.ok.inj h, fun h => congrArg Except.ok h⟩

theorem getBoolean_iff {x : Text} :
    MetricsPropertiesReader.getBoolean (some x) = MetricFactory.getValidBoolean (some x) ↔ x ≠ "1".toList := by
  have htrue : x.map Character.fold = "true".toList ↔ lower x = "true".toList := by
    refine map_fold_eq_iff fun d hd => ?_
    have hall : ∀ d ∈ "true".toList, d.toNat < 128 ∧ d ≠ 'i' ∧ d ≠ 's' := by decide
    exact ⟨(hall d hd).1, (hall d hd).2.1, (hall d hd).2.2⟩
  have hone : x = "1".toList → lower x ≠ "true".toList := by
    rintro rfl
    decide
  have hjava : MetricFactory.getValidBoolean (some x) = decide (lower x = "true".toList ∨ x = "1".toList) := by
    rw [Bool.eq_iff_iff]
    simp only [MetricFactory.getValidBoolean, Option.any_some, equalsIgnoreCase, Bool.or_eq_true, decide_eq_true_eq,
      htrue, map_fold_eq_one]
  have hpython : MetricsPropertiesReader.getBoolean (some x) = decide (lower x = "true".toList) := rfl
  rw [hjava, hpython, decide_eq_decide]
  exact ⟨fun h he => hone he (h.mpr (Or.inr he)), fun h => ⟨Or.inl, fun he => he.resolve_right h⟩⟩

/-- **The initial values meet** exactly under the condition on the value. -/
theorem validValue_iff {t : MetricType} {v : Option Text} (ht : Proper t) :
    MetricsPropertiesReader.validValue t v = .ok (javaValue t v) ↔ SameValue t v := by
  rcases ht with rfl | rfl | rfl
  · exact iff_of_true rfl (by unfold SameValue; trivial)
  · cases v with
    | none => exact iff_of_true rfl (by unfold SameValue; trivial)
    | some x =>
      have hmap : ∀ r : Except PythonError ℤ, ∀ k : ℤ, r.map Value.number = .ok (.number k) ↔ r = .ok k := by
        rintro (e | j) k <;> simp [Except.map]
      exact (hmap _ _).trans getNumber_iff
  · cases v with
    | none => exact iff_of_true rfl (by unfold SameValue; trivial)
    | some x =>
      have hok : ∀ b b' : Bool, (Except.ok (.boolean b) : Except PythonError Value) = .ok (.boolean b') ↔ b = b' := by
        simp
      exact (hok _ _).trans getBoolean_iff

/-- A value's own type leaves only whole numbers to ask for. -/
theorem sameValue_shows {x : Text} :
    SameValue (Plethoralib.shows x) (some x) ↔ (isNumber (some x) = true → SameNumber x) := by
  unfold Plethoralib.shows
  by_cases hs : showsBoolean x = true
  · have hn := not_isNumber_of_isBoolean hs
    have hone : x ≠ "1".toList := by
      rintro rfl
      exact absurd hs (by decide)
    rw [if_pos hs]
    exact iff_of_true hone fun h => absurd h (by simp [hn])
  · rw [if_neg hs]
    by_cases hn : isNumber (some x) = true
    · rw [if_pos hn]
      exact ⟨fun h _ => h, fun h => h hn⟩
    · rw [if_neg hn]
      exact iff_of_true trivial fun h => absurd h hn

/-- **The types and the values meet** exactly under the condition on both. -/
theorem theType_agree_iff {d d' : MetricType} {v : Option Text} :
    (∃ t, PropertiesMetricsReader.theType d v = .ok t ∧ MetricsPropertiesReader.theType d' v = .ok t ∧
      MetricsPropertiesReader.validValue t v = .ok (javaValue t v)) ↔ SameType (known d) (known d') v := by
  simp only [theType_ok, python_theType_ok]
  cases hk : known d with
  | some t =>
    have ht := proper_of_known hk
    cases hk' : known d' with
    | some t' =>
      have ht' := proper_of_known hk'
      simp only [Option.some.injEq, reduceCtorEq, false_and, or_false, SameType]
      constructor
      · rintro ⟨u, rfl, rfl, hv⟩
        exact ⟨rfl, (validValue_iff ht).mp hv⟩
      · rintro ⟨rfl, hv⟩
        exact ⟨t, rfl, rfl, (validValue_iff ht).mpr hv⟩
    | none =>
      simp only [Option.some.injEq, reduceCtorEq, false_and, or_false, false_or, true_and, SameType]
      constructor
      · rintro ⟨u, rfl, hu, hv⟩
        exact ⟨hu, (validValue_iff ht).mp hv⟩
      · rintro ⟨hu, hv⟩
        exact ⟨t, rfl, hu, (validValue_iff ht).mpr hv⟩
  | none =>
    cases hk' : known d' with
    | some t' =>
      have ht' := proper_of_known hk'
      simp only [Option.some.injEq, reduceCtorEq, false_and, or_false, false_or, true_and, SameType]
      constructor
      · rintro ⟨u, hu, rfl, hv⟩
        exact ⟨hu, (validValue_iff ht').mp hv⟩
      · rintro ⟨hu, hv⟩
        exact ⟨t', hu, rfl, (validValue_iff ht').mpr hv⟩
    | none =>
      simp only [reduceCtorEq, false_or, true_and, SameType]
      constructor
      · rintro ⟨u, ⟨x, rfl, hu⟩, ⟨ha, hp⟩, hv⟩
        have hsame := shows_eq_iff.mp (hu.trans hp.symm)
        rw [← hp] at hv
        refine ⟨x, rfl, ha, hsame.1, hsame.2, sameValue_shows.mp ((validValue_iff ?_).mp hv)⟩
        rw [hp, ← hu]
        exact proper_shows x
      · rintro ⟨x, rfl, ha, hd, hb, hn⟩
        have hsame := shows_eq_iff.mpr ⟨hd, hb⟩
        refine ⟨shows x, ⟨x, rfl, rfl⟩, ⟨ha, hsame.symm⟩, (validValue_iff (proper_shows x)).mpr ?_⟩
        rw [hsame]
        exact sameValue_shows.mpr hn

/-! ### Levels -/

/-- The level by which of its words is found. -/
def levelOf (isPublic isLimited isInternal : Bool) : Level :=
  if isPublic then .publicLevel else if isLimited then .limited else if isInternal then .internal else .publicLevel

theorem levelOf_eq_iff : ∀ p l i p' l' i' : Bool, (p && l) = false → (p && i) = false → (l && i) = false →
    (p' && l') = false → (p' && i') = false → (l' && i') = false →
    (levelOf p l i = levelOf p' l' i' ↔ l = l' ∧ i = i') := by decide

/-- A word is found in texts of its length alone. -/
theorem apart {word word' t : Text} (h : word.length ≠ word'.length) :
    (equalsIgnoreCase word t && equalsIgnoreCase word' t) = false ∧
      (MetricsPropertiesReader.isLevel word t && MetricsPropertiesReader.isLevel word' t) = false := by
  have hjava : ∀ w, equalsIgnoreCase w t = true → w.length = t.length := by
    intro w hw
    rw [← (of_decide_eq_true hw : t.map Character.fold = w), List.length_map]
  have hpython : ∀ w, MetricsPropertiesReader.isLevel w t = true → w.length = t.length := by
    intro w hw
    rcases of_decide_eq_true hw with hw | hw
    · rw [hw, upper, List.length_map]
    · rw [hw, lower, List.length_map]
  constructor
  · rw [Bool.and_eq_false_iff]
    by_contra hb
    rw [not_or, Bool.not_eq_false, Bool.not_eq_false] at hb
    exact h ((hjava word hb.1).trans (hjava word' hb.2).symm)
  · rw [Bool.and_eq_false_iff]
    by_contra hb
    rw [not_or, Bool.not_eq_false, Bool.not_eq_false] at hb
    exact h ((hpython word hb.1).trans (hpython word' hb.2).symm)

/-- **The levels meet** exactly under the condition on the attribute. -/
theorem getLevel_agree_iff {level : Text} : PropertiesMetricsReader.getLevel (some (Util.trimConfigStrings level)) =
    MetricsPropertiesReader.getLevel (strip isSpace level) ↔ SameLevel level := by
  have hpl : "public".toList.length ≠ "limited".toList.length := by decide
  have hpi : "public".toList.length ≠ "internal".toList.length := by decide
  have hli : "limited".toList.length ≠ "internal".toList.length := by decide
  unfold SameLevel
  rw [List.forall_mem_cons, List.forall_mem_singleton]
  exact levelOf_eq_iff _ _ _ _ _ _ (apart hpl).1 (apart hpi).1 (apart hli).1 (apart hpl).2 (apart hpi).2 (apart hli).2

/-! ### One name -/

variable {props : Properties} {n : Text}

theorem getMetricOf_registered {t : MetricType} {v : Option Text} {p : MetricProperties} (hn : n ≠ []) (ht : Proper t) :
    (MetricFactory.getMetricOf (some n) v { p with type := t }).map Metric.record =
      some ⟨t, some (javaValue t v), p.level, p.displayname, p.description⟩ := by
  cases n with
  | nil => exact absurd rfl hn
  | cons c n => rcases ht with rfl | rfl | rfl <;> rfl

theorem getMetricOf_nil (v : Option Text) (p : MetricProperties) : MetricFactory.getMetricOf (some []) v p = none := rfl

theorem attribute_agree_iff {raw : Option Text} {dflt : Text} (hd : Ascii dflt) :
    ((raw.map Util.trimConfigStrings).getD dflt = (raw.map (strip isSpace)).getD dflt ∧
      Ascii ((raw.map (strip isSpace)).getD dflt)) ↔ ∀ x, raw = some x → Straight x ∧ Ascii (strip isSpace x) := by
  cases raw with
  | none => exact iff_of_true ⟨rfl, hd⟩ nofun
  | some x =>
    simp only [Option.map_some, Option.getD_some, Option.some.injEq, forall_eq', trimConfigStrings_eq_iff]

theorem level_agree_iff {raw : Option Text} : PropertiesMetricsReader.getLevel (raw.map Util.trimConfigStrings) =
    MetricsPropertiesReader.getLevel ((raw.map (strip isSpace)).getD "public".toList) ↔
      ∀ x, raw = some x → SameLevel x := by
  cases raw with
  | none => exact iff_of_true (by decide) nofun
  | some x =>
    simp only [Option.map_some, Option.getD_some, Option.some.injEq, forall_eq']
    exact getLevel_agree_iff

theorem getMetricProperties_ok {p : MetricProperties} :
    MetricsPropertiesReader.getMetricProperties n props = .ok p ↔
      Ascii n ∧ Ascii (MetricsPropertiesReader.getAttribute "name".toList props n n) ∧
      Ascii (MetricsPropertiesReader.getAttribute "description".toList props n []) ∧
      p = { displayname := MetricsPropertiesReader.getAttribute "name".toList props n n
            description := MetricsPropertiesReader.getAttribute "description".toList props n []
            level := MetricsPropertiesReader.getLevel
              (MetricsPropertiesReader.getAttribute "level".toList props n "public".toList)
            type := MetricsPropertiesReader.declaredType props n } := by
  have hnil : Ascii [] := by decide
  unfold MetricsPropertiesReader.getMetricProperties
  constructor
  · intro h
    obtain ⟨s, hs, h⟩ := bind_eq_ok.mp h
    obtain ⟨s', hs', h⟩ := bind_eq_ok.mp h
    obtain ⟨s'', hs'', h⟩ := bind_eq_ok.mp h
    have hn := (MetricsPropertiesReader.str_ok.mp hs).1
    exact ⟨hn, (MetricsPropertiesReader.exists_strUnless_ok hn).mp ⟨s', hs'⟩,
      (MetricsPropertiesReader.exists_strUnless_ok hnil).mp ⟨s'', hs''⟩, (Except.ok.inj h).symm⟩
  · rintro ⟨hn, hname, hdesc, rfl⟩
    obtain ⟨s', hs'⟩ := (MetricsPropertiesReader.exists_strUnless_ok hn).mpr hname
    obtain ⟨s'', hs''⟩ := (MetricsPropertiesReader.exists_strUnless_ok hnil).mpr hdesc
    have hstr := MetricsPropertiesReader.str_ok.mpr ⟨hn, rfl⟩
    exact bind_eq_ok.mpr ⟨n, hstr, bind_eq_ok.mpr ⟨s', hs', bind_eq_ok.mpr ⟨s'', hs'', rfl⟩⟩⟩

/-- **One name.** Both readers make a metric of it, and the same one, exactly
if they take its texts alike. -/
theorem getMetric_agree_iff :
    (∃ b m, PropertiesMetricsReader.getMetric props n = .ok b ∧ MetricsPropertiesReader.getMetric props n = .ok m ∧
      b.map Metric.record = some m.record) ↔ Agreeing props n := by
  constructor
  · rintro ⟨b, m, hb, hm, he⟩
    obtain ⟨t, ht, hb⟩ := bind_eq_ok.mp hb
    cases hb
    obtain ⟨p, hp, hm⟩ := bind_eq_ok.mp hm
    obtain ⟨t', ht', hm⟩ := bind_eq_ok.mp hm
    obtain ⟨val, hval, hm⟩ := bind_eq_ok.mp hm
    cases hm
    obtain ⟨hascii, hname, hdesc, rfl⟩ := getMetricProperties_ok.mp hp
    have hn : n ≠ [] := by
      rintro rfl
      rw [getMetricOf_nil] at he
      cases he
    rw [getMetricOf_registered hn (proper_of_theType ht)] at he
    obtain ⟨rfl, hv, hlevel, hdisplay, hdescription⟩ := (MetricRecord.mk.injEq ..).mp (Option.some.inj he)
    refine ⟨hn, hascii, (attribute_agree_iff hascii).mp ⟨hdisplay, hname⟩,
      (attribute_agree_iff (by decide)).mp ⟨hdescription, hdesc⟩, level_agree_iff.mp hlevel,
      theType_agree_iff.mp ⟨t, ht, ht', ?_⟩⟩
    have hv : some (javaValue t (props.getProperty n)) = some val := hv
    rw [hval, Option.some.inj hv]
  · rintro ⟨hn, hascii, hdisplay, hdescription, hlevel, htype⟩
    obtain ⟨hdisplay, hname⟩ := (attribute_agree_iff hascii).mpr hdisplay
    obtain ⟨hdescription, hdesc⟩ := (@attribute_agree_iff _ [] (by decide)).mpr hdescription
    obtain ⟨t, ht, ht', hval⟩ := theType_agree_iff.mpr htype
    have hp := getMetricProperties_ok.mpr ⟨hascii, hname, hdesc, rfl⟩
    refine ⟨_, _, bind_eq_ok.mpr ⟨t, ht, rfl⟩,
      bind_eq_ok.mpr ⟨_, hp, bind_eq_ok.mpr ⟨t, ht', bind_eq_ok.mpr ⟨_, hval, rfl⟩⟩⟩, ?_⟩
    rw [getMetricOf_registered hn (proper_of_theType ht)]
    exact congrArg some ((MetricRecord.mk.injEq ..).mpr ⟨rfl, rfl, level_agree_iff.mpr hlevel, hdisplay, hdescription⟩)

/-! ### The whole table -/

theorem isMetricKey_of_not_prefix {pre : Option Text} {key : Text} (hp : pre = none ∨ pre = some "plethora.".toList)
    (h : ¬ "plethora.".toList <+: key) : PropertiesMetricsReader.isMetricKey pre key = true := by
  rcases hp with rfl | rfl
  · rfl
  · have hb : ("plethora.".toList).isPrefixOf key = false := by
      rw [Bool.eq_false_iff]
      exact fun hb => h (List.isPrefixOf_iff_prefix.mp hb)
    unfold PropertiesMetricsReader.isMetricKey
    rw [Option.getD_some, hb]
    rfl

/-- **The readers agree exactly if they take the texts of each name alike.**
The keys come in any order to either of them, and the Java one may be told to
leave the keys of its own configuration out. -/
theorem readers_agree_iff (props : Properties) {keySet keys : List Text} {sysPropertyPrefix : Option Text}
    (hj : keySet.Perm props.stringPropertyNames) (hp : keys.Perm props.stringPropertyNames)
    (hpre : sysPropertyPrefix = none ∨ sysPropertyPrefix = some "plethora.".toList)
    (hown : ∀ key ∈ props.stringPropertyNames, ¬ "plethora.".toList <+: key) :
    Agree props keySet keys sysPropertyPrefix ↔
      ∀ key ∈ props.stringPropertyNames, Agreeing props (getMetricNameFromPropertyKey key) := by
  have hk : ∀ key ∈ keySet, PropertiesMetricsReader.isMetricKey sysPropertyPrefix key = true := fun key h =>
    isMetricKey_of_not_prefix hpre (hown key (hj.mem_iff.mp h))
  constructor
  · rintro ⟨metrics, metrics', hrun, hrun', hsame⟩ key hkey
    obtain ⟨hbuilt, hget⟩ := PropertiesMetricsReader.processMetricsConfig_ok hrun hk
    obtain ⟨hbuilt', hget'⟩ := MetricsPropertiesReader.processMetricsConfig_ok hrun'
    obtain ⟨b, hb⟩ := hbuilt key (hj.mem_iff.mpr hkey)
    obtain ⟨m, hm⟩ := hbuilt' key (hp.mem_iff.mpr hkey)
    have hboth := hsame (getMetricNameFromPropertyKey key)
    rw [hget, hget', if_pos (List.mem_map_of_mem (hj.mem_iff.mpr hkey)),
      if_pos (List.mem_map_of_mem (hp.mem_iff.mpr hkey)), Registering.built, hb, hm] at hboth
    exact getMetric_agree_iff.mp ⟨b, m, hb, hm, hboth⟩
  · intro h
    have hone : ∀ key ∈ props.stringPropertyNames, ∃ b m,
        PropertiesMetricsReader.getMetric props (getMetricNameFromPropertyKey key) = .ok b ∧
        MetricsPropertiesReader.getMetric props (getMetricNameFromPropertyKey key) = .ok m ∧
        b.map Metric.record = some m.record := fun key hkey => getMetric_agree_iff.mpr (h key hkey)
    obtain ⟨metrics, hrun⟩ := PropertiesMetricsReader.exists_processMetricsConfig hk fun key hkey => by
      obtain ⟨b, m, hb, -, -⟩ := hone key (hj.mem_iff.mp hkey)
      exact ⟨b, hb⟩
    obtain ⟨metrics', hrun'⟩ := MetricsPropertiesReader.exists_processMetricsConfig fun key hkey => by
      obtain ⟨b, m, -, hm, -⟩ := hone key (hp.mem_iff.mp hkey)
      exact ⟨m, hm⟩
    refine ⟨metrics, metrics', hrun, hrun', fun n => ?_⟩
    rw [(PropertiesMetricsReader.processMetricsConfig_ok hrun hk).2 n,
      (MetricsPropertiesReader.processMetricsConfig_ok hrun').2 n]
    by_cases hn : n ∈ props.stringPropertyNames.map getMetricNameFromPropertyKey
    · have hn' : n ∈ keySet.map getMetricNameFromPropertyKey := (hj.map _).mem_iff.mpr hn
      have hn'' : n ∈ keys.map getMetricNameFromPropertyKey := (hp.map _).mem_iff.mpr hn
      obtain ⟨key, hkey, rfl⟩ := List.mem_map.mp hn
      obtain ⟨b, m, hb, hm, hbm⟩ := hone key hkey
      rw [if_pos hn', if_pos hn'', Registering.built, hb, hm]
      exact hbm
    · have hn' : n ∉ keySet.map getMetricNameFromPropertyKey := fun h => hn ((hj.map _).mem_iff.mp h)
      have hn'' : n ∉ keys.map getMetricNameFromPropertyKey := fun h => hn ((hp.map _).mem_iff.mp h)
      rw [if_neg hn', if_neg hn'']
      rfl

/-- A table of one line. -/
def oneLine (key value : Text) : Properties := ⟨[(key, value)], List.nodup_singleton key⟩

theorem readers_agree_iff_rate :
    Agree (oneLine "rate".toList "5".toList) ["rate".toList] ["rate".toList] none ∧
    ¬ Agree (oneLine "rate".toList "1.5".toList) ["rate".toList] ["rate".toList] none := by
  have hiff : ∀ v, Agree (oneLine "rate".toList v) ["rate".toList] ["rate".toList] none ↔
      ∀ key ∈ (oneLine "rate".toList v).stringPropertyNames,
        Agreeing (oneLine "rate".toList v) (getMetricNameFromPropertyKey key) := by
    intro v
    have hrate : ¬ "plethora.".toList <+: "rate".toList := by decide
    refine readers_agree_iff _ (List.Perm.refl _) (List.Perm.refl _) (Or.inl rfl) fun key hkey => ?_
    rw [List.mem_singleton.mp hkey]
    exact hrate
  have hname : getMetricNameFromPropertyKey "rate".toList = "rate".toList := by decide
  constructor
  · rw [hiff]
    intro key hkey
    rw [List.mem_singleton.mp hkey, hname]
    have hfive : SameNumber "5".toList := getNumber_iff.mp (by decide)
    exact ⟨by decide, by decide, nofun, nofun, nofun,
      "5".toList, rfl, by decide, by decide, by decide, fun _ => hfive⟩
  · rw [hiff]
    intro h
    obtain ⟨x, hx, -, -, -, hnumber⟩ := (h "rate".toList List.mem_cons_self).type
    cases hx
    have hbad := getNumber_iff.mpr (hnumber (by decide))
    exact absurd hbad (by decide)

/-- A number with a fraction ends the Python loop. -/
theorem fraction_not_read :
    ¬ (∀ (props : Properties) (keySet keys : List Text) (sysPropertyPrefix : Option Text),
      keySet.Perm props.stringPropertyNames → keys.Perm props.stringPropertyNames →
      (sysPropertyPrefix = none ∨ sysPropertyPrefix = some "plethora.".toList) →
      (∀ key ∈ props.stringPropertyNames, ¬ "plethora.".toList <+: key) →
      Agree props keySet keys sysPropertyPrefix) ∧
    MetricsPropertiesReader.processMetricsConfig (oneLine "rate".toList "1.5".toList) ["rate".toList] [] =
      .error .value := by
  have hrun : MetricsPropertiesReader.processMetricsConfig (oneLine "rate".toList "1.5".toList) ["rate".toList] [] =
      .error .value := by decide
  refine ⟨fun h => ?_, hrun⟩
  have hrate : ¬ "plethora.".toList <+: "rate".toList := by decide
  obtain ⟨-, metrics', -, hrun', -⟩ := h (oneLine "rate".toList "1.5".toList) ["rate".toList] ["rate".toList] none
    (List.Perm.refl _) (List.Perm.refl _) (Or.inl rfl) fun key hkey => by
      rw [List.mem_singleton.mp hkey]
      exact hrate
  rw [hrun] at hrun'
  cases hrun'

end Plethora
