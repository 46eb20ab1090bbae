/-
# The metrics that a C++ agent is configured with

`Channel::Channel` reads a file into `props` and goes over them in the order of
the map: a key that begins with `plethora` is for the agent, any other key is
for a metric, the one it names or the one whose attribute it is. The first key
of a metric makes it, with the value of that key.

So a metric that has only attributes begins with one of them, the first in the
order of the map: its description, its level, its name, its type
(`newChannel_configured`). A metric that is in the store already stays as it is.

Key definitions: `Cpp.newChannel`, `Cpp.keysOf`, `Cpp.configuredMetric`.
Key theorems: `getMetric_addMetric`, `getMetric_processProps`, `newChannel_configured`.
-/
import Plethora.Agents.CppChannel
import Plethora.Agents.CppConfig

namespace Plethora

open FirstWins

namespace Cpp

namespace Autil

def endsWith (str suffix : Text) : Bool :=
  if str.isEmpty || suffix.isEmpty then false
  else if str.length < suffix.length then false
  else str.drop (str.length - suffix.length) = suffix

def startsWith (str prefixed : Text) : Bool :=
  if str.isEmpty || prefixed.isEmpty then false
  else if str.length < prefixed.length then false
  else str.take prefixed.length = prefixed

/-- `atoi`, whose result `getNumber` widens. -/
def atoi (t : Text) : Int32 := (getNumber t).toInt32

end Autil

/-! ### `Enums` -/

inductive Attribute
  | name
  | type
  | level
  | description

namespace Enums

def types : List (Text × MetricType) :=
  [("number".toList, .number), ("text".toList, .text), ("boolean".toList, .boolean),
    ("unspecified".toList, .unspecified), ("invalid".toList, .invalid)]

/-- `TYPEFROM`, `none` for `UNKNOWN_TYPE`. -/
def typeFrom (thetype : Text) : Option MetricType := types.lookup (thetype.map Char.toLower)

def levels : List (Text × Level) :=
  [("public".toList, .publicLevel), ("limited".toList, .limited), ("internal".toList, .internal)]

def levelFrom (thelevel : Text) : Level := (levels.lookup (thelevel.map Char.toLower)).getD .publicLevel

def attributeOf : Attribute → Text
  | .name => "name".toList
  | .type => "type".toList
  | .level => "level".toList
  | .description => "description".toList

end Enums

/-! ### `Channel` -/

/-- The fields of a `Channel`, with the metrics of the program. -/
structure ChannelState where
  hostname : Text := []
  port : Int32 := 0
  props : List (Text × Text) := []
  metrics : Store

namespace Channel

/-- `Channel::ATTRIBUTES`. -/
def attributes : List Text := ["name".toList, "type".toList, "level".toList, "description".toList]

def getMetricNameFromPropertyKey (key : Text) : Text :=
  if attributes.any fun attrib => Autil.endsWith key ('.' :: attrib) then
    (key.rdropWhile (· ≠ '.')).dropLast
  else key

def isMetricKey (key propPrefix : Text) : Bool :=
  if propPrefix.isEmpty then true else !Autil.startsWith key propPrefix

section Props

variable (props : List (Text × Text))

def getAttribute (attrib : Attribute) (metric : Text) : Text :=
  (props.lookup (metric ++ '.' :: Enums.attributeOf attrib)).getD []

/-- `getAttribute` with a default value. -/
def getAttributeOr (attrib : Attribute) (metric defaultValue : Text) : Text :=
  if (getAttribute props attrib metric).isEmpty then defaultValue else getAttribute props attrib metric

def getMetricProperties (metric : Text) : MetricProperties where
  type := .text
  displayname := getAttributeOr props .name metric metric
  description := getAttributeOr props .description metric []
  level := Enums.levelFrom (getAttribute props .level metric)

/-- The metric that is made for a name with a first value. -/
def makeMetric (metric value : Text) : BaseMetric :=
  addMetric metric value (Enums.typeFrom (getAttributeOr props .type metric "unspecified".toList))
    (getMetricProperties props metric)

end Props

def existingMetric (metrics : Store) (key : Text) : Bool := (metrics.getMetric key).isSome

def processSysNameValue (name value : Text) (s : ChannelState) : ChannelState :=
  if name = "plethora.host".toList then { s with hostname := value }
  else if name = "plethora.port".toList then { s with port := Autil.atoi value }
  else s

def processMetricNameValue (name value : Text) (s : ChannelState) : ChannelState :=
  let metric := getMetricNameFromPropertyKey name
  if !existingMetric s.metrics metric then
    { s with metrics := Metrics.addMetric s.metrics (makeMetric s.props metric value) }
  else s

def processNameValuePair (name value : Text) (s : ChannelState) : ChannelState :=
  if isMetricKey name "plethora".toList then processMetricNameValue name value s
  else processSysNameValue name value s

end Channel

open Channel

/-- The loop of `readConfig` over the map. -/
def processProps (entries : List (Text × Text)) (s : ChannelState) : ChannelState :=
  entries.foldl (fun s e => processNameValuePair e.1 e.2 s) s

/-- `Channel::Channel`, with what `readFile` gives and the metrics before it. -/
def newChannel (config : Option Autil.Block) (metrics : Store) : Option ChannelState :=
  match config with
  | none => some { metrics }
  | some config => do
    let props ← readConfig config
    some (processProps props { props, metrics })

/-! ### The keys of a metric -/

section Keys

open Autil

theorem endsWith_iff {str suffix : Text} (h : suffix ≠ []) : endsWith str suffix = true ↔ suffix <:+ str := by
  unfold endsWith
  rw [List.suffix_iff_eq_drop]
  split
  next hempty =>
    have hstr : str = [] := by simpa [h] using hempty
    subst hstr
    simpa using h
  split
  next hlt =>
    refine iff_of_false Bool.false_ne_true fun he => ?_
    have hlen := congrArg List.length he
    rw [List.length_drop] at hlen
    omega
  next => rw [decide_eq_true_eq, eq_comm]

theorem startsWith_iff {str propPrefix : Text} (h : propPrefix ≠ []) :
    startsWith str propPrefix = true ↔ propPrefix <+: str := by
  unfold startsWith
  rw [List.prefix_iff_eq_take]
  split
  next hempty =>
    have hstr : str = [] := by simpa [h] using hempty
    subst hstr
    simpa using h
  split
  next hlt =>
    refine iff_of_false Bool.false_ne_true fun he => ?_
    have hlen := congrArg List.length he
    rw [List.length_take] at hlen
    omega
  next => rw [decide_eq_true_eq, eq_comm]

/-- A key with an attribute names what is before it. -/
theorem name_append {attrib : Text} (h : attrib ∈ attributes) (n : Text) :
    getMetricNameFromPropertyKey (n ++ '.' :: attrib) = n := by
  have hany : (attributes.any fun a => endsWith (n ++ '.' :: attrib) ('.' :: a)) = true :=
    List.any_eq_true.mpr ⟨attrib, h, (endsWith_iff (List.cons_ne_nil _ _)).mpr (List.suffix_append n _)⟩
  have hdot : ∀ a ∈ attributes, '.' ∉ a := by decide
  have hrev : '.' ∉ attrib.reverse := fun hm => hdot attrib h (List.mem_reverse.mp hm)
  have hname : (n ++ '.' :: attrib).rdropWhile (· ≠ '.') = n ++ ['.'] := by
    rw [List.rdropWhile, List.reverse_append, List.reverse_cons, List.append_assoc, List.singleton_append,
      Pieces.dropWhile_append_cons hrev, List.reverse_cons, List.reverse_reverse]
  rw [getMetricNameFromPropertyKey, if_pos hany, hname, List.dropLast_concat]

/-- Any other key is a name. -/
theorem name_cases (key : Text) : getMetricNameFromPropertyKey key = key ∨
    ∃ attrib ∈ attributes, key = getMetricNameFromPropertyKey key ++ '.' :: attrib := by
  by_cases h : (attributes.any fun a => endsWith key ('.' :: a)) = true
  · obtain ⟨attrib, ha, hs⟩ := List.any_eq_true.mp h
    obtain ⟨n, rfl⟩ := (endsWith_iff (List.cons_ne_nil _ _)).mp hs
    exact Or.inr ⟨attrib, ha, by rw [name_append ha]⟩
  · exact Or.inl (if_neg h)

/-- The keys that are for a metric of this name, in the order of a map. -/
def keysOf (n : Text) : List Text :=
  (if getMetricNameFromPropertyKey n = n then [n] else []) ++
    ["description".toList, "level".toList, "name".toList, "type".toList].map (n ++ '.' :: ·)

theorem mem_keysOf {n key : Text} : key ∈ keysOf n ↔ getMetricNameFromPropertyKey key = n := by
  have hattributes : ∀ a, a ∈ ["description".toList, "level".toList, "name".toList, "type".toList] ↔ a ∈ attributes := by
    intro a
    simp only [attributes, List.mem_cons, List.not_mem_nil, or_false]
    tauto
  rw [keysOf, List.mem_append, List.mem_map]
  simp only [hattributes]
  constructor
  · rintro (h | ⟨attrib, ha, rfl⟩)
    · split at h
      next hn => exact List.mem_singleton.mp h ▸ hn
      next => exact absurd h List.not_mem_nil
    · exact name_append ha n
  · rintro rfl
    rcases name_cases key with h | ⟨attrib, ha, h⟩
    · exact .inl (by rw [h, if_pos h]; exact List.mem_singleton.mpr rfl)
    · exact .inr ⟨attrib, ha, h.symm⟩

theorem before_append : ∀ (n : Text) (c : Char) (t : Text), before n (n ++ c :: t) = true
  | [], _, _ => rfl
  | d :: n, c, t => by
    rw [List.cons_append, before, before_append n c t]
    simp

theorem before_append_left : ∀ n s t : Text, before (n ++ s) (n ++ t) = before s t
  | [], _, _ => rfl
  | d :: n, s, t => by
    rw [List.cons_append, List.cons_append, before, before_append_left n s t]
    simp

theorem sorted_keysOf (n : Text) : (keysOf n).Pairwise fun a b => before a b = true := by
  have hattributes : ["description".toList, "level".toList, "name".toList, "type".toList].Pairwise fun a b =>
      before ('.' :: a) ('.' :: b) = true := by decide
  refine List.pairwise_append.mpr ⟨?_, ?_, ?_⟩
  · split
    · exact List.pairwise_singleton _ _
    · exact .nil
  · rw [List.pairwise_map]
    refine hattributes.imp fun {a b} h => ?_
    rw [before_append_left]
    exact h
  · intro a ha b hb
    obtain ⟨attrib, -, rfl⟩ := List.mem_map.mp hb
    split at ha
    next =>
      rw [List.mem_singleton.mp ha]
      exact before_append n '.' attrib
    next => exact absurd ha List.not_mem_nil

/-- The key of an attribute is for the agent if the name is. -/
theorem isMetricKey_eq (key : Text) :
    isMetricKey key "plethora".toList = isMetricKey (getMetricNameFromPropertyKey key) "plethora".toList := by
  rcases name_cases key with h | ⟨attrib, ha, h⟩
  · rw [h]
  · generalize getMetricNameFromPropertyKey key = n at h
    subst h
    have hprefix : "plethora".toList <+: n ++ '.' :: attrib ↔ "plethora".toList <+: n := by
      refine ⟨fun hp => ?_, fun hp => hp.trans (List.prefix_append _ _)⟩
      rcases List.prefix_or_prefix_of_prefix hp (List.prefix_append n ('.' :: attrib)) with hn | ⟨r, hr⟩
      · exact hn
      · rw [← hr, List.prefix_append_right_inj] at hp
        cases r with
        | nil => exact ⟨[], by rw [← hr, List.append_nil, List.append_nil]⟩
        | cons c r =>
          -- the prefix has no dot
          obtain ⟨rfl, -⟩ := List.cons_prefix_cons.mp hp
          exact absurd (hr ▸ List.mem_append_right n List.mem_cons_self) (by decide)
    have hstarts : startsWith (n ++ '.' :: attrib) "plethora".toList = startsWith n "plethora".toList := by
      rw [Bool.eq_iff_iff, startsWith_iff (by decide), startsWith_iff (by decide), hprefix]
    simp only [isMetricKey, hstarts]

end Keys

/-! ### What the loop adds -/

/-- **Adding a metric** leaves what is there, and adds it otherwise. -/
theorem getMetric_addMetric (s : Store) (m : BaseMetric) (n : Text) :
    (Metrics.addMetric s m).getMetric n = (s.getMetric n).or (if m.name = n then some m else none) := by
  obtain ⟨metrics, hsorted⟩ := s
  show (Metrics.insertMetric m metrics).find? _ = (metrics.find? _).or _
  induction metrics with
  | nil =>
    rw [Metrics.insertMetric, List.find?_cons, List.find?_nil, Option.none_or]
    by_cases hn : m.name = n
    · simp [hn]
    · simp [hn]
  | cons x metrics ih =>
    obtain ⟨hx, hrest⟩ := List.pairwise_cons.mp hsorted
    unfold Metrics.insertMetric
    by_cases hsame : m.name = x.name
    · rw [if_pos hsame, List.find?_cons]
      by_cases hn : x.name = n
      · simp [hn]
      · simp [hn, hsame]
    rw [if_neg hsame]
    by_cases hbefore : before m.name x.name = true
    · rw [if_pos hbefore, List.find?_cons]
      by_cases hn : m.name = n
      · -- no metric after it has its name
        have hnone : (x :: metrics).find? (fun y => decide (y.name = n)) = none := by
          rw [List.find?_eq_none]
          intro y hy hyn
          have hyn := of_decide_eq_true hyn
          rcases List.mem_cons.mp hy with rfl | hy
          · exact hsame (hn.trans hyn.symm)
          · have hlt := before_trans hbefore (hx _ (List.mem_map_of_mem hy))
            rw [hn, hyn, before_irrefl] at hlt
            cases hlt
        rw [hnone, Option.none_or]
        simp [hn]
      · simp [hn]
    · rw [if_neg hbefore, List.find?_cons, List.find?_cons, ih hrest]
      cases decide (x.name = n) <;> rfl

theorem getMetric_processMetricNameValue (name value : Text) (s : ChannelState) (n : Text) :
    (processMetricNameValue name value s).metrics.getMetric n = (s.metrics.getMetric n).or
      (if getMetricNameFromPropertyKey name = n then some (makeMetric s.props n value) else none) := by
  unfold processMetricNameValue existingMetric
  by_cases hn : getMetricNameFromPropertyKey name = n
  · subst hn
    rw [if_pos rfl]
    dsimp only
    cases hget : s.metrics.getMetric (getMetricNameFromPropertyKey name) with
    | some m => exact hget
    | none => exact (getMetric_addMetric _ _ _).trans (by rw [hget]; exact if_pos rfl)
  · rw [if_neg hn, Option.or_none]
    dsimp only
    cases (s.metrics.getMetric (getMetricNameFromPropertyKey name)).isSome with
    | true => rfl
    | false => exact (getMetric_addMetric _ _ _).trans (by rw [if_neg (by exact hn), Option.or_none])

/-- What one key of the map does. -/
theorem getMetric_processNameValuePair (name value : Text) (s : ChannelState) (n : Text) :
    (processNameValuePair name value s).metrics.getMetric n = (s.metrics.getMetric n).or
      (if isMetricKey n "plethora".toList = true ∧ name ∈ keysOf n then some (makeMetric s.props n value) else none) := by
  rw [processNameValuePair, isMetricKey_eq]
  simp only [mem_keysOf]
  cases hkey : isMetricKey (getMetricNameFromPropertyKey name) "plethora".toList with
  | false =>
    have hnone : ¬(isMetricKey n "plethora".toList = true ∧ getMetricNameFromPropertyKey name = n) := by
      rintro ⟨h, rfl⟩
      exact Bool.false_ne_true (hkey.symm.trans h)
    rw [if_neg Bool.false_ne_true, if_neg hnone, Option.or_none, processSysNameValue]
    split
    · rfl
    split
    · rfl
    · rfl
  | true =>
    rw [if_pos rfl, getMetric_processMetricNameValue]
    by_cases hn : getMetricNameFromPropertyKey name = n
    · rw [if_pos hn, if_pos ⟨hn ▸ hkey, hn⟩]
    · rw [if_neg hn, if_neg fun h => hn h.2]

theorem props_processNameValuePair (name value : Text) (s : ChannelState) :
    (processNameValuePair name value s).props = s.props := by
  unfold processNameValuePair processMetricNameValue processSysNameValue
  split
  · dsimp only
    split
    · rfl
    · rfl
  split
  · rfl
  split
  · rfl
  · rfl

/-- **What the loop adds**: for each name the metric of its first key. -/
theorem getMetric_processProps (n : Text) : ∀ (entries : List (Text × Text)) (s : ChannelState),
    (processProps entries s).metrics.getMetric n = (s.metrics.getMetric n).or
      (if isMetricKey n "plethora".toList = true then
        (entries.find? fun e => decide (e.1 ∈ keysOf n)).map fun e => makeMetric s.props n e.2
      else none)
  | [], s => by
    rw [List.find?_nil, Option.map_none, ite_self, Option.or_none]
    rfl
  | (k, v) :: entries, s => by
    have ih := getMetric_processProps n entries (processNameValuePair k v s)
    rw [props_processNameValuePair, getMetric_processNameValuePair, Option.or_assoc] at ih
    refine ih.trans (congrArg _ ?_)
    by_cases hkey : isMetricKey n "plethora".toList = true
    · rw [if_pos hkey, if_pos hkey]
      by_cases hk : k ∈ keysOf n
      · have hfind : ((k, v) :: entries).find? (fun e => decide (e.1 ∈ keysOf n)) = some (k, v) :=
          List.find?_cons_of_pos (decide_eq_true hk)
        rw [if_pos ⟨hkey, hk⟩, hfind, Option.some_or, Option.map_some]
      · have hfind : ((k, v) :: entries).find? (fun e => decide (e.1 ∈ keysOf n)) =
            entries.find? fun e => decide (e.1 ∈ keysOf n) :=
          List.find?_cons_of_neg (by rw [decide_eq_true_eq]; exact hk)
        rw [if_neg fun h => hk h.2, hfind, Option.none_or]
    · rw [if_neg hkey, if_neg hkey, if_neg fun h => hkey h.1, Option.none_or]

/-- A field that one key sets, to what its value is converted to. -/
theorem foldl_field {α : Type} (field : ChannelState → α) (key : Text) (convert : Text → α)
    (h : ∀ k v s, field (processNameValuePair k v s) = if k = key then convert v else field s) :
    ∀ (entries : List (Text × Text)), (entries.map (·.1)).Nodup → ∀ s : ChannelState,
      field (processProps entries s) = ((entries.lookup key).map convert).getD (field s)
  | [], _, s => rfl
  | (k, v) :: entries, hnodup, s => by
    obtain ⟨hk, hnodup⟩ := List.nodup_cons.mp hnodup
    have ih := foldl_field field key convert h entries hnodup (processNameValuePair k v s)
    refine ih.trans ?_
    rw [h, lookup_cons_if]
    by_cases hkey : k = key
    · have hnone : entries.lookup key = none := by
        rw [List.lookup_eq_none_iff]
        intro e he
        rw [bne_iff_ne]
        rintro rfl
        exact hk (hkey ▸ List.mem_map.mpr ⟨e, he, rfl⟩)
      rw [if_pos hkey, if_pos hkey.symm, hnone]
      rfl
    · rw [if_neg hkey, if_neg (Ne.symm hkey)]

theorem hostname_processNameValuePair (k v : Text) (s : ChannelState) :
    (processNameValuePair k v s).hostname = if k = "plethora.host".toList then v else s.hostname := by
  unfold processNameValuePair processMetricNameValue processSysNameValue
  by_cases hk : k = "plethora.host".toList
  · subst hk
    rfl
  · simp only [if_neg hk, apply_ite ChannelState.hostname, ite_self]

theorem port_processNameValuePair (k v : Text) (s : ChannelState) :
    (processNameValuePair k v s).port = if k = "plethora.port".toList then Autil.atoi v else s.port := by
  unfold processNameValuePair processMetricNameValue processSysNameValue
  by_cases hk : k = "plethora.port".toList
  · subst hk
    rfl
  · simp only [if_neg hk, apply_ite ChannelState.port, ite_self]

/-! ### The metrics of a file -/

/-- What the lines of a file say, in their order. -/
def entriesOf (t : Text) : List (Text × Text) := (linesOf t).filterMap Line.taken

/-- The metric that entries configure under a name: its first value is that of
the first of its keys that has one. -/
def configuredMetric (entries : List (Text × Text)) (n : Text) : Option BaseMetric :=
  if isMetricKey n "plethora".toList then
    ((keysOf n).findSome? fun k => entries.lookup k).map (makeMetric entries n)
  else none

theorem makeMetric_congr {props props' : List (Text × Text)} (h : ∀ k, props.lookup k = props'.lookup k) (n v : Text) :
    makeMetric props n v = makeMetric props' n v := by
  have hattrib : getAttribute props = getAttribute props' := by
    funext attrib metric
    rw [getAttribute, getAttribute, h]
  unfold makeMetric getMetricProperties getAttributeOr
  rw [hattrib]

/-- **What a new channel has**: the metrics that were there, and the configured
ones under other names; and the host and the port of the file. -/
theorem newChannel_configured {t : Text} (hn : nul ∉ t) (hbare : ∀ l ∈ linesOf t, l.Read → ¬ Bare l.text) (metrics : Store) :
    ∃ s, newChannel (some (readFile t)) metrics = some s ∧
      (∀ n, s.metrics.getMetric n = (metrics.getMetric n).or (configuredMetric (entriesOf t) n)) ∧
      s.hostname = ((entriesOf t).lookup "plethora.host".toList).getD [] ∧
      s.port = (((entriesOf t).lookup "plethora.port".toList).map Autil.atoi).getD 0 := by
  have hread : readConfig (readFile t) = some (mapOf (entriesOf t)) := by
    rw [readConfig_eq hn, if_neg]
    · rfl
    · rintro ⟨l, hl, hr, hb⟩
      exact hbare l hl hr hb
  have hsorted := sorted_mapOf (entriesOf t)
  have hlookup := lookup_mapOf (entriesOf t)
  refine ⟨processProps (mapOf (entriesOf t)) { props := mapOf (entriesOf t), metrics }, ?_, fun n => ?_, ?_, ?_⟩
  · rw [newChannel, hread]
    rfl
  · have hfirst := Ordered.find?_mem_eq_findSome? (fun a b => before a b = true)
      (fun {a} h => Bool.false_ne_true ((before_irrefl a).symm.trans h)) before_trans (sorted_keysOf n) hsorted
    have hvalue : ((keysOf n).findSome? fun k => ((mapOf (entriesOf t)).lookup k).map (k, ·)).map
        (fun e => makeMetric (mapOf (entriesOf t)) n e.2) =
        ((keysOf n).findSome? fun k => (entriesOf t).lookup k).map (makeMetric (entriesOf t) n) := by
      rw [List.map_findSome?, List.map_findSome?]
      refine Ordered.findSome?_congr fun k _ => ?_
      simp only [Function.comp_apply, hlookup, Option.map_map]
      cases (entriesOf t).lookup k with
      | none => rfl
      | some v => exact congrArg some (makeMetric_congr hlookup n v)
    rw [getMetric_processProps, hfirst, configuredMetric, hvalue]
  · refine (foldl_field ChannelState.hostname _ id hostname_processNameValuePair _ hsorted.nodup _).trans ?_
    rw [hlookup, Option.map_id]
    rfl
  · refine (foldl_field ChannelState.port _ Autil.atoi port_processNameValuePair _ hsorted.nodup _).trans ?_
    rw [hlookup]

/-- A file with a type and a level for a metric, and no value. -/
def attributesOnly : Text := "rate.type : number\nrate.level : internal\nplethora.port : 9001\n".toList

/-- The metric begins with its level, which is no number. -/
theorem newChannel_configured_attributes :
    ∃ s m, newChannel (some (readFile attributesOnly)) ⟨[], .nil⟩ = some s ∧
      s.metrics.getMetric "rate".toList = some m ∧ m.value = .number 0 ∧ s.hostname = [] ∧ s.port = 9001 := by
  obtain ⟨s, hs, hmetrics, hhost, hport⟩ := newChannel_configured (t := attributesOnly) (by decide) (by decide) ⟨[], .nil⟩
  refine ⟨s, _, hs, hmetrics _, rfl, ?_, ?_⟩
  · rw [hhost]
    rfl
  · rw [hport]
    decide

end Cpp

end Plethora
