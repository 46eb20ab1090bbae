/-
# The request handler of a C++ agent

`RequestHandler::handle` with the `JsonFormatter`, over the store of
`Metrics`. A handler serves one request. The request is escaped for HTML
before it is split at `&`, and every entity begins with one: so of a name with
one of the escaped characters only what is before it is looked up
(`Reached`, `lookup_args`).

Key definitions: `Cpp.Store`, `Cpp.JsonFormatter.formatMap`,
`Cpp.RequestHandler.handle`, `Cpp.reached`.
Key theorems: `split_validateInput`, `lookup_args`, `handle_get`, `handle_props`.
-/
import Plethora.Common.Metric
import Plethora.Lib.FirstWins
import Plethora.Lib.Pieces

namespace Plethora

namespace Cpp

/-! ### The store -/

/-- The value of a `Metric<T>`. -/
inductive Value
  | number (value : Int64)
  | text (value : Text)
  | boolean (value : Bool)

/-- `Metric::resolveType`. -/
def Value.resolveType : Value → MetricType
  | .number _ => .number
  | .text _ => .text
  | .boolean _ => .boolean

/-- `autil::asString`. -/
def Value.asString : Value → Text
  | .number v => (toString v.toInt).toList
  | .text v => v
  | .boolean true => "true".toList
  | .boolean false => "false".toList

structure MetricProperties where
  type : MetricType
  level : Level := .publicLevel
  displayname : Text := []
  description : Text := []
  writable : Bool := false

structure BaseMetric where
  name : Text
  value : Value
  properties : MetricProperties
  /-- `Metric::init` sets the type of its properties. -/
  resolved : properties.type = value.resolveType

/-- The order of keys in a `std::map`: by their bytes in UTF-8, which is by
code points. -/
def before : Text → Text → Bool
  | _, [] => false
  | [], _ :: _ => true
  | c :: s, d :: t => c.toNat < d.toNat || (c == d && before s t)

/-- `std::map::insert`: an entry that is there stays. -/
def insert (key value : Text) : List (Text × Text) → List (Text × Text)
  | [] => [(key, value)]
  | e :: m =>
    if key = e.1 then e :: m
    else if before key e.1 then (key, value) :: e :: m
    else e :: insert key value m

/-- The map these entries are inserted into one after the other. -/
def mapOf (entries : List (Text × Text)) : List (Text × Text) := entries.foldl (fun m e => insert e.1 e.2 m) []

section Entries

open FirstWins

variable {key value : Text}

theorem before_irrefl : ∀ t : Text, before t t = false
  | [] => rfl
  | c :: t => by
    rw [before, before_irrefl t]
    simp

theorem before_trans : ∀ {s t u : Text}, before s t = true → before t u = true → before s u = true
  | _, [], _, h, _ => by simp [before] at h
  | _, _ :: _, [], _, h => by simp [before] at h
  | [], _ :: _, _ :: _, _, _ => rfl
  | b :: s, c :: t, d :: u, h, h' => by
    simp only [before, Bool.or_eq_true, decide_eq_true_eq, Bool.and_eq_true, beq_iff_eq] at h h' ⊢
    rcases h with h | ⟨rfl, h⟩
    · rcases h' with h' | ⟨rfl, -⟩
      · exact Or.inl (by omega)
      · exact Or.inl h
    · rcases h' with h' | ⟨rfl, h'⟩
      · exact Or.inl h'
      · exact Or.inr ⟨rfl, before_trans h h'⟩

theorem before_total : ∀ {s t : Text}, s ≠ t → before s t = true ∨ before t s = true
  | [], [], h => absurd rfl h
  | [], _ :: _, _ => Or.inl rfl
  | _ :: _, [], _ => Or.inr rfl
  | c :: s, d :: t, h => by
    simp only [before, Bool.or_eq_true, decide_eq_true_eq, Bool.and_eq_true, beq_iff_eq]
    by_cases hcd : c = d
    · subst hcd
      have hne : s ≠ t := fun he => h (congrArg _ he)
      exact (before_total hne).imp (fun hb => Or.inr ⟨rfl, hb⟩) fun hb => Or.inr ⟨rfl, hb⟩
    · have hne : c.toNat ≠ d.toNat := fun he => hcd (char_ext he)
      rcases Nat.lt_or_gt_of_ne hne with hlt | hlt
      · exact Or.inl (Or.inl hlt)
      · exact Or.inr (Or.inl hlt)

/-- The entries of a map, each key once and in order. -/
def Sorted (m : List (Text × Text)) : Prop := (m.map (·.1)).Pairwise fun a b => before a b = true

theorem Sorted.nodup {m : List (Text × Text)} (h : Sorted m) : (m.map (·.1)).Nodup := by
  refine h.imp ?_
  rintro a b hb rfl
  rw [before_irrefl] at hb
  cases hb

theorem keys_insert (key value : Text) : ∀ m : List (Text × Text),
    (insert key value m).map (·.1) = Ordered.insertKey (fun a b => before a b = true) key (m.map (·.1))
  | [] => rfl
  | e :: m => by
    rw [insert, List.map_cons, Ordered.insertKey, ← keys_insert key value m]
    simp only [apply_ite (List.map Prod.fst), List.map_cons]

theorem sorted_insert (key value : Text) {m : List (Text × Text)} (h : Sorted m) : Sorted (insert key value m) := by
  rw [Sorted, keys_insert]
  exact Ordered.pairwise_insertKey (fun a b => before a b = true) before_trans before_total key h

/-- A key that comes before all others is not there. -/
theorem lookup_of_before {m : List (Text × Text)} (h : ∀ k ∈ m.map (·.1), before key k = true) :
    m.lookup key = none := by
  rw [List.lookup_eq_none_iff]
  intro e he
  have hb := h _ (List.mem_map_of_mem he)
  rw [bne_iff_ne]
  rintro rfl
  rw [before_irrefl] at hb
  cases hb

/-- **An insertion** leaves what is there, and adds its entry otherwise. -/
theorem lookup_insert (key value j : Text) : ∀ {m : List (Text × Text)}, Sorted m →
    (insert key value m).lookup j = (m.lookup j).or (if j = key then some value else none)
  | [], _ => by rw [insert, lookup_cons_if, List.lookup_nil, Option.none_or]
  | (k, v) :: m, h => by
    obtain ⟨hx, hm⟩ := List.pairwise_cons.mp h
    unfold insert
    by_cases he : key = k
    · subst he
      rw [if_pos rfl, lookup_cons_if]
      by_cases hj : j = key
      · rw [if_pos hj, Option.some_or]
      · rw [if_neg hj, if_neg hj, Option.or_none]
    · rw [if_neg he]
      by_cases hb : before key k = true
      · rw [if_pos hb, lookup_cons_if]
        by_cases hj : j = key
        · subst hj
          have hfresh : ((k, v) :: m).lookup j = none :=
            lookup_of_before (List.forall_mem_cons.mpr ⟨hb, fun k' hk => before_trans hb (hx k' hk)⟩)
          rw [hfresh, if_pos rfl, Option.none_or]
        · rw [if_neg hj, if_neg hj, Option.or_none]
      · rw [if_neg hb, lookup_cons_if, lookup_cons_if]
        by_cases hj : j = k
        · rw [if_pos hj, if_pos hj, Option.some_or]
        · rw [if_neg hj, if_neg hj]
          exact lookup_insert key value j hm

/-- The map of more entries has the new ones where it had nothing. -/
theorem lookup_foldl_insert (j : Text) : ∀ (es : List (Text × Text)) {m : List (Text × Text)}, Sorted m →
    Sorted (es.foldl (fun m e => insert e.1 e.2 m) m) ∧
      (es.foldl (fun m e => insert e.1 e.2 m) m).lookup j = (m.lookup j).or (es.lookup j)
  | [], m, h => ⟨h, by rw [List.lookup_nil, Option.or_none, List.foldl_nil]⟩
  | (k, v) :: es, m, h => by
    obtain ⟨hsorted, hlookup⟩ := lookup_foldl_insert j es (sorted_insert k v h)
    refine ⟨hsorted, ?_⟩
    rw [List.foldl_cons, hlookup, lookup_insert k v j h, Option.or_assoc, lookup_cons_if]
    by_cases hj : j = k
    · rw [if_pos hj, if_pos hj, Option.some_or]
    · rw [if_neg hj, if_neg hj, Option.none_or]

theorem sorted_nil : Sorted [] := List.Pairwise.nil

theorem sorted_mapOf (es : List (Text × Text)) : Sorted (mapOf es) := (lookup_foldl_insert [] es sorted_nil).1

/-- **The map of some entries** has the first of each key. -/
theorem lookup_mapOf (es : List (Text × Text)) (j : Text) : (mapOf es).lookup j = es.lookup j := by
  rw [mapOf, (lookup_foldl_insert j es sorted_nil).2, List.lookup_nil, Option.none_or]

end Entries

/-- `Metrics::METRICS`, in the order of its keys. -/
structure Store where
  metrics : List BaseMetric
  sorted : (metrics.map (·.name)).Pairwise fun a b => before a b = true

namespace MetricProperties

variable (p : MetricProperties)

def buildOptionString : Text :=
  let typebit := if p.type = .number then '1' else if p.type = .boolean then '2' else '0'
  let writebit := if p.writable then '1' else '0'
  let levelbit := if p.level = .limited then '1' else if p.level = .internal then '2' else '0'
  typebit :: writebit :: levelbit :: "0000".toList

def asMap : List (Text × Text) :=
  mapOf [("displayname".toList, p.displayname), ("description".toList, p.description),
    ("options".toList, p.buildOptionString)]

end MetricProperties

namespace Store

variable (s : Store)

def getMetric (name : Text) : Option BaseMetric := s.metrics.find? (·.name = name)

/-- `getMetrics`. -/
def getMetrics : List (Text × Text) := mapOf (s.metrics.map fun m => (m.name, m.value.asString))

def getMetricNames : List Text := s.metrics.map (·.name)

/-- `getMetricProps` of all metrics. -/
def getMetricProps : List (Text × Text) :=
  mapOf (s.metrics.flatMap fun m => m.properties.asMap.map fun e => (m.name ++ '.' :: e.1, e.2))

end Store

/-! ### `JsonFormatter` -/

namespace JsonFormatter

def jsonQuote (text : Text) : Text := '"' :: text ++ ['"']

def formatPair (name value : Text) : Text := jsonQuote name ++ " : ".toList ++ jsonQuote value

def format (text : Text) : Text := formatPair "plethora".toList text

def formatSet (set : List Text) : Text := '[' :: (", ".toList).intercalate set ++ [']']

def formatMap (map : List (Text × Text)) : Text :=
  '{' :: '\n' :: (", \n".toList).intercalate (map.map fun e => formatPair e.1 e.2) ++ ['\n', '}']

end JsonFormatter

/-! ### `RequestHandler` -/

/-- `autil::split` with a delimiter: what `getline` reads, no piece after a
delimiter at the end. -/
def split (delim : Char) : Text → List Text
  | [] => []
  | c :: t =>
    if c = delim then [] :: split delim t
    else
      match split delim t with
      | [] => [[c]]
      | p :: ps => (c :: p) :: ps

/-- `autil::pair`. -/
def pair (delim : Char) (t : Text) : Text × Text := (t.takeWhile (· ≠ delim), (t.dropWhile (· ≠ delim)).tail)

namespace RequestHandler

open JsonFormatter

/-- What `validateInput` puts for a character. -/
def entity (c : Char) : Option Text :=
  if c = '&' then some "amp;".toList
  else if c = '\'' then some "apos;".toList
  else if c = '"' then some "quot;".toList
  else if c = '<' then some "lt;".toList
  else if c = '>' then some "gt;".toList
  else none

def validateInput (t : Text) : Text :=
  t.flatMap fun c =>
    match entity c with
    | some e => '&' :: e
    | none => [c]

/-- The arguments of a request; the first of a name counts. -/
def buildQueryArgMap (request : Text) : List (Text × Text) := (split '&' request).map (pair '=')

section Handle

variable (s : Store) (queryArgs : List (Text × Text))

def hasArgWithValue (arg : Text) : Bool := (queryArgs.lookup arg).any fun value => value ≠ []

/-- The value of an argument that is there. -/
def getArgValue (arg : Text) : Text := (queryArgs.lookup arg).getD []

/-- Nothing can be set from outside yet. -/
def setMetricValue (_name _value : Text) : Bool := false

def handleDefault : Text := format "204".toList

def validMetric (name : Text) : Bool := (s.getMetric name).isSome

/-- `Metrics::getStringFormated`. -/
def metricValue (name : Text) : Text :=
  match s.getMetric name with
  | some m => m.value.asString
  | none => []

def handleGet : Text :=
  let name := getArgValue queryArgs "get".toList
  if validMetric s name then formatPair name (metricValue s name) else handleDefault

def handleSet : Text :=
  let name := getArgValue queryArgs "set".toList
  if hasArgWithValue queryArgs "with".toList && validMetric s name then
    let value := getArgValue queryArgs "with".toList
    if setMetricValue name value then formatPair name value else handleDefault
  else handleDefault

def handleList : Text :=
  let value := getArgValue queryArgs "list".toList
  if value = "metrics".toList then formatMap s.getMetrics
  else if value = "names".toList then formatSet s.getMetricNames
  else if value = "props".toList then formatMap s.getMetricProps
  else handleDefault

def handleProps : Text :=
  match s.getMetric (getArgValue queryArgs "props".toList) with
  | some m => formatMap m.properties.asMap
  | none => handleDefault

def handle (request : Text) : Text :=
  let queryArgs := buildQueryArgMap (validateInput request)
  if hasArgWithValue queryArgs "get".toList then handleGet s queryArgs
  else if hasArgWithValue queryArgs "set".toList then handleSet s queryArgs
  else if hasArgWithValue queryArgs "list".toList then handleList s queryArgs
  else if hasArgWithValue queryArgs "props".toList then handleProps s queryArgs
  else handleDefault

end Handle

/-! ### The argument of a request -/

/-- What of a name is looked up: what is before the first escaped character. -/
def reached (n : Text) : Text := n.takeWhile fun c => (entity c).isNone

/-- A piece that begins with an entity. -/
def IsEntity (p : Text) : Prop := ∃ c e rest, entity c = some e ∧ p = e ++ rest

theorem entity_eq_some {c : Char} {e : Text} (h : entity c = some e) :
    e ≠ [] ∧ '&' ∉ e ∧ '=' ∉ e ∧ ';' ∈ e := by
  unfold entity at h
  split at h
  · cases h
    decide
  · split at h
    · cases h
      decide
    · split at h
      · cases h
        decide
      · split at h
        · cases h
          decide
        · split at h
          · cases h
            decide
          · cases h

theorem split_of_not_mem {t : Text} (hne : t ≠ []) (h : '&' ∉ t) : split '&' t = [t] := by
  induction t with
  | nil => exact absurd rfl hne
  | cons c t ih =>
    obtain ⟨hc, ht⟩ := not_or.mp (List.mem_cons.not.mp h)
    rw [split, if_neg (Ne.symm hc)]
    cases t with
    | nil => rfl
    | cons d t => rw [ih (List.cons_ne_nil d t) ht]

theorem split_append {t : Text} (hne : t ≠ []) (h : '&' ∉ t) (r : Text) :
    split '&' (t ++ '&' :: r) = t :: split '&' r := by
  induction t with
  | nil => exact absurd rfl hne
  | cons c t ih =>
    obtain ⟨hc, ht⟩ := not_or.mp (List.mem_cons.not.mp h)
    rw [List.cons_append, split, if_neg (Ne.symm hc)]
    cases t with
    | nil => rw [List.nil_append, split, if_pos rfl]
    | cons d t => rw [ih (List.cons_ne_nil d t) ht]

/-- **The pieces of an escaped request**: the first goes on up to the first
escaped character, and all others begin with an entity. -/
theorem split_validateInput : ∀ (n : Text) {x : Text}, x ≠ [] → '&' ∉ x →
    ∃ pieces, split '&' (x ++ validateInput n) = (x ++ reached n) :: pieces ∧ ∀ p ∈ pieces, IsEntity p
  | [], x, hne, hx => by
    refine ⟨[], ?_, fun p hp => absurd hp List.not_mem_nil⟩
    rw [validateInput, List.flatMap_nil, reached, List.takeWhile_nil, List.append_nil]
    exact split_of_not_mem hne hx
  | c :: n, x, hne, hx => by
    rw [validateInput, List.flatMap_cons, reached, List.takeWhile_cons]
    cases hc : entity c with
    | some e =>
      obtain ⟨he, hamp, -, -⟩ := entity_eq_some hc
      obtain ⟨pieces, hsplit, hall⟩ := split_validateInput n he hamp
      refine ⟨(e ++ reached n) :: pieces, ?_, ?_⟩
      · show split '&' (x ++ '&' :: (e ++ validateInput n)) = (x ++ []) :: (e ++ reached n) :: pieces
        rw [split_append hne hx, List.append_nil, hsplit]
      · exact List.forall_mem_cons.mpr ⟨⟨c, e, reached n, hc, rfl⟩, hall⟩
    | none =>
      have hamp : '&' ∉ x ++ [c] := by
        rw [List.mem_append, List.mem_singleton, not_or]
        refine ⟨hx, ?_⟩
        rintro rfl
        cases hc
      obtain ⟨pieces, hsplit, hall⟩ := split_validateInput n (List.append_ne_nil_of_right_ne_nil x (List.cons_ne_nil c [])) hamp
      rw [List.append_assoc, List.append_assoc] at hsplit
      exact ⟨pieces, hsplit, hall⟩

/-- A word that arguments are called by. -/
def IsWord (word : Text) : Prop := word ≠ [] ∧ (∀ c ∈ word, entity c = none) ∧ '=' ∉ word ∧ ';' ∉ word

theorem validateInput_append {t : Text} (h : ∀ c ∈ t, entity c = none) (n : Text) :
    validateInput (t ++ n) = t ++ validateInput n := by
  induction t with
  | nil => rfl
  | cons c t ih =>
    obtain ⟨hc, ht⟩ := List.forall_mem_cons.mp h
    rw [List.cons_append, validateInput, List.flatMap_cons, hc, ← validateInput, ih ht]
    rfl

theorem pair_append {word : Text} (h : '=' ∉ word) (t : Text) : pair '=' (word ++ '=' :: t) = (word, t) := by
  rw [pair, Pieces.takeWhile_append_cons h, Pieces.dropWhile_append_cons h, List.tail_cons]

/-- No word is the name of a piece that begins with an entity. -/
theorem IsEntity.pair_ne {p word : Text} (hp : IsEntity p) (hw : IsWord word) : (pair '=' p).1 ≠ word := by
  obtain ⟨c, e, rest, he, rfl⟩ := hp
  obtain ⟨-, -, heq, hsemi⟩ := entity_eq_some he
  intro h
  rw [pair, List.takeWhile_append_of_pos (Pieces.ne_of_not_mem heq)] at h
  exact hw.2.2.2 (h ▸ List.mem_append_left _ hsemi)

/-- **The arguments of a request with one of them**: it is what the name
reaches, and there is no other. -/
theorem lookup_args {word word' : Text} (h : IsWord word) (h' : IsWord word') (n : Text) :
    (buildQueryArgMap (validateInput (word ++ '=' :: n))).lookup word' =
      if word' = word then some (reached n) else none := by
  have hamp : '&' ∉ word ++ ['='] := by
    rw [List.mem_append, List.mem_singleton, not_or]
    refine ⟨fun hm => ?_, by decide⟩
    have := h.2.1 _ hm
    cases this
  have hplain : ∀ c ∈ word ++ ['='], entity c = none := by
    intro c hc
    rcases List.mem_append.mp hc with hc | hc
    · exact h.2.1 c hc
    · rw [List.mem_singleton.mp hc]
      rfl
  obtain ⟨pieces, hsplit, hall⟩ :=
    split_validateInput n (List.append_ne_nil_of_right_ne_nil word (List.cons_ne_nil '=' [])) hamp
  rw [← validateInput_append hplain, List.append_assoc, List.append_assoc, List.singleton_append,
    List.singleton_append] at hsplit
  have hrest : (pieces.map (pair '=')).lookup word' = none := by
    rw [List.lookup_eq_none_iff]
    intro e he
    obtain ⟨p, hp, rfl⟩ := List.mem_map.mp he
    simpa using ((hall p hp).pair_ne h').symm
  rw [buildQueryArgMap, hsplit, List.map_cons, pair_append h.2.2.1, List.lookup_cons]
  by_cases he : word' = word
  · rw [if_pos he, he, beq_self_eq_true]
  · have hb : (word' == word) = false := by simpa using he
    rw [if_neg he, hb, hrest]

theorem isWord_get : IsWord "get".toList := by
  refine ⟨by decide, by decide, by decide, by decide⟩

theorem isWord_set : IsWord "set".toList := by
  refine ⟨by decide, by decide, by decide, by decide⟩

theorem isWord_list : IsWord "list".toList := by
  refine ⟨by decide, by decide, by decide, by decide⟩

theorem isWord_props : IsWord "props".toList := by
  refine ⟨by decide, by decide, by decide, by decide⟩

/-! ### What a request is answered -/

theorem hasArgWithValue_args {word word' : Text} (h : IsWord word) (h' : IsWord word') (n : Text) :
    hasArgWithValue (buildQueryArgMap (validateInput (word ++ '=' :: n))) word' =
      decide (word' = word ∧ reached n ≠ []) := by
  rw [hasArgWithValue, lookup_args h h']
  by_cases he : word' = word
  · simp [he]
  · simp [he]

theorem getArgValue_args {word : Text} (h : IsWord word) (n : Text) :
    getArgValue (buildQueryArgMap (validateInput (word ++ '=' :: n))) word = reached n := by
  rw [getArgValue, lookup_args h h, if_pos rfl, Option.getD_some]

section Answers

variable (s : Store) (n : Text)

theorem handle_get : handle s ("get".toList ++ '=' :: n) =
    if reached n ≠ [] ∧ validMetric s (reached n) = true then formatPair (reached n) (metricValue s (reached n))
    else handleDefault := by
  simp only [handle, handleGet, getArgValue_args isWord_get, hasArgWithValue_args isWord_get isWord_get,
    hasArgWithValue_args isWord_get isWord_set, hasArgWithValue_args isWord_get isWord_list,
    hasArgWithValue_args isWord_get isWord_props]
  by_cases hn : reached n = [] <;> simp [hn]

theorem handle_list : handle s ("list".toList ++ '=' :: n) =
    if reached n ≠ [] then handleList s (buildQueryArgMap (validateInput ("list".toList ++ '=' :: n)))
    else handleDefault := by
  simp only [handle, hasArgWithValue_args isWord_list isWord_get, hasArgWithValue_args isWord_list isWord_set,
    hasArgWithValue_args isWord_list isWord_list, hasArgWithValue_args isWord_list isWord_props]
  by_cases hn : reached n = [] <;> simp [hn]

theorem handle_names : handle s ("list".toList ++ '=' :: "names".toList) = formatSet s.getMetricNames := by
  have hreached : reached "names".toList = "names".toList := by decide
  have hne : "names".toList ≠ [] := by decide
  have hnot : "names".toList ≠ "metrics".toList := by decide
  rw [handle_list, hreached, if_pos hne, handleList, getArgValue_args isWord_list, hreached, if_neg hnot, if_pos rfl]

theorem handle_props : handle s ("props".toList ++ '=' :: n) =
    if reached n ≠ [] then handleProps s (buildQueryArgMap (validateInput ("props".toList ++ '=' :: n)))
    else handleDefault := by
  simp only [handle, hasArgWithValue_args isWord_props isWord_get, hasArgWithValue_args isWord_props isWord_set,
    hasArgWithValue_args isWord_props isWord_list, hasArgWithValue_args isWord_props isWord_props]
  by_cases hn : reached n = [] <;> simp [hn]

variable {s n}

theorem handle_props_of_metric {m : BaseMetric} (hn : reached n ≠ []) (hm : s.getMetric (reached n) = some m) :
    handle s ("props".toList ++ '=' :: n) = formatMap m.properties.asMap := by
  rw [handle_props, if_pos hn, handleProps, getArgValue_args isWord_props, hm]

theorem handle_props_default (h : reached n = [] ∨ s.getMetric (reached n) = none) :
    handle s ("props".toList ++ '=' :: n) = handleDefault := by
  rw [handle_props]
  by_cases hn : reached n = []
  · rw [if_neg (not_not.mpr hn)]
  · rw [if_pos hn, handleProps, getArgValue_args isWord_props, h.resolve_left hn]

end Answers

end RequestHandler

end Cpp

end Plethora
