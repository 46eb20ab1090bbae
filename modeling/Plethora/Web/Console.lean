/-
# The console that shows all metrics

The reply of `/getall` in plain text is `Map.toString` of the values, which
`plethoraconsole` takes apart: it drops the braces, splits at the commas,
strips each item and shows what is before its first equals sign and what is
between that and the next.

An item without an equals sign is an index error, which ends the loop; the
reply for no metrics has one. The printer quotes nothing, so each metric is
shown once with its name and value exactly if there are metrics and no name or
value has a comma or an equals sign, or white space where it would be stripped
off: `shows_iff`.

Key definitions: `mapToString`, `Console.toList`, `Console.displayMetrics`,
`Console.Shows`, `Console.Clean`.
Key theorems: `Console.exists_readItem`, `Console.shows_iff`.
-/
import Plethora.Common.Java
import Plethora.Lib.Pieces
import Plethora.Lib.Strip
import Mathlib.Data.Char
import Mathlib.Data.List.Lex

namespace Plethora

/-- `String.valueOf`, over the `toString` of the other classes. -/
def stringValueOf (toString : JavaObject → Text) : Option JavaObject → Text
  | none => "null".toList
  | some (.string t) => t
  | some o => toString o

/-- A pair as `AbstractMap.toString` prints it. -/
def pairToString (e : Text × Text) : Text := e.1 ++ '=' :: e.2

/-- `AbstractMap.toString`, of entries with their texts. -/
def mapToString (map : List (Text × Text)) : Text := '{' :: ([',', ' '] : Text).intercalate (map.map pairToString) ++ ['}']

/-- `AllMetricsRequestHandler.getResponse` in plain text: there is no formatter for it. -/
def allMetricsResponse (toString : JavaObject → Text) (metrics : List (Text × Option JavaObject)) : Text :=
  mapToString (metrics.map fun e => (e.1, stringValueOf toString e.2))

namespace Console

/-- What `strip` takes for white space. -/
def isspace (c : Char) : Bool := c ∈ [' ', '\t', '\n', '\r', Char.ofNat 11, Char.ofNat 12]

/-- `toList`: `data[1:-1].split(',')`. -/
def toList (data : Text) : List Text := (data.drop 1).dropLast.splitOn ','

/-- `sorted`. -/
def sorted (items : List Text) : List Text := items.mergeSort fun a b => decide (a ≤ b)

/-- `DATA`, as `getMetrics` sets it. -/
def getMetrics (response : Text) : List Text := sorted (toList response)

/-- The pair an item of the loop is shown as; `none` is an index error. -/
def readItem (item : Text) : Option (Text × Text) :=
  match (Strip.strip isspace item).splitOn '=' with
  | name :: value :: _ => some (name, value)
  | _ => none

/-- `displayMetrics`, with the pairs it shows. -/
def displayMetrics : List Text → Option (List (Text × Text))
  | [] => some []
  | item :: data =>
    match readItem item with
    | none => none
    | some pair => (displayMetrics data).map (pair :: ·)

/-- Every metric is shown once, with its name and its value. -/
def Shows (toString : JavaObject → Text) (metrics : List (Text × Option JavaObject)) : Prop :=
  ∃ shown, displayMetrics (getMetrics (allMetricsResponse toString metrics)) = some shown ∧
    shown.Perm (metrics.map fun e => (e.1, stringValueOf toString e.2))

/-- A name and a value whose item is neither stripped nor split too often. -/
structure Kept (name value : Text) : Prop where
  equals : '=' ∉ name ∧ '=' ∉ value
  head : ∀ c ∈ name.head?, isspace c = false
  last : ∀ c ∈ value.getLast?, isspace c = false

/-- A name and a value that are read back. -/
structure Clean (name value : Text) : Prop extends Kept name value where
  comma : ',' ∉ name ∧ ',' ∉ value

theorem displayMetrics_eq_some : ∀ {items : List Text} {shown : List (Text × Text)},
    displayMetrics items = some shown ↔ items.map readItem = shown.map some
  | [], [] => iff_of_true rfl rfl
  | [], p :: shown => iff_of_false nofun nofun
  | item :: items, shown => by
    unfold displayMetrics
    cases hr : readItem item with
    | none =>
      refine iff_of_false nofun fun h => ?_
      cases shown with
      | nil => cases h
      | cons p shown =>
        rw [List.map_cons, List.map_cons, hr] at h
        cases h
    | some pair =>
      cases shown with
      | nil =>
        refine iff_of_false ?_ nofun
        simp
      | cons p shown =>
        rw [List.map_cons, List.map_cons, hr, List.cons.injEq, ← displayMetrics_eq_some]
        simp only [Option.map_eq_some_iff, List.cons.injEq, Option.some.injEq]
        constructor
        · rintro ⟨rest, hrest, rfl, rfl⟩
          exact ⟨rfl, hrest⟩
        · rintro ⟨rfl, hrest⟩
          exact ⟨shown, hrest, rfl, rfl⟩

/-! ### One item -/

/-- The length of a name and its value. -/
def size (e : Text × Text) : ℕ := e.1.length + e.2.length

theorem stripped_iff (name value : Text) : Strip.Stripped isspace (pairToString (name, value)) ↔
    (∀ c ∈ name.head?, isspace c = false) ∧ ∀ c ∈ value.getLast?, isspace c = false := by
  have hequals : isspace '=' = false := rfl
  have hhead : (∀ c ∈ (pairToString (name, value)).head?, isspace c = false) ↔ ∀ c ∈ name.head?, isspace c = false := by
    cases name with
    | nil => simp [pairToString, hequals]
    | cons c name => simp [pairToString]
  have hlast : (∀ c ∈ (pairToString (name, value)).getLast?, isspace c = false) ↔
      ∀ c ∈ value.getLast?, isspace c = false := by
    unfold pairToString
    rw [List.getLast?_append, List.getLast?_cons]
    cases value.getLast? with
    | none => simp [hequals]
    | some c => simp
  exact ⟨fun h => ⟨hhead.mp h.head, hlast.mp h.last⟩, fun h => ⟨hhead.mpr h.1, hlast.mpr h.2⟩⟩

theorem readItem_of_kept {name value : Text} (h : Kept name value) :
    readItem (pairToString (name, value)) = some (name, value) := by
  have hstrip : Strip.strip isspace (pairToString (name, value)) = pairToString (name, value) := by
    have hs := (stripped_iff name value).mpr ⟨h.head, h.last⟩
    simpa using @Strip.strip_eq _ isspace [] _ [] (fun _ h => absurd h List.not_mem_nil)
      (fun _ h => absurd h List.not_mem_nil) hs
  unfold readItem
  rw [hstrip, pairToString, List.splitOn_append_cons_self, List.splitOn_eq_singleton h.equals.1,
    List.splitOn_eq_singleton h.equals.2]
  rfl

/-- What an item is read as is no longer than the pair, and as long only for
the pair itself. -/
theorem exists_readItem (name value : Text) : ∃ p, readItem (pairToString (name, value)) = some p ∧
    size p ≤ size (name, value) ∧ (size p = size (name, value) → Kept name value) := by
  obtain ⟨l, r, hitem, hl, hr⟩ := Strip.strip_spec isspace (pairToString (name, value))
  have hnone : ∀ s : Text, (∀ c ∈ s, isspace c = true) → s.count '=' = 0 := by
    intro s hs
    rw [List.count_eq_zero]
    intro hm
    have := hs _ hm
    revert this
    decide
  generalize hbody : Strip.strip isspace (pairToString (name, value)) = body at hitem
  have hcount : body.count '=' = name.count '=' + value.count '=' + 1 := by
    have hc := congrArg (List.count '=') hitem
    rw [List.count_append, List.count_append, hnone l hl, hnone r hr, pairToString, List.count_append,
      List.count_cons_self] at hc
    dsimp only at hc
    omega
  have hlength : l.length + body.length + r.length = size (name, value) + 1 := by
    have hc := congrArg List.length hitem
    rw [List.length_append, List.length_append, pairToString, List.length_append, List.length_cons] at hc
    unfold size
    omega
  have hpieces := Pieces.length_splitOn '=' body
  have hsum := Pieces.sum_length_splitOn '=' body
  have htwo : ∃ a b rest, body.splitOn '=' = a :: b :: rest := by
    cases hp : body.splitOn '=' with
    | nil =>
      rw [hp] at hpieces
      cases hpieces
    | cons a rest =>
      cases rest with
      | nil =>
        rw [hp, List.length_singleton] at hpieces
        omega
      | cons b rest => exact ⟨a, b, rest, rfl⟩
  obtain ⟨a, b, rest, hp⟩ := htwo
  rw [hp, List.map_cons, List.map_cons, List.sum_cons, List.sum_cons] at hsum
  refine ⟨(a, b), ?_, ?_, fun heq => ?_⟩
  · unfold readItem
    rw [hbody, hp]
  · unfold size at hlength ⊢
    dsimp only at hlength ⊢
    omega
  · unfold size at hlength heq
    dsimp only at hlength heq
    have hlnil : l = [] := List.length_eq_zero_iff.mp (by omega)
    have hrnil : r = [] := List.length_eq_zero_iff.mp (by omega)
    have hstripped := Strip.stripped_strip isspace (pairToString (name, value))
    rw [hbody] at hstripped
    rw [hlnil, hrnil, List.nil_append, List.append_nil] at hitem
    rw [← hitem] at hstripped
    obtain ⟨hhead, hlast⟩ := (stripped_iff name value).mp hstripped
    exact ⟨⟨List.count_eq_zero.mp (by omega), List.count_eq_zero.mp (by omega)⟩, hhead, hlast⟩

/-! ### The whole reply -/

/-- What an item is read as. -/
def read (e : Text × Text) : Text × Text := (readItem (pairToString e)).getD e

theorem readItem_pairToString (e : Text × Text) : readItem (pairToString e) = some (read e) := by
  obtain ⟨p, hp, -⟩ := exists_readItem e.1 e.2
  have hp : readItem (pairToString e) = some p := hp
  rw [read, hp]
  rfl

theorem read_of_kept {e : Text × Text} (h : Kept e.1 e.2) : read e = e := by
  have hread : readItem (pairToString e) = some e := readItem_of_kept h
  rw [read, hread]
  rfl

theorem size_read_le (e : Text × Text) : size (read e) ≤ size e := by
  obtain ⟨p, hp, hle, -⟩ := exists_readItem e.1 e.2
  obtain rfl : read e = p := Option.some.inj ((readItem_pairToString e).symm.trans hp)
  exact hle

theorem kept_of_size {e : Text × Text} (h : size (read e) = size e) : Kept e.1 e.2 := by
  obtain ⟨p, hp, -, hkept⟩ := exists_readItem e.1 e.2
  obtain rfl : read e = p := Option.some.inj ((readItem_pairToString e).symm.trans hp)
  exact hkept h

theorem read_of_size (e : Text × Text) (h : size (read e) = size e) : read e = e := read_of_kept (kept_of_size h)

theorem kept_of_read {e : Text × Text} (h : read e = e) : Kept e.1 e.2 := kept_of_size (by rw [h])

/-- The blank after a comma is stripped. -/
theorem readItem_blank (item : Text) : readItem (' ' :: item) = readItem item := rfl

/-- What is between the braces, as its items between single commas. -/
def items : List (Text × Text) → List Text
  | [] => []
  | e :: map => pairToString e :: map.map fun e => ' ' :: pairToString e

theorem intercalate_items : ∀ map : List (Text × Text),
    ([',', ' '] : Text).intercalate (map.map pairToString) = ([','] : Text).intercalate (items map)
  | [] => rfl
  | [e] => by simp [items]
  | e :: e' :: map => by
    have ih := intercalate_items (e' :: map)
    have hitems : items (e :: e' :: map) =
        pairToString e :: (' ' :: pairToString e') :: map.map fun e => ' ' :: pairToString e :=
      rfl
    calc ([',', ' '] : Text).intercalate ((e :: e' :: map).map pairToString)
        = pairToString e ++ [',', ' '] ++ ([',', ' '] : Text).intercalate ((e' :: map).map pairToString) := by
          rw [List.map_cons, List.map_cons, List.intercalate_cons_cons]
      _ = pairToString e ++ [','] ++ ' ' :: ([','] : Text).intercalate (items (e' :: map)) := by
          rw [ih]
          simp
      _ = ([','] : Text).intercalate (items (e :: e' :: map)) := by
          rw [hitems, List.intercalate_cons_cons, List.intercalate_cons_cons_left]
          rfl

theorem toList_mapToString (map : List (Text × Text)) :
    toList (mapToString map) = (([','] : Text).intercalate (items map)).splitOn ',' := by
  have hbraces : ∀ body : Text, (('{' :: body ++ ['}']).drop 1).dropLast = body := by
    intro body
    rw [List.cons_append, List.drop_one, List.tail_cons, List.dropLast_concat]
  rw [toList, mapToString, intercalate_items, hbraces]

theorem map_readItem_items (map : List (Text × Text)) : (items map).map readItem = (map.map read).map some := by
  cases map with
  | nil => rfl
  | cons e map =>
    rw [items, List.map_cons, List.map_map, List.map_cons, List.map_cons, List.map_map, readItem_pairToString]
    refine congrArg _ (List.map_congr_left fun e' _ => ?_)
    exact (readItem_blank _).trans (readItem_pairToString e')

/-- The commas of an item are those of its name and its value. -/
theorem count_pairToString (e : Text × Text) : (pairToString e).count ',' = e.1.count ',' + e.2.count ',' := by
  have hne : ('=' == ',') = false := rfl
  rw [pairToString, List.count_append, List.count_cons, hne]
  rfl

theorem map_count_items : ∀ map : List (Text × Text),
    (items map).map (List.count ',') = map.map fun e => e.1.count ',' + e.2.count ','
  | [] => rfl
  | e :: map => by
    have hblank : ∀ e : Text × Text, (' ' :: pairToString e).count ',' = e.1.count ',' + e.2.count ',' := by
      intro e
      rw [← count_pairToString]
      exact List.count_cons_of_ne (by decide)
    rw [items, List.map_cons, List.map_map, List.map_cons, count_pairToString]
    exact congrArg _ (List.map_congr_left fun e' _ => hblank e')

theorem length_items : ∀ map : List (Text × Text), (items map).length = map.length
  | [] => rfl
  | e :: map => by rw [items, List.length_cons, List.length_map, List.length_cons]

theorem items_ne_nil {map : List (Text × Text)} (h : map ≠ []) : items map ≠ [] := by
  rw [← List.length_pos_iff, length_items, List.length_pos_iff]
  exact h

/-- The items come back if there are some and none has a comma. -/
theorem toList_of_no_comma {map : List (Text × Text)} (hne : map ≠ []) (h : ∀ e ∈ map, ',' ∉ e.1 ∧ ',' ∉ e.2) :
    toList (mapToString map) = items map := by
  rw [toList_mapToString]
  refine List.splitOn_intercalate ',' (fun item hitem => ?_) (items_ne_nil hne)
  have hcount : item.count ',' ∈ map.map fun e => e.1.count ',' + e.2.count ',' := by
    rw [← map_count_items]
    exact List.mem_map_of_mem hitem
  obtain ⟨e, he, hc⟩ := List.mem_map.mp hcount
  obtain ⟨hname, hvalue⟩ := h e he
  rw [← List.count_eq_zero, ← hc, List.count_eq_zero.mpr hname, List.count_eq_zero.mpr hvalue]

/-- There are as many items as metrics only if there is no comma in any. -/
theorem no_comma_of_length {map : List (Text × Text)} (h : (toList (mapToString map)).length = map.length) :
    map ≠ [] ∧ ∀ e ∈ map, ',' ∉ e.1 ∧ ',' ∉ e.2 := by
  rw [toList_mapToString, Pieces.length_splitOn] at h
  have hne : map ≠ [] := by
    rintro rfl
    cases h
  refine ⟨hne, fun e he => ?_⟩
  rw [Pieces.count_intercalate ',' (items_ne_nil hne), length_items, map_count_items] at h
  have hsum : (map.map fun e => e.1.count ',' + e.2.count ',').sum = 0 := by omega
  have hzero : e.1.count ',' + e.2.count ',' = 0 :=
    List.sum_eq_zero_iff_forall_eq_nat.mp hsum _ (List.mem_map.mpr ⟨e, he, rfl⟩)
  exact ⟨List.count_eq_zero.mp (by omega), List.count_eq_zero.mp (by omega)⟩

theorem sorted_perm (items : List Text) : (sorted items).Perm items := List.mergeSort_perm items _

/-- What is shown of the entries of a map, in some order. -/
def ShowsMap (map : List (Text × Text)) : Prop :=
  ∃ shown, displayMetrics (getMetrics (mapToString map)) = some shown ∧ shown.Perm map

theorem clean_of_showsMap {map : List (Text × Text)} (h : ShowsMap map) : map ≠ [] ∧ ∀ e ∈ map, Clean e.1 e.2 := by
  obtain ⟨shown, hdisplay, hperm⟩ := h
  rw [displayMetrics_eq_some] at hdisplay
  -- one item for each metric, so no comma
  have hlength : (toList (mapToString map)).length = map.length := by
    have hl := congrArg List.length hdisplay
    rw [List.length_map, List.length_map, getMetrics, (sorted_perm _).length_eq] at hl
    rw [hl, hperm.length_eq]
  obtain ⟨hne, hcomma⟩ := no_comma_of_length hlength
  -- each item is read as its own pair, since none is read as a longer one
  have hitems := (sorted_perm (toList (mapToString map))).map readItem
  rw [← getMetrics, hdisplay, toList_of_no_comma hne hcomma, map_readItem_items] at hitems
  have hread : (map.map read).Perm map :=
    ((List.map_perm_map_iff (Option.some_injective _)).mp hitems).symm.trans hperm
  have hkept : ∀ e ∈ map, read e = e := Pieces.eq_of_perm_map size_read_le read_of_size hread
  exact ⟨hne, fun e he => ⟨kept_of_read (hkept e he), hcomma e he⟩⟩

theorem showsMap_of_clean {map : List (Text × Text)} (hne : map ≠ []) (hclean : ∀ e ∈ map, Clean e.1 e.2) :
    ShowsMap map := by
  have hlist := toList_of_no_comma hne fun e he => (hclean e he).comma
  have hread : map.map read = map := by
    conv_rhs => rw [← List.map_id map]
    exact List.map_congr_left fun e he => read_of_kept (hclean e he).toKept
  have hitems := (sorted_perm (toList (mapToString map))).map readItem
  rw [hlist, map_readItem_items, hread] at hitems
  obtain ⟨shown, hshown, hperm⟩ := Pieces.exists_perm_of_perm_map_some hitems
  refine ⟨shown, ?_, hperm⟩
  rw [displayMetrics_eq_some, getMetrics, hlist]
  exact hshown

/-- **The console shows every metric exactly if every name and value is clean**,
and there is one. -/
theorem shows_iff (toString : JavaObject → Text) (metrics : List (Text × Option JavaObject)) :
    Shows toString metrics ↔ metrics ≠ [] ∧ ∀ e ∈ metrics, Clean e.1 (stringValueOf toString e.2) := by
  have hmap : Shows toString metrics ↔ ShowsMap (metrics.map fun e => (e.1, stringValueOf toString e.2)) := Iff.rfl
  have hclean : (metrics ≠ [] ∧ ∀ e ∈ metrics, Clean e.1 (stringValueOf toString e.2)) ↔
      (metrics.map fun e => (e.1, stringValueOf toString e.2)) ≠ [] ∧
        ∀ e ∈ metrics.map fun e => (e.1, stringValueOf toString e.2), Clean e.1 e.2 := by
    rw [ne_eq, ne_eq, List.map_eq_nil_iff, List.forall_mem_map]
  rw [hmap, hclean]
  exact ⟨clean_of_showsMap, fun h => showsMap_of_clean h.1 h.2⟩

/-- Neither the members of a cluster of two are shown, nor a server without metrics. -/
theorem members_not_shown : (∀ toString : JavaObject → Text,
    ¬ Shows toString [("hackorama.meta.cluster_members".toList, some (.string "a:80,b:80".toList))]) ∧
    ∀ toString : JavaObject → Text, ¬ Shows toString [] := by
  refine ⟨fun toString h => ?_, fun toString h => (clean_of_showsMap h).1 rfl⟩
  have hclean := (clean_of_showsMap h).2 ("hackorama.meta.cluster_members".toList, "a:80,b:80".toList) (.head _)
  exact absurd hclean.comma.2 (by decide)

end Console

end Plethora
