/-
# The Java values the server is written in

The parts of the Java library every module of the server leans on: strings as
their characters, the runtime exceptions that cut a call short, the objects a
metric can hold, `java.util.TreeSet` over strings, which the module and metric
names are kept in, and arrays.

A `TreeSet` iterates in the order of `String.compareTo`, by UTF-16 code units,
so a position in it moves when a smaller name joins. `TreeSet` carries its
order as a field, which `TreeSet.add` keeps; a name after all the others is
one that moves no position (`TreeSet.getElem?_of_later`).

A position in a list is an `int`, and an OID's arc is one that wraps; the
lemmas about `elementAt` say which element such an index means.

Key definitions: `Text`, `Text.split`, `JavaError`, `JavaObject`, `units`, `TreeSet`, `elementAt`,
`nth`.
-/
import Plethora.Lib.Ordered
import Mathlib.Tactic.Common
import Mathlib.Data.List.Sort
import Mathlib.Data.List.Lex
import Mathlib.Data.List.Infix
import Mathlib.Data.List.DropRight
import Mathlib.Algebra.Group.Nat.Defs
import Mathlib.Algebra.Group.Int.Defs

namespace Plethora

/-- A Java string, as its characters. -/
abbrev Text := List Char

/-- All characters of a text: decided over the text, not over every character. -/
instance (t : Text) (p : Char → Prop) [DecidablePred p] : Decidable (∀ c ∈ t, p c) :=
  List.decidableBAll p t

instance (t : Text) (texts : List Text) : Decidable (t ∈ texts) := List.instDecidableMemOfLawfulBEq t texts

/-- `text.split(separator)`: the empty pieces at the end are dropped, except
from a text without a separator. -/
def Text.split (separator : Char) (t : Text) : List Text :=
  if separator ∈ t then (t.splitOn separator).rdropWhile (·.isEmpty) else [t]

theorem Text.split_of_mem {separator : Char} {t : Text} (h : separator ∈ t) :
    split separator t = (t.splitOn separator).rdropWhile (·.isEmpty) :=
  if_pos h

theorem Text.split_of_not_mem {separator : Char} {t : Text} (h : separator ∉ t) : split separator t = [t] := if_neg h

/-- Pieces without the separator, the last one not empty, are split apart. -/
theorem Text.split_intercalate {separator : Char} {pieces : List Text} (hne : pieces ≠ [])
    (hplain : ∀ p ∈ pieces, separator ∉ p) (hlast : pieces.getLast hne ≠ []) :
    split separator (([separator] : Text).intercalate pieces) = pieces := by
  cases pieces with
  | nil => exact absurd rfl hne
  | cons p ps =>
    cases ps with
    | nil =>
      rw [List.intercalate_singleton, split_of_not_mem (hplain p List.mem_cons_self)]
    | cons q qs =>
      have hmem : separator ∈ ([separator] : Text).intercalate (p :: q :: qs) := by
        rw [List.intercalate_cons_cons]
        simp
      rw [split_of_mem hmem, List.splitOn_intercalate separator hplain hne, List.rdropWhile_eq_self_iff]
      intro _
      simpa using hlast

/-- `String.trim`: no characters up to the space at either end. -/
def trim (t : Text) : Text := ((t.dropWhile (· ≤ ' ')).reverse.dropWhile (· ≤ ' ')).reverse

/-- Nothing is taken off a text without blanks. -/
theorem trim_of_le {t : Text} (h : ∀ c ∈ t, 0x21 ≤ c.toNat) : trim t = t := by
  have hdrop : ∀ s : Text, (∀ c ∈ s, c ∈ t) → s.dropWhile (· ≤ ' ') = s := by
    intro s hs
    cases s with
    | nil => rfl
    | cons c s =>
      refine List.dropWhile_cons_of_neg fun hle => ?_
      have hle' : c.toNat ≤ 32 := UInt32.le_iff_toNat_le.mp (of_decide_eq_true hle)
      have := h c (hs c List.mem_cons_self)
      omega
  rw [trim, hdrop t fun _ hc => hc, hdrop t.reverse fun _ hc => List.mem_reverse.mp hc, List.reverse_reverse]

/-- The unchecked exceptions the code lets through. -/
inductive JavaError
  | nullPointer
  | classCast
  | indexOutOfBounds
  | illegalArgument
  | security
  deriving DecidableEq, Repr

/-- A call that returned did so step by step. -/
theorem bind_eq_ok {ε α β : Type} {x : Except ε α} {f : α → Except ε β} {b : β} :
    (x >>= f) = .ok b ↔ ∃ a, x = .ok a ∧ f a = .ok b := by
  cases x with
  | error e => exact iff_of_false nofun fun ⟨_, h, _⟩ => nomatch h
  | ok a => exact ⟨fun h => ⟨a, rfl, h⟩, fun ⟨_, h, h'⟩ => Except.ok.inj h ▸ h'⟩

theorem map_eq_ok {ε α β : Type} {x : Except ε α} {f : α → β} {b : β} :
    x.map f = .ok b ↔ ∃ a, x = .ok a ∧ f a = b := by
  cases x <;> simp [Except.map]

theorem map_eq_error {ε α β : Type} {x : Except ε α} {f : α → β} {e : ε} : x.map f = .error e ↔ x = .error e := by
  cases x <;> simp [Except.map]

theorem exists_bind_ok_iff {ε α β : Type} {x : Except ε α} {f : α → Except ε β} :
    (∃ b, (x >>= f) = .ok b) ↔ ∃ a, x = .ok a ∧ ∃ b, f a = .ok b := by
  constructor
  · rintro ⟨b, h⟩
    obtain ⟨a, ha, hb⟩ := bind_eq_ok.mp h
    exact ⟨a, ha, b, hb⟩
  · rintro ⟨a, ha, b, hb⟩
    exact ⟨b, bind_eq_ok.mpr ⟨a, ha, hb⟩⟩

theorem exists_pure_ok {ε α : Type} (a : α) : ∃ b, (pure a : Except ε α) = .ok b := ⟨a, rfl⟩

/-! ### Objects -/

/-- The class names of `Util.typeIsString`. -/
def stringTypes : List Text := ["java.lang.String".toList, "java.lang.Character".toList]

/-- The class names of `Util.typeIsNumber`. -/
def numberTypes : List Text :=
  ["java.lang.Short".toList, "java.lang.Integer".toList, "java.lang.Long".toList,
    "java.lang.Double".toList, "java.lang.Float".toList]

/-- The class name of `Util.typeIsBoolean`. -/
def booleanTypes : List Text := ["java.lang.Boolean".toList]

def javaLang : List Text := stringTypes ++ numberTypes ++ booleanTypes

/-- A `java.lang.Object` as a metric can hold it. A float is kept by its
`intValue`, all the server reads of one; an object of a class outside
`javaLang` is kept by its class. -/
inductive JavaObject
  | string (value : Text)
  | character (value : Char)
  | boolean (value : Bool)
  | short (value : Int16)
  | integer (value : Int32)
  | long (value : Int64)
  | double (intValue : Int32)
  | float (intValue : Int32)
  | other (className : Text) (foreign : className ∉ javaLang)
  deriving DecidableEq

/-- `getClass().getName()`. -/
def JavaObject.getClassName : JavaObject → Text
  | .string _ => "java.lang.String".toList
  | .character _ => "java.lang.Character".toList
  | .boolean _ => "java.lang.Boolean".toList
  | .short _ => "java.lang.Short".toList
  | .integer _ => "java.lang.Integer".toList
  | .long _ => "java.lang.Long".toList
  | .double _ => "java.lang.Double".toList
  | .float _ => "java.lang.Float".toList
  | .other c _ => c

/-- `Number.intValue()`: the low 32 bits of a wider integer. -/
def JavaObject.intValue : JavaObject → Option Int32
  | .short v => some v.toInt32
  | .integer v => some v
  | .long v => some v.toInt32
  | .double i => some i
  | .float i => some i
  | _ => none

namespace Util

def typeIsString (type : Text) : Bool := decide (type ∈ stringTypes)

def typeIsNumber (type : Text) : Bool := decide (type ∈ numberTypes)

def typeIsBoolean (type : Text) : Bool := decide (type ∈ booleanTypes)

/-- A character is of a string type, and is no string. -/
theorem typeIsString_getClassName : ∀ v : JavaObject, typeIsString v.getClassName =
    match v with
    | .string _ => true
    | .character _ => true
    | _ => false
  | .string _ | .character _ | .boolean _ | .short _ | .integer _ | .long _ | .double _ | .float _ => rfl
  | .other _ h => decide_eq_false fun hc =>
    h (List.mem_append_left _ (List.mem_append_left _ hc))

theorem typeIsNumber_getClassName : ∀ v : JavaObject, typeIsNumber v.getClassName = v.intValue.isSome
  | .string _ | .character _ | .boolean _ | .short _ | .integer _ | .long _ | .double _ | .float _ => rfl
  | .other _ h => decide_eq_false fun hc =>
    h (List.mem_append_left _ (List.mem_append_right _ hc))

theorem typeIsBoolean_getClassName : ∀ v : JavaObject, typeIsBoolean v.getClassName =
    match v with
    | .boolean _ => true
    | _ => false
  | .string _ | .character _ | .boolean _ | .short _ | .integer _ | .long _ | .double _ | .float _ => rfl
  | .other _ h => decide_eq_false fun hc => h (List.mem_append_right _ hc)

end Util

/-! ### Strings in the order of `String.compareTo` -/

/-- The UTF-16 code units of a character. -/
def utf16 (c : Char) : List ℕ :=
  if c.toNat < 0x10000 then [c.toNat]
  else [0xD800 + (c.toNat - 0x10000) / 0x400, 0xDC00 + (c.toNat - 0x10000) % 0x400]

/-- A string's code units, what `compareTo` compares in order. -/
def units (t : Text) : List ℕ := t.flatMap utf16

theorem units_cons (c : Char) (t : Text) : units (c :: t) = utf16 c ++ units t := rfl

/-- A character of the first plane is no surrogate. -/
theorem not_surrogate (c : Char) (h : c.toNat < 0x10000) : c.toNat < 0xD800 ∨ 0xE000 ≤ c.toNat := by
  have hv := c.valid
  simp only [UInt32.isValidChar, Nat.isValidChar] at hv
  have : c.val.toNat = c.toNat := rfl
  omega

theorem toNat_lt (c : Char) : c.toNat < 0x110000 := by
  have hv := c.valid
  simp only [UInt32.isValidChar, Nat.isValidChar] at hv
  have : c.val.toNat = c.toNat := rfl
  omega

theorem char_ext {c d : Char} (h : c.toNat = d.toNat) : c = d := Char.ext (UInt32.toNat_inj.mp h)

theorem toNat_toLower (c : Char) :
    c.toLower.toNat = if 65 ≤ c.toNat ∧ c.toNat ≤ 90 then c.toNat + 32 else c.toNat := by
  have hv : c.val.toNat = c.toNat := rfl
  have hA : ('A' : Char).val.toNat = 65 := rfl
  have hZ : ('Z' : Char).val.toNat = 90 := rfl
  unfold Char.toLower
  by_cases h : c.val ≥ 'A'.val ∧ c.val ≤ 'Z'.val
  · have h1 := UInt32.le_iff_toNat_le.mp h.1
    have h2 := UInt32.le_iff_toNat_le.mp h.2
    rw [dif_pos h, if_pos (by omega)]
    show (c.val + ('a'.val - 'A'.val)).toNat = _
    rw [UInt32.toNat_add]
    have hd : ('a'.val - 'A'.val).toNat = 32 := rfl
    omega
  · rw [dif_neg h, if_neg]
    rintro ⟨h1, h2⟩
    exact h ⟨UInt32.le_iff_toNat_le.mpr (by omega), UInt32.le_iff_toNat_le.mpr (by omega)⟩

/-- The encoding is prefix free: the first unit says how many there are. -/
theorem utf16_append_inj {c d : Char} {s t : List ℕ} (h : utf16 c ++ s = utf16 d ++ t) : c = d ∧ s = t := by
  have hc := toNat_lt c
  have hd := toNat_lt d
  unfold utf16 at h
  by_cases h1 : c.toNat < 0x10000
  · have hs := not_surrogate c h1
    by_cases h2 : d.toNat < 0x10000
    · simp only [h1, h2, if_true, List.cons_append, List.nil_append, List.cons.injEq] at h
      exact ⟨char_ext h.1, h.2⟩
    · simp only [h1, h2, if_true, if_false, List.cons_append, List.nil_append, List.cons.injEq] at h
      omega
  · by_cases h2 : d.toNat < 0x10000
    · have hs := not_surrogate d h2
      simp only [h1, h2, if_true, if_false, List.cons_append, List.nil_append, List.cons.injEq] at h
      omega
    · simp only [h1, h2, if_false, List.cons_append, List.nil_append, List.cons.injEq] at h
      exact ⟨char_ext (by omega), h.2.2⟩

theorem utf16_ne_nil (c : Char) : utf16 c ≠ [] := by
  unfold utf16
  split <;> simp

theorem units_injective : Function.Injective units
  | [], [], _ => rfl
  | [], d :: t, h => by
    rw [units_cons] at h
    exact absurd (List.append_eq_nil_iff.mp h.symm).1 (utf16_ne_nil d)
  | c :: s, [], h => by
    rw [units_cons] at h
    exact absurd (List.append_eq_nil_iff.mp h).1 (utf16_ne_nil c)
  | c :: s, d :: t, h => by
    rw [units_cons, units_cons] at h
    obtain ⟨rfl, h'⟩ := utf16_append_inj h
    rw [units_injective h']

/-- `a.compareTo(b) < 0`. -/
def before (a b : Text) : Prop := units a < units b

instance (a b : Text) : Decidable (before a b) := inferInstanceAs (Decidable (units a < units b))

theorem before_irrefl (a : Text) : ¬ before a a := lt_irrefl (units a)

theorem before_trans {a b c : Text} (h : before a b) (h' : before b c) : before a c := lt_trans h h'

theorem before_or_before {a b : Text} (h : a ≠ b) : before a b ∨ before b a :=
  lt_or_gt_of_ne fun he => h (units_injective he)

/-! ### `java.util.TreeSet` over strings -/

/-- A tree set of strings, as its elements in iteration order. -/
structure TreeSet where
  toList : List Text
  sorted : toList.Pairwise before
  deriving DecidableEq

namespace TreeSet

instance : Membership Text TreeSet := ⟨fun s x => x ∈ s.toList⟩

instance (x : Text) (s : TreeSet) : Decidable (x ∈ s) := inferInstanceAs (Decidable (x ∈ s.toList))

def empty : TreeSet := ⟨[], List.Pairwise.nil⟩

theorem nodup (s : TreeSet) : s.toList.Nodup := by
  refine s.sorted.imp ?_
  rintro a b h rfl
  exact before_irrefl a h

/-- The sorted list with `x` put in its place. -/
def insert (x : Text) (l : List Text) : List Text := Ordered.insertKey before x l

theorem mem_insert {x z : Text} {l : List Text} : z ∈ insert x l ↔ z = x ∨ z ∈ l := Ordered.mem_insertKey

theorem insert_sorted (x : Text) {l : List Text} (h : l.Pairwise before) : (insert x l).Pairwise before :=
  Ordered.pairwise_insertKey before before_trans before_or_before x h

/-- `TreeSet.add`. -/
def add (s : TreeSet) (x : Text) : TreeSet := ⟨insert x s.toList, insert_sorted x s.sorted⟩

theorem mem_add {s : TreeSet} {x z : Text} : z ∈ s.add x ↔ z = x ∨ z ∈ s := mem_insert

/-- An element stays where it is while only elements after it join. -/
theorem getElem?_of_later {y : Text} : ∀ {l l' : List Text} {k : ℕ}, l.Pairwise before → l'.Pairwise before →
    (∀ x ∈ l, x ∈ l') → (∀ x ∈ l', x ∈ l ∨ before y x) → l[k]? = some y → l'[k]? = some y
  | [], _, k, _, _, _, _, h => by cases h
  | a :: l, [], k, _, _, hsub, _, _ => absurd (hsub a (List.mem_cons_self ..)) List.not_mem_nil
  | a :: l, b :: l', k, hl, hl', hsub, hnew, h => by
    have ha := List.pairwise_cons.mp hl
    have hb := List.pairwise_cons.mp hl'
    have hya : y = a ∨ before a y := by
      rcases List.mem_cons.mp (List.mem_of_getElem? h) with hy | hy
      · exact Or.inl hy
      · exact Or.inr (ha.1 y hy)
    -- the first elements are the same: either comes before the other otherwise
    have hab : a = b := by
      by_contra hne
      have hba : before b a := hb.1 a ((List.mem_cons.mp (hsub a (List.mem_cons_self ..))).resolve_left hne)
      rcases hnew b (List.mem_cons_self ..) with hbl | hyb
      · have := ha.1 b ((List.mem_cons.mp hbl).resolve_left (Ne.symm hne))
        exact before_irrefl a (before_trans this hba)
      · rcases hya with rfl | hay
        · exact before_irrefl y (before_trans hyb hba)
        · exact before_irrefl a (before_trans hay (before_trans hyb hba))
    subst hab
    cases k with
    | zero => exact h
    | succ k =>
      have hne : ∀ x, before a x → x ≠ a := by
        rintro x hax rfl
        exact before_irrefl x hax
      have h' : l[k]? = some y := h
      show l'[k]? = some y
      refine getElem?_of_later ha.2 hb.2 (fun x hx => ?_) (fun x hx => ?_) h'
      · exact (List.mem_cons.mp (hsub x (List.mem_cons_of_mem _ hx))).resolve_left (hne x (ha.1 x hx))
      · exact (hnew x (List.mem_cons_of_mem _ hx)).imp_left fun h' =>
          (List.mem_cons.mp h').resolve_left (hne x (hb.1 x hx))

theorem length_insert_le (x : Text) (l : List Text) : (insert x l).length ≤ l.length + 1 :=
  Ordered.length_insertKey_le before x l

/-- `TreeSet.addAll`. -/
def addAll (s : TreeSet) (l : List Text) : TreeSet := l.foldl add s

theorem mem_addAll {x : Text} : ∀ {l : List Text} {s : TreeSet}, x ∈ s.addAll l ↔ x ∈ s ∨ x ∈ l
  | [], s => by simp [addAll]
  | y :: l, s => by
    rw [show s.addAll (y :: l) = (s.add y).addAll l from rfl, mem_addAll, mem_add, List.mem_cons]
    tauto

theorem length_addAll_le : ∀ (l : List Text) (s : TreeSet),
    (s.addAll l).toList.length ≤ s.toList.length + l.length
  | [], _ => le_rfl
  | y :: l, s => by
    have h := length_addAll_le l (s.add y)
    have h' : (s.add y).toList.length ≤ s.toList.length + 1 := length_insert_le y s.toList
    rw [List.length_cons]
    exact h.trans (by omega)

end TreeSet

/-! ### Maps, as their entries -/

section Maps

variable {κ α : Type} [BEq κ] [LawfulBEq κ] {k : κ}

theorem mem_keys_iff : ∀ {l : List (κ × α)}, k ∈ l.map (·.1) ↔ (l.lookup k).isSome = true
  | [] => by simp
  | (k', v) :: l => by
    rw [List.map_cons, List.mem_cons, mem_keys_iff, List.lookup_cons]
    by_cases h : k = k'
    · simp [h]
    · have hb : (k == k') = false := beq_eq_false_iff_ne.mpr h
      simp [h, hb]

theorem mem_of_lookup {v : α} : ∀ {l : List (κ × α)}, l.lookup k = some v → (k, v) ∈ l
  | [], h => by cases h
  | (k', w) :: l, h => by
    rw [List.lookup_cons] at h
    split at h
    · rename_i hk
      cases h
      rw [eq_of_beq hk]
      exact List.mem_cons_self ..
    · exact List.mem_cons_of_mem _ (mem_of_lookup h)

theorem lookup_of_mem {v : α} : ∀ {l : List (κ × α)}, (l.map (·.1)).Nodup → (k, v) ∈ l → l.lookup k = some v
  | [], _, h => by cases h
  | (k', w) :: l, hn, h => by
    rw [List.map_cons, List.nodup_cons] at hn
    rw [List.lookup_cons]
    rcases List.mem_cons.mp h with h | h
    · cases h
      rw [beq_self_eq_true]
    · have hne : k ≠ k' := fun he => hn.1 (List.mem_map.mpr ⟨(k, v), h, he⟩)
      rw [beq_eq_false_iff_ne.mpr hne]
      exact lookup_of_mem hn.2 h

theorem lookup_filter_ne [DecidableEq κ] {k' : κ} (h : k ≠ k') : ∀ l : List (κ × α), (l.filter (·.1 ≠ k')).lookup k = l.lookup k
  | [] => rfl
  | (a, v) :: l => by
    have ih := lookup_filter_ne h l
    by_cases ha : a = k'
    · have hka : (k == a) = false := beq_eq_false_iff_ne.mpr (ha ▸ h)
      rw [List.filter_cons_of_neg (by simp [ha]), List.lookup_cons, hka]
      exact ih
    · rw [List.filter_cons_of_pos (by simp [ha]), List.lookup_cons, List.lookup_cons, ih]

end Maps

/-! ### `java.util.Map.put` -/

section Put

variable {κ α : Type} [DecidableEq κ]

/-- The entries with `v` at the key. -/
def put (k : κ) (v : α) : List (κ × α) → List (κ × α)
  | [] => [(k, v)]
  | (a, w) :: l => if a = k then (a, v) :: l else (a, w) :: put k v l

theorem mem_keys_put {k j : κ} {v : α} : ∀ {l : List (κ × α)},
    j ∈ (put k v l).map (·.1) ↔ j = k ∨ j ∈ l.map (·.1)
  | [] => by simp [put]
  | (a, w) :: l => by
    unfold put
    by_cases h : a = k
    · rw [if_pos h]
      subst h
      simp
    · rw [if_neg h, List.map_cons, List.mem_cons, mem_keys_put, List.map_cons, List.mem_cons]
      tauto

theorem nodup_keys_put {k : κ} {v : α} : ∀ {l : List (κ × α)}, (l.map (·.1)).Nodup → ((put k v l).map (·.1)).Nodup
  | [], _ => by simp [put]
  | (a, w) :: l, h => by
    rw [List.map_cons, List.nodup_cons] at h
    unfold put
    by_cases ha : a = k
    · rw [if_pos ha, List.map_cons, List.nodup_cons]
      exact h
    · rw [if_neg ha, List.map_cons, List.nodup_cons, mem_keys_put]
      exact ⟨fun hm => hm.elim ha h.1, nodup_keys_put h.2⟩

theorem mem_put {k : κ} {v : α} {e : κ × α} : ∀ {l : List (κ × α)}, e ∈ put k v l → e = (k, v) ∨ e ∈ l
  | [], h => Or.inl (List.mem_singleton.mp h)
  | (a, w) :: l, h => by
    unfold put at h
    by_cases ha : a = k
    · rw [if_pos ha, ha] at h
      exact (List.mem_cons.mp h).imp_right (List.mem_cons_of_mem _)
    · rw [if_neg ha] at h
      rcases List.mem_cons.mp h with rfl | h
      · exact Or.inr List.mem_cons_self
      · exact (mem_put h).imp_right (List.mem_cons_of_mem _)

theorem lookup_put [BEq κ] [LawfulBEq κ] (k j : κ) (v : α) : ∀ l : List (κ × α),
    (put k v l).lookup j = if j = k then some v else l.lookup j
  | [] => by
    rw [put, List.lookup_cons]
    by_cases h : j = k
    · rw [if_pos h, h, beq_self_eq_true]
    · rw [if_neg h, beq_eq_false_iff_ne.mpr h]
  | (a, w) :: l => by
    have ih := lookup_put k j v l
    unfold put
    by_cases ha : a = k
    · subst ha
      rw [if_pos rfl, List.lookup_cons, List.lookup_cons]
      by_cases h : j = a
      · rw [if_pos h, h, beq_self_eq_true]
      · rw [if_neg h, beq_eq_false_iff_ne.mpr h]
    · rw [if_neg ha, List.lookup_cons, List.lookup_cons, ih]
      by_cases h : j = k
      · have hja : (j == a) = false := beq_eq_false_iff_ne.mpr fun he => ha (he.symm.trans h)
        simp only [if_pos h, hja]
      · simp only [if_neg h]

end Put

/-! ### Arrays, indexed by `int` -/

section Arrays

variable {α : Type}

/-- `size()` of a collection, or an array's `length`. -/
def size (l : List α) : Int32 := Int32.ofNat l.length

/-- The element of an array at an index, if the index is within it. -/
def elementAt (l : List α) (i : Int32) : Option α := if 0 ≤ i.toInt then l[i.toInt.toNat]? else none

/-- The `k`-th element, counted from 1. -/
def nth (l : List α) (k : ℕ) : Option α := if k = 0 then none else l[k - 1]?

/-- `array[i]`. -/
def element (l : List α) (i : Int32) : Except JavaError α :=
  match elementAt l i with
  | some a => .ok a
  | none => .error .indexOutOfBounds

@[simp] theorem nth_zero (l : List α) : nth l 0 = none := rfl

@[simp] theorem nth_succ (l : List α) (k : ℕ) : nth l (k + 1) = l[k]? := rfl

theorem one_small : 1 < 2 ^ 31 := by decide

theorem element_eq {l : List α} {i : Int32} {a : α} (h : elementAt l i = some a) : element l i = .ok a := by
  simp only [element, h]

variable {l : List α} (hl : l.length < 2 ^ 31)
include hl

theorem toInt_size : (size l).toInt = l.length := Int32.toInt_ofNat_of_lt hl

/-- The bounds check before an access. -/
theorem elementAt_isSome {i : Int32} : (elementAt l i).isSome = true ↔ 0 ≤ i ∧ i < size l := by
  rw [Int32.lt_iff_toInt_lt, toInt_size hl, Int32.le_iff_toInt_le]
  have h0 : (0 : Int32).toInt = 0 := rfl
  rw [h0]
  unfold elementAt
  by_cases h : 0 ≤ i.toInt
  · rw [if_pos h, isSome_getElem?]
    omega
  · rw [if_neg h]
    exact iff_of_false nofun fun h' => h h'.1

omit hl in
theorem toInt_toInt32 (a : UInt32) : a.toInt32.toInt = (a.toNat : Int).bmod (2 ^ 32) :=
  BitVec.toInt_eq_toNat_bmod _

/-- An unsigned index, held as a signed one. -/
theorem elementAt_toInt32 (a : UInt32) : elementAt l a.toInt32 = l[a.toNat]? := by
  have ha := a.toNat_lt
  unfold elementAt
  rw [toInt_toInt32, Int.bmod_def]
  split
  · split
    · congr 1
      omega
    · omega
  · split
    · omega
    · rw [List.getElem?_eq_none (by omega)]

omit hl in
theorem toInt_pred (a : UInt32) : (a.toInt32 - 1).toInt =
    if a.toNat ≤ 2 ^ 31 then (a.toNat : Int) - 1 else (a.toNat : Int) - 1 - 2 ^ 32 := by
  have ha := a.toNat_lt
  have h1 : (1 : Int32).toInt = 1 := rfl
  rw [Int32.toInt_sub, toInt_toInt32, h1, Int.bmod_def, Int.bmod_def]
  split <;> split <;> split <;> omega

/-- One less than an unsigned index counts the elements from 1. -/
theorem elementAt_pred (a : UInt32) : elementAt l (a.toInt32 - 1) = nth l a.toNat := by
  unfold elementAt nth
  rw [toInt_pred]
  by_cases h0 : a.toNat = 0
  · rw [if_pos h0, if_neg (by split <;> omega)]
  · rw [if_neg h0]
    by_cases h : a.toNat ≤ 2 ^ 31
    · rw [if_pos h, if_pos (by omega)]
      congr 1
      omega
    · rw [if_neg h, if_neg (by have := a.toNat_lt; omega), List.getElem?_eq_none (by omega)]

end Arrays

end Plethora
