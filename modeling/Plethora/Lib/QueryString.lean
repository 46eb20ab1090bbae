/-
# Query strings of web requests

The query of a URL is a list of arguments between separators, each a name and
a value around the first `=`, with blanks as `+` and any other character as
its number after a `%`. `parseQs` reads it: an argument without a value, or
with a blank one, does not count.

A text that is put into a query as it is comes out again if it has none of the
characters that decoding or separating looks at. The results say when exactly.
Decoding makes no text longer and an escape makes it shorter, so only a text
without escapes is its own decoding, also after a second round
(`unquotePlus_twice_iff`). A separator cuts a value off for good
(`length_lt_of_mem_parseQsl`).

Key definitions: `unquotePlus`, `parseQs`, `Plain`.
Key theorems: `unquotePlus_twice_iff`, `length_lt_of_mem_parseQsl`,
`length_le_of_valueOf`, `valueOf_single_iff`, `valueOf_pair_iff`.
-/
import Plethora.Lib.Pieces
import Mathlib.Algebra.Order.BigOperators.Group.List
import Mathlib.Data.List.Infix
import Mathlib.Tactic.Common

namespace QueryString

/-! ### Decoding -/

def hexDigit (c : Char) : Option ℕ := "0123456789abcdef".toList.idxOf? c.toLower

/-- The character with the number that two digits spell. -/
def escape (a b : Char) : Option Char := do
  return Char.ofNat ((← hexDigit a) * 16 + (← hexDigit b))

/-- `urllib.unquote`: a `%` that no two digits follow stays. -/
def unquote : List Char → List Char
  | '%' :: a :: b :: s =>
    match escape a b with
    | some c => c :: unquote s
    | none => '%' :: unquote (a :: b :: s)
  | c :: s => c :: unquote s
  | [] => []

/-- `s.replace('+', ' ')`. -/
def spaced (s : List Char) : List Char := s.map fun c => if c = '+' then ' ' else c

/-- `urllib.unquote_plus`. -/
def unquotePlus (s : List Char) : List Char := unquote (spaced s)

/-- Somewhere in the text two digits follow a `%`. -/
def Escaped (s : List Char) : Prop := ∃ p a b q, s = p ++ '%' :: a :: b :: q ∧ (escape a b).isSome = true

theorem Escaped.cons {c : Char} {s : List Char} (h : Escaped s) : Escaped (c :: s) := by
  obtain ⟨p, a, b, q, rfl, hs⟩ := h
  exact ⟨c :: p, a, b, q, rfl, hs⟩

theorem Escaped.mem {s : List Char} (h : Escaped s) : '%' ∈ s := by
  obtain ⟨p, a, b, q, rfl, -⟩ := h
  simp

theorem unquote_of_not_escaped {s : List Char} (h : ¬ Escaped s) : unquote s = s := by
  fun_induction unquote s with
  | case1 a b s c hc =>
    exact absurd ⟨[], a, b, s, rfl, by simp [hc]⟩ h
  | case2 a b s hc ih => rw [ih fun he => h he.cons]
  | case3 c s _ ih => rw [ih fun he => h he.cons]
  | case4 => rfl

theorem length_unquote_le (s : List Char) : (unquote s).length ≤ s.length := by
  fun_induction unquote s with
  | case1 a b s c _ ih => simp only [List.length_cons]; omega
  | case2 a b s _ ih => simpa using ih
  | case3 c s _ ih => simpa using ih
  | case4 => exact le_rfl

theorem length_unquote_lt {s : List Char} (h : Escaped s) : (unquote s).length < s.length := by
  fun_induction unquote s with
  | case1 a b s c _ ih =>
    have hle := length_unquote_le s
    simp only [List.length_cons]
    omega
  | case2 a b s hc ih =>
    obtain ⟨p, a', b', q, he, hs⟩ := h
    cases p with
    | nil =>
      obtain ⟨rfl, rfl, rfl⟩ : a' = a ∧ b' = b ∧ q = s := by simpa [eq_comm] using he
      rw [hc] at hs
      cases hs
    | cons d p =>
      obtain ⟨rfl, ht⟩ := List.cons.inj he
      simpa using ih ⟨p, a', b', q, ht, hs⟩
  | case3 c s hne ih =>
    obtain ⟨p, a, b, q, he, hs⟩ := h
    cases p with
    | nil =>
      obtain ⟨rfl, rfl⟩ := List.cons.inj he
      exact absurd rfl (hne a b q rfl)
    | cons d p =>
      obtain ⟨rfl, ht⟩ := List.cons.inj he
      simpa using ih ⟨p, a, b, q, ht, hs⟩
  | case4 =>
    have hm := h.mem
    cases hm

theorem unquote_eq_iff {s : List Char} : unquote s = s ↔ ¬ Escaped s := by
  refine ⟨fun h he => ?_, unquote_of_not_escaped⟩
  have hlt := length_unquote_lt he
  rw [h] at hlt
  omega

instance (s : List Char) : Decidable (Escaped s) :=
  decidable_of_iff (¬ unquote s = s) (not_congr unquote_eq_iff |>.trans not_not)

@[simp] theorem length_spaced (s : List Char) : (spaced s).length = s.length := List.length_map _

theorem spaced_eq_iff {s : List Char} : spaced s = s ↔ '+' ∉ s := by
  induction s with
  | nil => simp [spaced]
  | cons c s ih =>
    have hc : (if c = '+' then ' ' else c) = c ↔ '+' ≠ c := by
      by_cases h : c = '+'
      · subst h
        decide
      · simp [h, eq_comm]
    rw [spaced, List.map_cons, List.cons.injEq, hc, ← spaced, ih, List.mem_cons, not_or]

theorem plus_not_mem_spaced (s : List Char) : '+' ∉ spaced s := by
  intro h
  obtain ⟨c, -, hc⟩ := List.mem_map.mp h
  by_cases hp : c = '+'
  · rw [if_pos hp] at hc
    exact absurd hc (by decide)
  · rw [if_neg hp] at hc
    exact hp hc

theorem escaped_spaced {s : List Char} : Escaped (spaced s) ↔ Escaped s := by
  have hsign : ∀ c : Char, (hexDigit (if c = '+' then ' ' else c)).isSome = (hexDigit c).isSome := fun c => by
    by_cases h : c = '+'
    · subst h
      decide
    · rw [if_neg h]
  have hesc : ∀ a b : Char, (escape a b).isSome = ((hexDigit a).isSome && (hexDigit b).isSome) := fun a b => by
    unfold escape
    cases hexDigit a <;> cases hexDigit b <;> rfl
  constructor
  · rintro ⟨p, a, b, q, he, hs⟩
    obtain ⟨p', r, rfl, -, hr⟩ := List.map_eq_append_iff.mp he
    obtain ⟨x, r₁, rfl, hx, hr₁⟩ := List.map_eq_cons_iff.mp hr
    obtain ⟨a, r₂, rfl, rfl, hr₂⟩ := List.map_eq_cons_iff.mp hr₁
    obtain ⟨b, r₃, rfl, rfl, -⟩ := List.map_eq_cons_iff.mp hr₂
    have hx : x = '%' := by
      by_cases hp : x = '+'
      · rw [if_pos hp] at hx
        exact absurd hx (by decide)
      · rwa [if_neg hp] at hx
    rw [hesc, hsign, hsign, ← hesc] at hs
    exact ⟨p', a, b, r₃, by rw [hx], hs⟩
  · rintro ⟨p, a, b, q, rfl, hs⟩
    rw [hesc, ← hsign a, ← hsign b, ← hesc] at hs
    exact ⟨spaced p, _, _, spaced q, by simp [spaced], hs⟩

theorem length_unquotePlus_le (s : List Char) : (unquotePlus s).length ≤ s.length :=
  (length_unquote_le _).trans (length_spaced s).le

theorem unquotePlus_of_not_mem {s : List Char} (hp : '+' ∉ s) (he : ¬ Escaped s) : unquotePlus s = s := by
  rw [unquotePlus, spaced_eq_iff.mpr hp, unquote_of_not_escaped he]

/-- **Two rounds of decoding leave a text alone** exactly if there is nothing
to decode in it. -/
theorem unquotePlus_twice_iff {s : List Char} :
    unquotePlus (unquotePlus s) = s ↔ '+' ∉ s ∧ ¬ Escaped s := by
  constructor
  · intro h
    have he : ¬ Escaped s := by
      intro he
      have hlt : (unquotePlus s).length < s.length := by
        rw [← length_spaced s]
        exact length_unquote_lt (escaped_spaced.mpr he)
      have hle := length_unquotePlus_le (unquotePlus s)
      rw [h] at hle
      omega
    have hs : ¬ Escaped (spaced s) := fun h => he (escaped_spaced.mp h)
    have hone : unquotePlus s = spaced s := unquote_of_not_escaped hs
    rw [hone, unquotePlus_of_not_mem (plus_not_mem_spaced s) hs] at h
    exact ⟨spaced_eq_iff.mp h, he⟩
  · rintro ⟨hp, he⟩
    rw [unquotePlus_of_not_mem hp he, unquotePlus_of_not_mem hp he]

/-! ### Separating -/

/-- The arguments, between `&` and `;`. -/
def pieces (qs : List Char) : List (List Char) := (qs.splitOn '&').flatMap (·.splitOn ';')

/-- An argument that has a value. -/
def argument (s : List Char) : Option (List Char × List Char) :=
  match s.dropWhile (· ≠ '=') with
  | _ :: c :: value => some (unquotePlus (s.takeWhile (· ≠ '=')), unquotePlus (c :: value))
  | _ => none

/-- `parse_qsl(qs)`. -/
def parseQsl (qs : List Char) : List (List Char × List Char) := (pieces qs).filterMap argument

/-- `parse_qs(qs)`: the values by name, none for a name that is no key. -/
def parseQs (qs : List Char) (name : List Char) : List (List Char) :=
  ((parseQsl qs).filter fun arg => arg.1 = name).map (·.2)

theorem pieces_append (s t : List Char) : pieces (s ++ '&' :: t) = pieces s ++ pieces t := by
  rw [pieces, List.splitOn_append_cons_self, List.flatMap_append, pieces, pieces]

theorem parseQsl_append (s t : List Char) : parseQsl (s ++ '&' :: t) = parseQsl s ++ parseQsl t := by
  rw [parseQsl, pieces_append, List.filterMap_append, parseQsl, parseQsl]

theorem length_le_of_mem_splitOn {c : Char} : ∀ {s p : List Char}, p ∈ s.splitOn c → p.length ≤ s.length
  | [], p, h => by
    rw [List.splitOn_nil, List.mem_singleton] at h
    rw [h]
  | x :: s, p, h => by
    have ih : ∀ q ∈ s.splitOn c, q.length ≤ s.length := fun q hq => length_le_of_mem_splitOn hq
    rw [List.splitOn_cons_eq_if_modifyHead] at h
    by_cases hx : (x == c) = true
    · rw [if_pos hx] at h
      rcases List.mem_cons.mp h with rfl | h
      · exact Nat.zero_le _
      · exact (ih p h).trans (Nat.le_succ _)
    · rw [if_neg hx] at h
      cases hs : s.splitOn c with
      | nil => exact absurd hs (List.splitOn_ne_nil c s)
      | cons q qs =>
        rw [hs] at h ih
        rcases List.mem_cons.mp h with rfl | h
        · exact Nat.succ_le_succ (ih q List.mem_cons_self)
        · exact (ih p (List.mem_cons_of_mem q h)).trans (Nat.le_succ _)

/-- A separator leaves only shorter pieces. -/
theorem length_lt_of_mem_splitOn {c : Char} {s p : List Char} (hc : c ∈ s) (h : p ∈ s.splitOn c) :
    p.length < s.length := by
  obtain ⟨l, r, rfl⟩ := List.append_of_mem hc
  rw [List.splitOn_append_cons_self, List.mem_append] at h
  simp only [List.length_append, List.length_cons]
  rcases h with h | h
  · have hl := length_le_of_mem_splitOn h
    omega
  · have hr := length_le_of_mem_splitOn h
    omega

/-- Neither of the separators is in the text. -/
structure Whole (s : List Char) : Prop where
  ampersand : '&' ∉ s
  semicolon : ';' ∉ s

theorem Whole.append {s t : List Char} (hs : Whole s) (ht : Whole t) : Whole (s ++ t) :=
  ⟨by simp [hs.ampersand, ht.ampersand], by simp [hs.semicolon, ht.semicolon]⟩

theorem Whole.right {s t : List Char} (h : Whole (s ++ t)) : Whole t :=
  ⟨fun hm => h.ampersand (List.mem_append_right s hm), fun hm => h.semicolon (List.mem_append_right s hm)⟩

theorem pieces_of_whole {s : List Char} (h : Whole s) : pieces s = [s] := by
  rw [pieces, List.splitOn_eq_singleton h.ampersand, List.flatMap_singleton, List.splitOn_eq_singleton h.semicolon]

theorem length_lt_of_mem_pieces {s p : List Char} (hs : ¬ Whole s) (h : p ∈ pieces s) : p.length < s.length := by
  obtain ⟨q, hq, hp⟩ := List.mem_flatMap.mp h
  have hle := length_le_of_mem_splitOn hp
  by_cases ha : '&' ∈ s
  · exact hle.trans_lt (length_lt_of_mem_splitOn ha hq)
  · rw [List.splitOn_eq_singleton ha, List.mem_singleton] at hq
    subst hq
    have hsemi : ';' ∈ q := by
      by_contra hne
      exact hs ⟨ha, hne⟩
    exact length_lt_of_mem_splitOn hsemi hp

/-- An argument is longer than its name and its value together. -/
theorem length_argument_lt {s : List Char} {arg : List Char × List Char} (h : argument s = some arg) :
    arg.1.length + arg.2.length < s.length := by
  have hsplit := List.takeWhile_append_dropWhile (p := fun c => c ≠ '=') (l := s)
  unfold argument at h
  split at h
  · rename_i x c value he
    cases h
    rw [he] at hsplit
    have hname := length_unquotePlus_le (s.takeWhile fun c => c ≠ '=')
    have hvalue := length_unquotePlus_le (c :: value)
    have hlen := congrArg List.length hsplit
    simp only [List.length_append, List.length_cons] at hlen hvalue
    simp only [ne_eq] at hname hlen ⊢
    omega
  · cases h

/-- **A separator cuts off.** No argument of a text with separators is as long
as the text. -/
theorem length_lt_of_mem_parseQsl {s : List Char} {arg : List Char × List Char} (hs : ¬ Whole s)
    (h : arg ∈ parseQsl s) : arg.1.length + arg.2.length + 1 < s.length := by
  obtain ⟨p, hp, ha⟩ := List.mem_filterMap.mp h
  have hlt := length_lt_of_mem_pieces hs hp
  have harg := length_argument_lt ha
  omega

theorem sum_length_pieces (qs : List Char) : ((pieces qs).map fun p => p.length + 1).sum = qs.length + 1 := by
  have hsucc : ∀ ps : List (List Char), (ps.map fun p => p.length + 1).sum = (ps.map List.length).sum + ps.length := by
    intro ps
    induction ps with
    | nil => rfl
    | cons p ps ih =>
      simp only [List.map_cons, List.sum_cons, List.length_cons, ih]
      omega
  have hsplit : ∀ (c : Char) (s : List Char), ((s.splitOn c).map fun p => p.length + 1).sum = s.length + 1 := by
    intro c s
    have hlen := Pieces.length_splitOn c s
    have hsum := Pieces.sum_length_splitOn c s
    rw [hsucc]
    omega
  rw [← hsplit '&' qs, pieces]
  induction qs.splitOn '&' with
  | nil => rfl
  | cons p ps ih => rw [List.flatMap_cons, List.map_append, List.sum_append, hsplit, ih, List.map_cons, List.sum_cons]

/-- The arguments with the signs around them are no longer than the query. -/
theorem sum_parseQsl_le (qs : List Char) :
    ((parseQsl qs).map fun arg => arg.1.length + arg.2.length + 2).sum ≤ qs.length + 1 := by
  rw [← sum_length_pieces, parseQsl]
  induction pieces qs with
  | nil => exact le_rfl
  | cons p ps ih =>
    rw [List.filterMap_cons, List.map_cons, List.sum_cons]
    cases ha : argument p with
    | none => exact ih.trans (Nat.le_add_left _ _)
    | some arg =>
      have hlt := length_argument_lt ha
      simp only [List.map_cons, List.sum_cons]
      omega

/-- Two members of a list count for no more than all of them. -/
theorem add_le_sum {α : Type} {f : α → ℕ} {a b : α} (hne : a ≠ b) : ∀ {l : List α}, a ∈ l → b ∈ l →
    f a + f b ≤ (l.map f).sum
  | c :: l, ha, hb => by
    have hmem : ∀ {x}, x ∈ l → f x ≤ (l.map f).sum := fun hx =>
      List.single_le_sum (fun _ _ => Nat.zero_le _) _ (List.mem_map_of_mem hx)
    rw [List.map_cons, List.sum_cons]
    rcases List.mem_cons.mp ha with hac | hal
    · have hle := hmem ((List.mem_cons.mp hb).resolve_left fun hbc => hne (hac.trans hbc.symm))
      rw [hac]
      omega
    · rcases List.mem_cons.mp hb with hbc | hbl
      · have hle := hmem hal
        rw [hbc]
        omega
      · exact (add_le_sum hne hal hbl).trans (Nat.le_add_left _ _)

/-- What a text must not have to come out of a query as it was put in. -/
structure Plain (s : List Char) : Prop extends Whole s where
  plus : '+' ∉ s
  escaped : ¬ Escaped s

/-- A name that is read as it is, before the first `=`. -/
structure IsName (name : List Char) : Prop extends Plain name where
  equals : '=' ∉ name

/-- An argument on its own. -/
theorem parseQsl_single {name value : List Char} (hn : IsName name) (hv : Whole value) :
    parseQsl (name ++ '=' :: value) = if value = [] then [] else [(name, unquotePlus value)] := by
  have hw : Whole (name ++ '=' :: value) := by
    refine hn.toWhole.append ⟨?_, ?_⟩
    · simp [hv.ampersand]
    · simp [hv.semicolon]
  rw [parseQsl, pieces_of_whole hw, List.filterMap_cons, List.filterMap_nil, argument,
    Pieces.dropWhile_append_cons hn.equals, Pieces.takeWhile_append_cons hn.equals,
    unquotePlus_of_not_mem hn.plus hn.escaped]
  cases value with
  | nil => rfl
  | cons c value => rfl

theorem mem_parseQsl_of_mem_parseQs {qs name value : List Char} (h : value ∈ parseQs qs name) :
    (name, value) ∈ parseQsl qs := by
  obtain ⟨arg, ha, rfl⟩ := List.mem_map.mp h
  obtain ⟨hm, hname⟩ := List.mem_filter.mp ha
  rw [← of_decide_eq_true hname]
  exact hm

/-! ### What is put in and read out -/

/-- The value read for a name, decoded once more. -/
def valueOf (args : List Char → List (List Char)) (name : List Char) : Option (List Char) :=
  (args name).head?.map unquotePlus

theorem exists_of_valueOf {qs name value : List Char} (h : valueOf (parseQs qs) name = some value) :
    ∃ x, (name, x) ∈ parseQsl qs ∧ unquotePlus x = value := by
  obtain ⟨x, hx, he⟩ := Option.map_eq_some_iff.mp h
  exact ⟨x, mem_parseQsl_of_mem_parseQs (List.mem_of_mem_head? hx), he⟩

variable {name value name' value' : List Char}

/-- A query is longer than what is read out of it. -/
theorem length_le_of_valueOf {qs : List Char} (h : valueOf (parseQs qs) name = some value) :
    name.length + value.length + 1 ≤ qs.length := by
  obtain ⟨x, hx, rfl⟩ := exists_of_valueOf h
  have hle := length_unquotePlus_le x
  have harg : name.length + x.length + 2 ≤ ((parseQsl qs).map fun arg => arg.1.length + arg.2.length + 2).sum :=
    List.single_le_sum (fun _ _ => Nat.zero_le _) _ (List.mem_map_of_mem hx)
  have hsum := sum_parseQsl_le qs
  omega

theorem length_le_of_valueOf_pair {qs : List Char} (hne : name ≠ name') (h : valueOf (parseQs qs) name = some value)
    (h' : valueOf (parseQs qs) name' = some value') :
    name.length + value.length + (name'.length + value'.length) + 3 ≤ qs.length := by
  obtain ⟨x, hx, rfl⟩ := exists_of_valueOf h
  obtain ⟨y, hy, rfl⟩ := exists_of_valueOf h'
  have hlex := length_unquotePlus_le x
  have hley := length_unquotePlus_le y
  have hargs := add_le_sum (f := fun arg : List Char × List Char => arg.1.length + arg.2.length + 2)
    (fun he => hne (congrArg Prod.fst he)) hx hy
  have hsum := sum_parseQsl_le qs
  simp only at hargs
  omega

theorem plain_of_twice (hw : Whole value) (h : unquotePlus (unquotePlus value) = value) : Plain value :=
  ⟨hw, (unquotePlus_twice_iff.mp h).1, (unquotePlus_twice_iff.mp h).2⟩

theorem Plain.twice (h : Plain value) : unquotePlus (unquotePlus value) = value :=
  unquotePlus_twice_iff.mpr ⟨h.plus, h.escaped⟩

/-- The one argument that a value without separators makes. -/
theorem eq_of_mem_single {key x : List Char} (hn : IsName name) (hv : Whole value)
    (h : (key, x) ∈ parseQsl (name ++ '=' :: value)) : key = name ∧ x = unquotePlus value ∧ value ≠ [] := by
  rw [parseQsl_single hn hv] at h
  by_cases hne : value = []
  · rw [if_pos hne] at h
    cases h
  · rw [if_neg hne, List.mem_singleton, Prod.mk.injEq] at h
    exact ⟨h.1, h.2, hne⟩

/-- The arguments that a value with separators makes are too short. -/
theorem length_lt_of_not_whole {key x : List Char} (hv : ¬ Whole value)
    (h : (key, x) ∈ parseQsl (name ++ '=' :: value)) :
    key.length + (unquotePlus x).length < name.length + value.length := by
  have hw : ¬ Whole (name ++ '=' :: value) := by
    intro hw
    have htail : Whole (['='] ++ value) := hw.right
    exact hv htail.right
  have hlt := length_lt_of_mem_parseQsl hw h
  have hle := length_unquotePlus_le x
  simp only [List.length_append, List.length_cons] at hlt
  omega

/-- The values of a query with one argument. -/
theorem parseQs_single (hn : IsName name) (hv : Whole value) (hne : value ≠ []) (key : List Char) :
    parseQs (name ++ '=' :: value) key = if name = key then [unquotePlus value] else [] := by
  rw [parseQs, parseQsl_single hn hv, if_neg hne]
  by_cases h : name = key <;> simp [h]

theorem parseQs_append (s t key : List Char) :
    parseQs (s ++ '&' :: t) key = parseQs s key ++ parseQs t key := by
  simp only [parseQs, parseQsl_append, List.filter_append, List.map_append]

/-- What plain values read as. -/
theorem valueOf_single (hn : IsName name) (h : Plain value) (hne : value ≠ []) (key : List Char) :
    valueOf (parseQs (name ++ '=' :: value)) key = if name = key then some value else none := by
  rw [valueOf, parseQs_single hn h.toWhole hne]
  by_cases hk : name = key
  · rw [if_pos hk, if_pos hk]
    exact congrArg some h.twice
  · rw [if_neg hk, if_neg hk]
    rfl

theorem valueOf_pair (hn : IsName name) (hn' : IsName name') (h : Plain value) (h' : Plain value')
    (hne : value ≠ []) (hne' : value' ≠ []) (key : List Char) :
    valueOf (parseQs ((name ++ '=' :: value) ++ '&' :: (name' ++ '=' :: value'))) key =
      if name = key then some value else if name' = key then some value' else none := by
  rw [valueOf, parseQs_append, parseQs_single hn h.toWhole hne, parseQs_single hn' h'.toWhole hne']
  by_cases hk : name = key
  · rw [if_pos hk, if_pos hk]
    exact congrArg some h.twice
  · rw [if_neg hk, if_neg hk, List.nil_append]
    by_cases hk' : name' = key
    · rw [if_pos hk', if_pos hk']
      exact congrArg some h'.twice
    · rw [if_neg hk', if_neg hk']
      rfl

/-- **A query of one argument** reads back exactly if its value is plain. -/
theorem valueOf_single_iff (hn : IsName name) (hne : value ≠ []) :
    valueOf (parseQs (name ++ '=' :: value)) name = some value ↔ Plain value := by
  constructor
  · intro h
    obtain ⟨x, hx, he⟩ := exists_of_valueOf h
    have hw : Whole value := by
      by_contra hw
      have hlt := length_lt_of_not_whole hw hx
      rw [he] at hlt
      omega
    rw [(eq_of_mem_single hn hw hx).2.1] at he
    exact plain_of_twice hw he
  · intro h
    rw [valueOf_single hn h hne, if_pos rfl]

/-- **A query of two arguments** reads back exactly if both values are plain
and the second, like the first, is not blank. -/
theorem valueOf_pair_iff (hn : IsName name) (hn' : IsName name') (hnn : name ≠ name') (hne : value ≠ []) :
    (valueOf (parseQs ((name ++ '=' :: value) ++ '&' :: (name' ++ '=' :: value'))) name = some value ∧
      valueOf (parseQs ((name ++ '=' :: value) ++ '&' :: (name' ++ '=' :: value'))) name' = some value') ↔
    Plain value ∧ Plain value' ∧ value' ≠ [] := by
  constructor
  · rintro ⟨h, h'⟩
    obtain ⟨x, hx, he⟩ := exists_of_valueOf h
    obtain ⟨y, hy, he'⟩ := exists_of_valueOf h'
    rw [parseQsl_append, List.mem_append] at hx hy
    -- each value is longer than what the other one can hide
    have hw : Whole value := by
      by_contra hw
      rcases hx with hx | hx
      · have hlt := length_lt_of_not_whole hw hx
        rw [he] at hlt
        omega
      · have hw' : ¬ Whole value' := fun hw' => hnn (eq_of_mem_single hn' hw' hx).1
        have hlt := length_lt_of_not_whole hw' hx
        rw [he] at hlt
        rcases hy with hy | hy
        · have hlt' := length_lt_of_not_whole hw hy
          rw [he'] at hlt'
          omega
        · have hlt' := length_lt_of_not_whole hw' hy
          rw [he'] at hlt'
          omega
    have hx : x = unquotePlus value ∨ (name, x) ∈ parseQsl (name' ++ '=' :: value') :=
      hx.imp_left fun hx => (eq_of_mem_single hn hw hx).2.1
    have hy : (name', y) ∈ parseQsl (name' ++ '=' :: value') :=
      hy.resolve_left fun hy => hnn (eq_of_mem_single hn hw hy).1.symm
    have hw' : Whole value' := by
      by_contra hw'
      have hlt := length_lt_of_not_whole hw' hy
      rw [he'] at hlt
      omega
    have hx : x = unquotePlus value := hx.resolve_right fun hx => hnn (eq_of_mem_single hn' hw' hx).1
    obtain ⟨-, rfl, hne'⟩ := eq_of_mem_single hn' hw' hy
    rw [hx] at he
    exact ⟨plain_of_twice hw he, plain_of_twice hw' he', hne'⟩
  · rintro ⟨hp, hp', hne'⟩
    constructor
    · rw [valueOf_pair hn hn' hp hp' hne hne', if_pos rfl]
    · rw [valueOf_pair hn hn' hp hp' hne hne', if_neg hnn, if_pos rfl]

end QueryString
