/-
# A line of a C++ agent's configuration

`Channel::processLine` with `autil::trim` and `autil::toLower`. They work in
place, on a copy of the line with a NUL at its end. Where one of them asks for
what is not in the copy, the program is undefined, and there is no result here.

What a line gives depends on its shape alone (`processLine_eq`). The cut at the
delimiter takes the last character of the name along, and where nothing but
blanks is left, `trim` goes on to look for the end of the name before the copy.

Key definitions: `Cpp.Autil.trim`, `Cpp.Channel.processLine`, `Cpp.Examined`, `Cpp.Bare`.
Key theorems: `trim_eq`, `trim_of_blank`, `processLine_eq`.
-/
import Plethora.Agents.CppHandler
import Plethora.Lib.Strip

namespace Plethora

open Strip

namespace Cpp

/-- `NULL_TERMINATE`. -/
def nul : Char := '\x00'

/-! ### Texts in memory -/

namespace Autil

/-- A block of memory, a character for each of its bytes. A position in it is
a pointer. -/
abbrev Block : Type := List Char

def isWhite (c : Char) : Bool := c = ' '

/-- `*p = c`. -/
def store (m : Block) (p : ℕ) (c : Char) : Option Block := if p < m.length then some (m.set p c) else none

/-- `strlen`, of what is in memory from a pointer on. -/
def strlen : Block → Option ℕ
  | [] => none
  | c :: m => if c = nul then some 0 else (strlen m).map (· + 1)

/-- The `string` of a `char*`. -/
def asString : Block → Option Text
  | [] => none
  | c :: m => if c = nul then some [] else (asString m).map (c :: ·)

/-- `while (*str == WHITE_SPACE) str++`, of what is in memory from `str` on. -/
def skipStart : Block → ℕ → Option ℕ
  | [], _ => none
  | c :: m, str => if isWhite c then skipStart m (str + 1) else some str

/-- `while (*end == WHITE_SPACE) end--`, with the position after `end`. -/
def skipEnd (m : Block) : ℕ → Option ℕ
  | 0 => none
  | e + 1 => do
    let c ← m[e]?
    if isWhite c then skipEnd m e else some (e + 1)

def trim (m : Block) (str : ℕ) : Option (Block × ℕ) := do
  let str ← skipStart (m.drop str) str
  let length ← strlen (m.drop str)
  let after ← skipEnd m (str + length)
  let m ← store m after nul
  some (m, str)

/-- `toLower`, of what is in memory from a pointer on. -/
def toLower : Block → Option Block
  | [] => none
  | c :: m => if c = nul then some (c :: m) else (toLower m).map (c.toLower :: ·)

section Lemmas

variable {x y : Text} (post : Block)

/-- The text less the blanks at its ends. -/
def trimmed (t : Text) : Text := strip isWhite t

@[simp] theorem isWhite_nul : isWhite nul = false := rfl

theorem store_append (p : Block) (c d : Char) (r : Block) : store (p ++ c :: r) p.length d = some (p ++ d :: r) := by
  rw [store, if_pos (by simp), List.set_append_right _ _ le_rfl, Nat.sub_self, List.set_cons_zero]

theorem strlen_eq : ∀ {x : Text}, nul ∉ x → strlen (x ++ nul :: post) = some x.length
  | [], _ => by rw [List.nil_append, strlen, if_pos rfl, List.length_nil]
  | c :: x, h => by
    obtain ⟨hc, hx⟩ := not_or.mp (List.mem_cons.not.mp h)
    rw [List.cons_append, strlen, if_neg (Ne.symm hc), strlen_eq hx, Option.map_some, List.length_cons]

theorem asString_eq : ∀ {x : Text}, nul ∉ x → asString (x ++ nul :: post) = some x
  | [], _ => by rw [List.nil_append, asString, if_pos rfl]
  | c :: x, h => by
    obtain ⟨hc, hx⟩ := not_or.mp (List.mem_cons.not.mp h)
    rw [List.cons_append, asString, if_neg (Ne.symm hc), asString_eq hx, Option.map_some]

theorem toLower_eq : ∀ {x : Text}, nul ∉ x → Autil.toLower (x ++ nul :: post) = some (x.map Char.toLower ++ nul :: post)
  | [], _ => by rw [List.nil_append, toLower, if_pos rfl, List.map_nil, List.nil_append]
  | c :: x, h => by
    obtain ⟨hc, hx⟩ := not_or.mp (List.mem_cons.not.mp h)
    rw [List.cons_append, toLower, if_neg (Ne.symm hc), toLower_eq hx, Option.map_some, List.map_cons, List.cons_append]

theorem skipStart_eq {c : Char} (hc : isWhite c = false) : ∀ {l : Text}, (∀ d ∈ l, isWhite d = true) → ∀ str : ℕ,
    skipStart (l ++ c :: post) str = some (str + l.length)
  | [], _, str => by rw [List.nil_append, skipStart, hc, if_neg Bool.false_ne_true, List.length_nil, Nat.add_zero]
  | d :: l, h, str => by
    obtain ⟨hd, hl⟩ := List.forall_mem_cons.mp h
    rw [List.cons_append, skipStart, if_pos hd, skipStart_eq hc hl, List.length_cons]
    congr 1
    omega

/-- The end goes back over blanks. -/
theorem skipEnd_white (p : Block) {b : Text} (hb : ∀ d ∈ b, isWhite d = true) (r : Block) :
    skipEnd (p ++ (b ++ r)) (p.length + b.length) = skipEnd (p ++ (b ++ r)) p.length := by
  induction b using List.reverseRecOn generalizing r with
  | nil => rfl
  | append_singleton b d ih =>
    have hd : isWhite d = true := hb d (by simp)
    have hget : (p ++ ((b ++ [d]) ++ r))[p.length + b.length]? = some d := by simp
    have ih' := ih (fun c hc => hb c (List.mem_append_left _ hc)) (d :: r)
    rw [List.append_cons b d r] at ih'
    rw [List.length_append, List.length_singleton, ← Nat.add_assoc, skipEnd, hget]
    show (if isWhite d = true then _ else _) = _
    rw [if_pos hd]
    exact ih'

theorem skipEnd_stop {d : Char} (hd : isWhite d = false) (p r : Block) :
    skipEnd (p ++ d :: r) (p.length + 1) = some (p.length + 1) := by
  have hget : (p ++ d :: r)[p.length]? = some d := by simp
  rw [skipEnd, hget]
  show (if isWhite d = true then _ else _) = _
  rw [hd, if_neg Bool.false_ne_true]

/-- What `trim` does where it stays in the block: the blanks before the text
are `l`, and from `p` on there are only blanks up to its end. -/
theorem trim_core (pre p : Block) {l b : Block} {d : Char} (hl : ∀ c ∈ l, isWhite c = true)
    (hy : ∀ c ∈ y.head?, isWhite c = false) (hn : nul ∉ y) (he : pre ++ (l ++ y) = (p ++ [d]) ++ b)
    (hd : isWhite d = false) (hb : ∀ c ∈ b, isWhite c = true) :
    Autil.trim (pre ++ (l ++ (y ++ nul :: post))) pre.length =
      (store ((p ++ [d]) ++ (b ++ nul :: post)) (p ++ [d]).length nul).map (·, pre.length + l.length) := by
  have hm : pre ++ (l ++ (y ++ nul :: post)) = (p ++ [d]) ++ (b ++ nul :: post) := by
    rw [← List.append_assoc (p ++ [d]), ← he]
    simp only [List.append_assoc]
  have hskip : skipStart (l ++ (y ++ nul :: post)) pre.length = some (pre.length + l.length) := by
    cases y with
    | nil => exact skipStart_eq post isWhite_nul hl pre.length
    | cons c y => exact skipStart_eq (y ++ nul :: post) (hy c rfl) hl pre.length
  have hlen : pre.length + l.length + y.length = (p ++ [d]).length + b.length := by
    have h := congrArg List.length he
    simp only [List.length_append] at h ⊢
    omega
  have hend : skipEnd (pre ++ (l ++ (y ++ nul :: post))) (pre.length + l.length + y.length) = some (p ++ [d]).length := by
    rw [hlen, hm, skipEnd_white _ hb, List.append_assoc, List.length_append]
    exact skipEnd_stop hd p _
  have hdrop : (pre ++ (l ++ (y ++ nul :: post))).drop (pre.length + l.length) = y ++ nul :: post := by
    rw [← List.append_assoc, ← List.length_append, List.drop_left]
  rw [Autil.trim, List.drop_left, hskip, Option.bind_eq_bind, Option.bind_some, hdrop, strlen_eq post hn]
  show (skipEnd _ (pre.length + l.length + y.length)).bind _ = _
  rw [hend, hm]
  rw [Option.map_eq_bind]
  rfl

/-- A text is cut off where a NUL is put. -/
theorem store_nul (p b : Block) : ∃ b' t, store (p ++ (b ++ nul :: post)) p.length nul = some (p ++ (b' ++ nul :: post)) ∧
    b'.length = b.length ∧ b' ++ nul :: post = nul :: t := by
  cases b with
  | nil => exact ⟨[], post, store_append p nul nul post, rfl, rfl⟩
  | cons c b => exact ⟨nul :: b, b ++ nul :: post, store_append p c nul (b ++ nul :: post), rfl, rfl⟩

/-- **What `trim` leaves**, in a block that has something else than a blank
before the blanks at the end of the text. -/
theorem trim_eq (pre : Block) (hx : nul ∉ x) (hlast : trimmed x ≠ [] ∨ ∃ p d, pre = p ++ [d] ∧ isWhite d = false) :
    ∃ x' str, Autil.trim (pre ++ (x ++ nul :: post)) pre.length = some (pre ++ (x' ++ nul :: post), str) ∧
      x'.length = x.length ∧ asString ((pre ++ (x' ++ nul :: post)).drop str) = some (trimmed x) := by
  obtain ⟨l, r, he, hl, hr⟩ := strip_spec isWhite x
  have hz := stripped_strip isWhite x
  change x = l ++ (trimmed x ++ r) at he
  change Stripped isWhite (trimmed x) at hz
  generalize trimmed x = z at he hz hlast ⊢
  have hn : nul ∉ z ++ r := fun h => hx (he ▸ List.mem_append_right _ h)
  rcases List.eq_nil_or_concat' z with rfl | ⟨z, d, rfl⟩
  · -- only blanks: the end goes back to what is before the text
    obtain ⟨p, d, rfl, hd⟩ := hlast.resolve_left fun h => h rfl
    have hwhite : ∀ c ∈ x, isWhite c = true := by
      intro c hc
      rw [he, List.nil_append] at hc
      exact (List.mem_append.mp hc).elim (hl c) (hr c)
    have hcore := trim_core post (p ++ [d]) p hwhite (by simp) (@List.not_mem_nil _ nul) (by simp) hd hwhite
    obtain ⟨x', t, hstore, hlen, ht⟩ := store_nul post (p ++ [d]) x
    rw [hstore, List.nil_append] at hcore
    refine ⟨x', (p ++ [d]).length + x.length, hcore, hlen, ?_⟩
    rw [← hlen, ← List.append_assoc, ← List.length_append, List.drop_left]
    exact asString_eq post List.not_mem_nil
  · have hd : isWhite d = false := hz.last d (by simp)
    have hhead : ∀ c ∈ (z ++ [d] ++ r).head?, isWhite c = false := by
      intro c hc
      refine hz.head c ?_
      rwa [List.head?_append_of_ne_nil _ (by simp)] at hc
    have hcore := trim_core post pre (pre ++ (l ++ z)) hl hhead hn (by simp) hd hr
    obtain ⟨r', t, hstore, hlen, ht⟩ := store_nul post (pre ++ (l ++ z) ++ [d]) r
    have hm : pre ++ (l ++ (z ++ [d] ++ r') ++ nul :: post) = (pre ++ l) ++ (z ++ [d] ++ nul :: t) := by
      rw [← ht]
      simp only [List.append_assoc]
    refine ⟨l ++ (z ++ [d] ++ r'), pre.length + l.length, ?_, by simp [he, hlen], ?_⟩
    · rw [he, List.append_assoc l, hcore, hstore, Option.map_some]
      simp only [List.append_assoc]
    · rw [hm, ← List.length_append, List.drop_left]
      exact asString_eq t fun h => hn (List.mem_append_left _ h)

/-- A name of blanks at the beginning of a block: `trim` looks for its end
before the block. -/
theorem trim_of_blank (hx : ∀ c ∈ x, isWhite c = true) : Autil.trim (x ++ nul :: post) 0 = none := by
  have hskip : skipStart (x ++ nul :: post) 0 = some x.length := by
    rw [skipStart_eq post isWhite_nul hx, Nat.zero_add]
  have hend : skipEnd (x ++ nul :: post) x.length = none := by
    have h := skipEnd_white [] hx (nul :: post)
    rwa [List.nil_append, List.length_nil, Nat.zero_add] at h
  rw [Autil.trim, List.drop_zero, hskip, Option.bind_eq_bind, Option.bind_some, List.drop_left]
  show (skipEnd _ x.length).bind _ = _
  rw [hend]
  rfl

end Lemmas

end Autil

namespace Channel

open Autil

/-- The loop of `processLine`, over the next `n` positions: where it finds the
delimiter. -/
def findDelimiter (m : Block) (delimiter : Char) : (n cursor : ℕ) → Option (Option ℕ)
  | 0, _ => some none
  | n + 1, cursor => do
    let c ← m[cursor]?
    if c = delimiter then some (some cursor) else findDelimiter m delimiter n (cursor + 1)

/-- The two strings around a delimiter. Each is made in a part of its own, so
which of them comes first makes no difference. -/
def twoStrings (m : Block) : (cursor : ℕ) → Option (Text × Text)
  | 0 => none
  | before + 1 => do
    let m ← store m before nul
    let m ← Autil.toLower m
    let (m, name) ← Autil.trim m 0
    let key ← asString (m.drop name)
    let (m, text) ← Autil.trim m (before + 2)
    let value ← asString (m.drop text)
    some (key, value)

/-- The line is what is in memory from `theline` on. -/
def processLine (theline : Block) (length : ℕ) (delimiter : Char) (props : List (Text × Text)) :
    Option (List (Text × Text)) :=
  if theline.length < length then none
  else
    let pline := theline.take length ++ [nul]
    if pline.head? = some delimiter then some props
    else if length = 0 then none
    else if pline[length - 1]? = some delimiter then some props
    else do
      match ← findDelimiter pline delimiter (length - 2) 0 with
      | none => some props
      | some cursor =>
        let (key, value) ← twoStrings pline cursor
        some (insert key value props)

end Channel

/-! ### What a line gives -/

/-- The text before the first delimiter. -/
def nameOf (l : Text) : Text := l.takeWhile (· ≠ ':')

/-- The text after the first delimiter. -/
def textOf (l : Text) : Text := (l.dropWhile (· ≠ ':')).tail

/-- There is a delimiter where `processLine` looks for one: not at the last
two places, and it does not look at all if there is one at the first or the
last place. -/
def Examined (l : Text) : Prop := l.head? ≠ some ':' ∧ l.getLast? ≠ some ':' ∧ ':' ∈ l.dropLast.dropLast

instance : DecidablePred Examined := fun _ => inferInstanceAs (Decidable (_ ∧ _ ∧ _))

/-- There are only blanks in the name less its last character. -/
def Bare (l : Text) : Prop := ∀ c ∈ (nameOf l).dropLast, Autil.isWhite c = true

instance : DecidablePred Bare := fun _ => inferInstanceAs (Decidable (∀ _ ∈ _, _))

/-- The key that is read: the name goes without its last character. -/
def cutKey (l : Text) : Text := Autil.trimmed ((nameOf l).dropLast.map Char.toLower)

def valueOf (l : Text) : Text := Autil.trimmed (textOf l)

section Lines

open Autil Channel

variable {l : Text}

theorem not_mem_nameOf (l : Text) : ':' ∉ nameOf l := by
  intro h
  simpa using List.mem_takeWhile_imp h

theorem nameOf_append {n : Text} (h : ':' ∉ n) (t : Text) : nameOf (n ++ ':' :: t) = n :=
  Pieces.takeWhile_append_cons h t

theorem eq_append_of_mem (h : ':' ∈ l) : l = nameOf l ++ ':' :: textOf l := by
  obtain ⟨n, t, rfl, hn⟩ := List.eq_append_cons_of_mem h
  rw [nameOf_append hn, textOf, Pieces.dropWhile_append_cons hn, List.tail_cons]

theorem isWhite_toLower (c : Char) : isWhite c.toLower = isWhite c := by
  have h := toNat_toLower c
  have hs : (' ' : Char).toNat = 32 := rfl
  unfold isWhite
  rw [decide_eq_decide]
  constructor
  · intro he
    rw [he, hs] at h
    refine char_ext ?_
    split at h <;> omega
  · rintro rfl
    rfl

theorem nul_not_mem_toLower (h : nul ∉ l) : nul ∉ l.map Char.toLower := by
  intro hm
  obtain ⟨c, hc, he⟩ := List.mem_map.mp hm
  have hlow := toNat_toLower c
  have hz : nul.toNat = 0 := rfl
  rw [he, hz] at hlow
  have hcz : c = nul := by
    refine char_ext ?_
    split at hlow <;> omega
  exact h (hcz ▸ hc)

/-- The delimiter found is the first one. -/
theorem findDelimiter_eq (d : Char) : ∀ (a pre post : Block),
    findDelimiter (pre ++ (a ++ post)) d a.length pre.length =
      some (if d ∈ a then some (pre.length + (a.takeWhile (· ≠ d)).length) else none)
  | [], _, _ => rfl
  | c :: a, pre, post => by
    have hget : (pre ++ (c :: a ++ post))[pre.length]? = some c := by simp
    rw [List.length_cons, findDelimiter, hget]
    show (if c = d then _ else _) = _
    by_cases hc : c = d
    · subst hc
      simp
    · have ih := findDelimiter_eq d a (pre ++ [c]) post
      rw [List.length_append, List.length_singleton, List.append_assoc, List.singleton_append] at ih
      rw [if_neg hc, List.cons_append, ih]
      have hm : d ∈ c :: a ↔ d ∈ a := by simp [Ne.symm hc]
      have htake : (c :: a).takeWhile (· ≠ d) = c :: a.takeWhile (· ≠ d) := by simp [hc]
      rw [htake, List.length_cons, Nat.add_assoc, Nat.add_comm 1]
      simp only [hm]

/-- **The two strings**: the name is cut, and it must have something left. -/
theorem twoStrings_eq {n t : Text} (c : Char) (hn : nul ∉ n) (ht : nul ∉ t) :
    twoStrings (n ++ c :: ':' :: (t ++ [nul])) (n.length + 1) =
      if ∀ c ∈ n, isWhite c = true then none else some (trimmed (n.map Char.toLower), trimmed t) := by
  rw [twoStrings, store_append, Option.bind_eq_bind, Option.bind_some, toLower_eq _ hn, Option.bind_some]
  have hwhite : (∀ c ∈ n.map Char.toLower, isWhite c = true) ↔ ∀ c ∈ n, isWhite c = true := by
    simp [isWhite_toLower]
  by_cases hb : ∀ c ∈ n, isWhite c = true
  · rw [if_pos hb, trim_of_blank _ (hwhite.mpr hb)]
    rfl
  · rw [if_neg hb]
    have hne : trimmed (n.map Char.toLower) ≠ [] := by
      rw [Ne, trimmed, strip_eq_nil_iff, hwhite]
      exact hb
    obtain ⟨x', name, htrim, hlen, hkey⟩ := trim_eq (':' :: (t ++ [nul])) [] (nul_not_mem_toLower hn) (Or.inl hne)
    rw [List.nil_append, List.length_nil, List.nil_append] at htrim
    rw [List.nil_append] at hkey
    obtain ⟨t', text, htrim', -, hvalue⟩ :=
      trim_eq [] (x' ++ [nul] ++ [':']) ht (Or.inr ⟨x' ++ [nul], ':', rfl, rfl⟩)
    have hm : x' ++ nul :: ':' :: (t ++ [nul]) = x' ++ [nul] ++ [':'] ++ (t ++ nul :: []) := by
      simp
    have hcursor : n.length + 2 = (x' ++ [nul] ++ [':']).length := by
      simp [hlen]
    rw [htrim]
    show ((asString _).bind fun key => (Autil.trim (x' ++ nul :: ':' :: (t ++ [nul])) (n.length + 2)).bind _) = _
    rw [hkey, Option.bind_some, hm, hcursor, htrim']
    show (asString _).bind _ = _
    rw [hvalue]
    rfl

theorem findDelimiter_line (l : Text) : findDelimiter (l ++ [nul]) ':' (l.length - 2) 0 =
    some (if ':' ∈ l.dropLast.dropLast then some (nameOf l).length else none) := by
  obtain ⟨b, hb⟩ : ∃ b, l.dropLast.dropLast ++ b = l := (List.dropLast_prefix _).trans (List.dropLast_prefix l)
  have h := findDelimiter_eq ':' l.dropLast.dropLast [] (b ++ [nul])
  rw [List.nil_append, ← List.append_assoc, hb, List.length_dropLast, List.length_dropLast, Nat.sub_sub] at h
  rw [List.length_nil, Nat.zero_add] at h
  rw [h]
  by_cases hm : ':' ∈ l.dropLast.dropLast
  · have hname : nameOf l = nameOf l.dropLast.dropLast := by
      conv_lhs => rw [← hb, eq_append_of_mem hm, List.append_assoc, List.cons_append]
      exact nameOf_append (not_mem_nameOf _) _
    rw [if_pos hm, if_pos hm, hname, nameOf]
  · rw [if_neg hm, if_neg hm]

/-- The name of an examined line has a last character. -/
theorem Examined.exists_name (h : Examined l) : ∃ n c, nameOf l = n ++ [c] ∧ l = n ++ c :: ':' :: textOf l := by
  have hsplit := eq_append_of_mem (List.mem_of_mem_dropLast (List.mem_of_mem_dropLast h.2.2))
  rcases List.eq_nil_or_concat' (nameOf l) with he | ⟨n, c, he⟩
  · rw [he, List.nil_append] at hsplit
    exact absurd (by rw [hsplit]; rfl) h.1
  · refine ⟨n, c, he, ?_⟩
    rwa [he, List.append_assoc, List.singleton_append] at hsplit

theorem twoStrings_line (h : Examined l) (hn : nul ∉ l) : twoStrings (l ++ [nul]) (nameOf l).length =
    if Bare l then none else some (cutKey l, valueOf l) := by
  obtain ⟨n, c, hname, hsplit⟩ := h.exists_name
  have hnn : nul ∉ n := fun hm => hn (hsplit ▸ List.mem_append_left _ hm)
  have hnt : nul ∉ textOf l := by
    intro hm
    refine hn ?_
    rw [hsplit]
    simp [hm]
  have hbare : Bare l ↔ ∀ c ∈ n, isWhite c = true := by rw [Bare, hname, List.dropLast_concat]
  have hkey : cutKey l = trimmed (n.map Char.toLower) := by rw [cutKey, hname, List.dropLast_concat]
  have hm : l ++ [nul] = n ++ c :: ':' :: (textOf l ++ [nul]) := by
    conv_lhs => rw [hsplit]
    simp
  rw [hname, List.length_append, List.length_singleton, hm, twoStrings_eq c hnn hnt, hkey, valueOf]
  simp only [hbare]

/-- **What `processLine` does** with a line. -/
theorem processLine_eq (hl : l ≠ []) (hn : nul ∉ l) (rest : Block) (props : List (Text × Text)) :
    processLine (l ++ rest) l.length ':' props =
      if Examined l then (if Bare l then none else some (insert (cutKey l) (valueOf l) props)) else some props := by
  have hpos := List.length_pos_of_ne_nil hl
  have hlt : ¬ (l ++ rest).length < l.length := by simp
  have hlast : (l ++ [nul])[l.length - 1]? = l.getLast? := by
    rw [List.getElem?_append_left (by omega), List.getLast?_eq_getElem?]
  have hhead : (l ++ [nul]).head? = l.head? := List.head?_append_of_ne_nil _ hl
  rw [processLine, if_neg hlt, List.take_left]
  show (if (l ++ [nul]).head? = some ':' then _ else if l.length = 0 then _ else
    if (l ++ [nul])[l.length - 1]? = some ':' then _ else (findDelimiter (l ++ [nul]) ':' (l.length - 2) 0).bind _) = _
  rw [hhead, hlast, findDelimiter_line, if_neg hpos.ne']
  by_cases h1 : l.head? = some ':'
  · rw [if_pos h1, if_neg fun h : Examined l => h.1 h1]
  by_cases h2 : l.getLast? = some ':'
  · rw [if_neg h1, if_pos h2, if_neg fun h : Examined l => h.2.1 h2]
  rw [if_neg h1, if_neg h2]
  by_cases h3 : ':' ∈ l.dropLast.dropLast
  · have hexam : Examined l := ⟨h1, h2, h3⟩
    rw [if_pos h3, if_pos hexam]
    show (twoStrings (l ++ [nul]) (nameOf l).length).bind _ = _
    rw [twoStrings_line hexam hn]
    by_cases hb : Bare l
    · rw [if_pos hb, if_pos hb]
      rfl
    · rw [if_neg hb, if_neg hb]
      rfl
  · rw [if_neg h3, if_neg fun h : Examined l => h3 h.2.2]
    rfl

end Lines

end Cpp

end Plethora
