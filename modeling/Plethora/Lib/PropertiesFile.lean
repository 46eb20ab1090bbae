/-
# The format of `java.util.Properties`

A properties file is natural lines, of which a comment or a blank one is
skipped and one that ends in an odd number of backslashes goes on in the next;
the logical lines that come of it are a key, a separator and an element each.
Where a key is set twice the later entry counts.

The results say what a file that is rewritten line by line loads as. A line
that stays, a comment that stays one, and an entry of a key that stays an entry
of that key leave all other keys as they were (`Rewrites`, `gather_rewrites`).
A line's new element is read back if it is plain (`readEntry_append`).

A text is cut into lines the same way before and after it is decoded, if the
charset keeps the terminators apart (`Reads`, `lines_read`).

Key definitions: `lines`, `gather`, `readEntry`, `load`, `loadUnits`, `Rewrites`,
`Reads`.
Key theorems: `lines_join`, `lines_read`, `gather_rewrites`, `readEntry_append`.
-/
import Plethora.Lib.Charset
import Mathlib.Data.List.Forall2

namespace PropertiesFile

/-! ### Natural lines -/

section Lines

variable {α β : Type} [DecidableEq α] [DecidableEq β] (cr lf : α)

/-- The lines of a text, `skipLF` right after a carriage return. -/
def linesFrom : Bool → List α → List (List α)
  | _, [] => []
  | skipLF, c :: rest =>
    if c = lf then if skipLF then linesFrom false rest else [] :: linesFrom false rest
    else if c = cr then [] :: linesFrom true rest
    else
      match linesFrom false rest with
      | [] => [[c]]
      | l :: ls => (c :: l) :: ls

/-- The lines of a text, without the terminators: a line feed, a carriage
return, or the two together. -/
def lines (s : List α) : List (List α) := linesFrom cr lf false s

/-- Every line with a line feed after it. -/
def join (ls : List (List α)) : List α := ls.flatMap (· ++ [lf])

/-- A text without terminators. -/
def Clean (l : List α) : Prop := cr ∉ l ∧ lf ∉ l

variable {cr lf}

omit [DecidableEq α] in
theorem clean_cons {c : α} {l : List α} (h : Clean cr lf (c :: l)) : c ≠ cr ∧ c ≠ lf ∧ Clean cr lf l :=
  ⟨fun he => h.1 (he ▸ List.mem_cons_self ..), fun he => h.2 (he ▸ List.mem_cons_self ..),
    fun hm => h.1 (List.mem_cons_of_mem _ hm), fun hm => h.2 (List.mem_cons_of_mem _ hm)⟩

omit [DecidableEq α] in
theorem clean_append {a b : List α} : Clean cr lf (a ++ b) ↔ Clean cr lf a ∧ Clean cr lf b := by
  simp only [Clean, List.mem_append, not_or]
  tauto

/-- A character of a line goes to the front of the first line. -/
theorem lines_cons {c : α} (hc : c ≠ cr) (hl : c ≠ lf) {s : List α} {l : List α} {ls : List (List α)}
    (h : lines cr lf s = l :: ls) : lines cr lf (c :: s) = (c :: l) :: ls := by
  unfold lines at h ⊢
  rw [linesFrom, if_neg hl, if_neg hc, h]

theorem lines_lf (s : List α) : lines cr lf (lf :: s) = [] :: lines cr lf s := by
  unfold lines
  rw [linesFrom, if_pos rfl]
  rfl

theorem lines_crlf (h : cr ≠ lf) (s : List α) : lines cr lf (cr :: lf :: s) = [] :: lines cr lf s := by
  unfold lines
  rw [linesFrom, if_neg h, if_pos rfl, linesFrom, if_pos rfl, if_pos rfl]

theorem lines_cr (h : cr ≠ lf) {s : List α} (hs : s.head? ≠ some lf) :
    lines cr lf (cr :: s) = [] :: lines cr lf s := by
  unfold lines
  rw [linesFrom, if_neg h, if_pos rfl]
  cases s with
  | nil => rfl
  | cons d r =>
    have hd : d ≠ lf := fun he => hs (he ▸ rfl)
    rw [linesFrom, if_neg hd, linesFrom, if_neg hd]

/-- A line, up to a text that starts with a terminator. -/
theorem lines_append {s : List α} {ls : List (List α)} (h : lines cr lf s = [] :: ls) : ∀ {a : List α},
    Clean cr lf a → lines cr lf (a ++ s) = a :: ls
  | [], _ => h
  | c :: a, hc => by
    obtain ⟨h1, h2, ha⟩ := clean_cons hc
    exact lines_cons h1 h2 (lines_append h ha)

/-- The last line may lack its terminator. -/
theorem lines_last : ∀ {a : List α}, Clean cr lf a → a ≠ [] → lines cr lf a = [a]
  | [], _, h => absurd rfl h
  | [c], hc, _ => by
    obtain ⟨h1, h2, -⟩ := clean_cons hc
    rw [lines, linesFrom, if_neg h2, if_neg h1]
    rfl
  | c :: d :: a, hc, _ => by
    obtain ⟨h1, h2, ha⟩ := clean_cons hc
    exact lines_cons h1 h2 (lines_last ha nofun)

/-- Where the first line ends. -/
theorem first_line (cr lf : α) : ∀ s : List α, Clean cr lf s ∨ ∃ a t, Clean cr lf a ∧
    (s = a ++ lf :: t ∨ s = a ++ cr :: lf :: t ∨ s = a ++ cr :: t ∧ t.head? ≠ some lf)
  | [] => Or.inl ⟨List.not_mem_nil, List.not_mem_nil⟩
  | c :: s => by
    have hnil : Clean cr lf ([] : List α) := ⟨List.not_mem_nil, List.not_mem_nil⟩
    by_cases hl : c = lf
    · subst hl
      exact Or.inr ⟨[], s, hnil, Or.inl rfl⟩
    by_cases hc : c = cr
    · subst hc
      by_cases hs : s.head? = some lf
      · obtain ⟨t, rfl⟩ : ∃ t, s = lf :: t := by
          cases s with
          | nil => cases hs
          | cons d t =>
            cases hs
            exact ⟨t, rfl⟩
        exact Or.inr ⟨[], t, hnil, Or.inr (Or.inl rfl)⟩
      · exact Or.inr ⟨[], s, hnil, Or.inr (Or.inr ⟨rfl, hs⟩)⟩
    have hcons : ∀ {a : List α}, Clean cr lf a → Clean cr lf (c :: a) := fun ha =>
      ⟨fun h => (List.mem_cons.mp h).elim (fun he => hc he.symm) ha.1,
        fun h => (List.mem_cons.mp h).elim (fun he => hl he.symm) ha.2⟩
    rcases first_line cr lf s with h | ⟨a, t, ha, rfl | rfl | ⟨rfl, ht⟩⟩
    · exact Or.inl (hcons h)
    · exact Or.inr ⟨c :: a, t, hcons ha, Or.inl rfl⟩
    · exact Or.inr ⟨c :: a, t, hcons ha, Or.inr (Or.inl rfl)⟩
    · exact Or.inr ⟨c :: a, t, hcons ha, Or.inr (Or.inr ⟨rfl, ht⟩)⟩

/-- Induction on the lines of a text. -/
theorem lines_rec (cr lf : α) {P : List α → Prop} (last : ∀ a, Clean cr lf a → P a)
    (line : ∀ a t, Clean cr lf a → P t → P (a ++ lf :: t))
    (crlf : ∀ a t, Clean cr lf a → P t → P (a ++ cr :: lf :: t))
    (ret : ∀ a t, Clean cr lf a → t.head? ≠ some lf → P t → P (a ++ cr :: t)) (s : List α) : P s :=
  match first_line cr lf s with
  | Or.inl h => last s h
  | Or.inr ⟨a, t, ha, h⟩ => by
    have : t.length < s.length := by
      rcases h with rfl | rfl | ⟨rfl, -⟩
      all_goals
        simp only [List.length_append, List.length_cons]
        omega
    have ih := lines_rec cr lf last line crlf ret t
    rcases h with rfl | rfl | ⟨rfl, ht⟩
    · exact line a t ha ih
    · exact crlf a t ha ih
    · exact ret a t ha ht ih
termination_by s.length

theorem lines_clean (hne : cr ≠ lf) (s : List α) : ∀ l ∈ lines cr lf s, Clean cr lf l := by
  have step : ∀ {a t u : List α}, Clean cr lf a → (∀ l ∈ lines cr lf t, Clean cr lf l) →
      lines cr lf u = [] :: lines cr lf t → ∀ l ∈ lines cr lf (a ++ u), Clean cr lf l := by
    intro a t u ha ht hu l hl
    rw [lines_append hu ha] at hl
    rcases List.mem_cons.mp hl with rfl | hl
    · exact ha
    · exact ht l hl
  refine lines_rec cr lf (P := fun s => ∀ l ∈ lines cr lf s, Clean cr lf l) (fun a ha l hl => ?_) (fun a t ha ih => ?_)
    (fun a t ha ih => ?_) (fun a t ha ht ih => ?_) s
  · by_cases h : a = []
    · subst h
      cases hl
    · rw [lines_last ha h, List.mem_singleton] at hl
      exact hl ▸ ha
  · exact step ha ih (lines_lf t)
  · exact step ha ih (lines_crlf hne t)
  · exact step ha ih (lines_cr hne ht)

/-- Lines written one by one are read back. -/
theorem lines_join : ∀ {ls : List (List α)}, (∀ l ∈ ls, Clean cr lf l) → lines cr lf (join lf ls) = ls
  | [], _ => rfl
  | l :: ls, h => by
    have ih := lines_join fun m hm => h m (List.mem_cons_of_mem _ hm)
    have hj : join lf (l :: ls) = l ++ lf :: join lf ls := by simp [join]
    rw [hj, lines_append (lines_lf _) (h l (List.mem_cons_self ..)), ih]

/-- A decoding that keeps the terminators apart from everything else. -/
structure Reads (cr lf : α) (cr' lf' : β) (f : List α → List β) : Prop where
  cr_cut : ∀ a b, f (a ++ cr :: b) = f a ++ cr' :: f b
  lf_cut : ∀ a b, f (a ++ lf :: b) = f a ++ lf' :: f b
  cr_of_mem : ∀ {a}, cr' ∈ f a → cr ∈ a
  lf_of_mem : ∀ {a}, lf' ∈ f a → lf ∈ a
  eq_nil : ∀ {a}, f a = [] ↔ a = []

omit [DecidableEq α] [DecidableEq β] in
theorem Reads.clean {cr' lf' : β} {f : List α → List β} (hf : Reads cr lf cr' lf' f) {a : List α}
    (h : Clean cr lf a) : Clean cr' lf' (f a) := ⟨fun hm => h.1 (hf.cr_of_mem hm), fun hm => h.2 (hf.lf_of_mem hm)⟩

omit [DecidableEq β] in
/-- What starts with another character than a line feed does so decoded. -/
theorem Reads.head {cr' lf' : β} {f : List α → List β} (hf : Reads cr lf cr' lf' f) (hne : cr' ≠ lf') {t : List α}
    (h : t.head? ≠ some lf) : (f t).head? ≠ some lf' := by
  have nil : f [] = [] := hf.eq_nil.mpr rfl
  have front : ∀ {a : List α} (s : List β), Clean cr lf a → a ≠ [] → (f a ++ s).head? ≠ some lf' := by
    intro a s ha hne' he
    cases hfa : f a with
    | nil => exact hne' (hf.eq_nil.mp hfa)
    | cons d m =>
      rw [hfa] at he
      cases he
      exact (hf.clean ha).2 (hfa ▸ List.mem_cons_self ..)
  rcases first_line cr lf t with ht | ⟨a, s, ha, rfl | rfl | ⟨rfl, -⟩⟩
  · by_cases h0 : t = []
    · subst h0
      rw [nil]
      nofun
    · have := front [] ht h0
      rwa [List.append_nil] at this
  · by_cases h0 : a = []
    · subst h0
      exact absurd rfl h
    · rw [hf.lf_cut]
      exact front _ ha h0
  all_goals
    rw [hf.cr_cut]
    by_cases h0 : a = []
    · subst h0
      rw [nil]
      exact fun he => hne (Option.some.inj he)
    · exact front _ ha h0

/-- **A text has the same lines before and after it is decoded.** -/
theorem lines_read {cr' lf' : β} {f : List α → List β} (hf : Reads cr lf cr' lf' f) (hne : cr ≠ lf) (hne' : cr' ≠ lf')
    (s : List α) : lines cr' lf' (f s) = (lines cr lf s).map f := by
  have nil : f [] = [] := hf.eq_nil.mpr rfl
  refine lines_rec cr lf (P := fun s => lines cr' lf' (f s) = (lines cr lf s).map f) (fun a ha => ?_) (fun a t ha ih => ?_)
    (fun a t ha ih => ?_) (fun a t ha ht ih => ?_) s
  · by_cases h : a = []
    · subst h
      rw [nil]
      rfl
    · rw [lines_last ha h, lines_last (hf.clean ha) (mt hf.eq_nil.mp h)]
      rfl
  · rw [hf.lf_cut, lines_append (lines_lf _) ha, lines_append (lines_lf _) (hf.clean ha), ih]
    rfl
  · have hcut : f (cr :: lf :: t) = cr' :: lf' :: f t := by
      have h1 := hf.cr_cut [] (lf :: t)
      have h2 := hf.lf_cut [] t
      simp only [nil, List.nil_append] at h1 h2
      rw [h1, h2]
    have : f (a ++ cr :: lf :: t) = f a ++ cr' :: lf' :: f t := by
      rw [hf.cr_cut]
      have h2 := hf.lf_cut [] t
      simp only [nil, List.nil_append] at h2
      rw [h2]
    rw [this, lines_append (lines_crlf hne t) ha, lines_append (lines_crlf hne' _) (hf.clean ha), ih]
    rfl
  · rw [hf.cr_cut, lines_append (lines_cr hne ht) ha, lines_append (lines_cr hne' (hf.head hne' ht)) (hf.clean ha), ih]
    rfl

end Lines

/-! ### Logical lines -/

def isBlank (c : Char) : Bool := c = ' ' || c = '\t' || c = '\x0c'

def trimStart (l : List Char) : List Char := l.dropWhile isBlank

/-- A blank line or a comment, where a logical line may start. -/
def skipped (l : List Char) : Bool :=
  match trimStart l with
  | [] => true
  | c :: _ => c = '#' || c = '!'

/-- The line ends in an odd number of backslashes. -/
def continued (l : List Char) : Bool := l.foldl (fun precedingBackslash c => c = '\\' && !precedingBackslash) false

/-- One more natural line after the beginning of a logical line, if there is
one: what is left to go on, and the logical line that ends here. -/
def step (pending : Option (List Char)) (l : List Char) : Option (List Char) × Option (List Char) :=
  if pending.isNone && skipped l then (none, none)
  else
    let t := pending.getD [] ++ trimStart l
    if continued l then (some t.dropLast, none) else (none, some t)

/-- The logical lines of the natural lines; an empty one counts for nothing. -/
def gather : Option (List Char) → List (List Char) → List (List Char)
  | pending, [] => pending.toList.filter (· ≠ [])
  | pending, l :: ls => (step pending l).2.toList.filter (· ≠ []) ++ gather (step pending l).1 ls

/-- What is left to go on after some natural lines. -/
def pendingAfter (pending : Option (List Char)) (ls : List (List Char)) : Option (List Char) :=
  ls.foldl (fun p l => (step p l).1) pending

theorem gather_append : ∀ (ls ms : List (List Char)) {pending : Option (List Char)},
    pendingAfter pending ls = none → gather pending (ls ++ ms) = gather pending ls ++ gather none ms
  | [], ms, pending, h => by
    obtain rfl : pending = none := h
    rfl
  | l :: ls, ms, pending, h => by
    rw [List.cons_append, gather, gather, gather_append ls ms h, List.append_assoc]

theorem continued_append_of_last {l : List Char} {c : Char} (hc : c ≠ '\\') : continued (l ++ [c]) = false := by
  unfold continued
  rw [List.foldl_append, List.foldl_cons, List.foldl_nil, decide_eq_false hc, Bool.false_and]

/-! ### Entries -/

/-- The key as it is spelled, and the rest of the line from the first
separator on that no backslash comes before. -/
def splitKey : Bool → List Char → List Char × List Char
  | _, [] => ([], [])
  | precedingBackslash, c :: s =>
    if (c = '=' || c = ':' || isBlank c) && !precedingBackslash then ([], c :: s)
    else (c :: (splitKey (c = '\\' && !precedingBackslash) s).1, (splitKey (c = '\\' && !precedingBackslash) s).2)

/-- The element: blanks, and one of the signs among them, separate it. -/
def skipSeparator : Bool → List Char → List Char
  | _, [] => []
  | hasSep, c :: s =>
    if isBlank c then skipSeparator hasSep s
    else if (c = '=' || c = ':') && !hasSep then skipSeparator true s
    else c :: s

def hexDigit (c : Char) : Option ℕ :=
  if '0' ≤ c ∧ c ≤ '9' then some (c.toNat - 48)
  else if 'a' ≤ c ∧ c ≤ 'f' then some (c.toNat - 87)
  else if 'A' ≤ c ∧ c ≤ 'F' then some (c.toNat - 55)
  else none

/-- `\uxxxx`, if it is well formed. -/
def unicode (a b c d : Char) : Option ℕ := do
  pure ((((← hexDigit a) * 16 + (← hexDigit b)) * 16 + (← hexDigit c)) * 16 + (← hexDigit d))

/-- The code units a text with escapes stands for. -/
def unescape : List Char → Option (List ℕ)
  | [] => some []
  | '\\' :: 'u' :: a :: b :: c :: d :: s => do pure ((← unicode a b c d) :: (← unescape s))
  | '\\' :: 'u' :: _ => none
  | '\\' :: 't' :: s => do pure (9 :: (← unescape s))
  | '\\' :: 'r' :: s => do pure (13 :: (← unescape s))
  | '\\' :: 'n' :: s => do pure (10 :: (← unescape s))
  | '\\' :: 'f' :: s => do pure (12 :: (← unescape s))
  | '\\' :: c :: s => do pure (c.toNat :: (← unescape s))
  | c :: s => do pure (c.toNat :: (← unescape s))

/-- The text of code units, with a replacement for a surrogate on its own. -/
def ofUnits : List ℕ → List Char
  | [] => []
  | [n] => [Utf8.scalar n]
  | hi :: lo :: s =>
    if (0xD800 ≤ hi ∧ hi < 0xDC00) ∧ 0xDC00 ≤ lo ∧ lo < 0xE000 then
      Utf8.scalar (0x10000 + (hi - 0xD800) * 0x400 + (lo - 0xDC00)) :: ofUnits s
    else Utf8.scalar hi :: ofUnits (lo :: s)

def loadConvert (s : List Char) : Option (List Char) := (unescape s).map ofUnits

/-- The key and the element of a logical line, if no escape is malformed. -/
def readEntry (t : List Char) : Option (List Char × List Char) := do
  let key ← loadConvert (splitKey false t).1
  let element ← loadConvert (skipSeparator false (splitKey false t).2)
  pure (key, element)

/-- `Properties.load`: the entries of a text in order, or an exception for a
malformed escape. -/
def load (s : List Char) : Option (List (List Char × List Char)) := (gather none (lines '\r' '\n' s)).mapM readEntry

/-- The key and the element as code units. -/
def readUnits (t : List Char) : Option (List ℕ × List ℕ) := do
  let key ← unescape (splitKey false t).1
  let element ← unescape (skipSeparator false (splitKey false t).2)
  pure (key, element)

def loadUnits (s : List Char) : Option (List (List ℕ × List ℕ)) := (gather none (lines '\r' '\n' s)).mapM readUnits

theorem readEntry_eq (t : List Char) : readEntry t = (readUnits t).map (Prod.map ofUnits ofUnits) := by
  unfold readEntry readUnits loadConvert
  cases unescape (splitKey false t).1 with
  | none => rfl
  | some key =>
    cases unescape (skipSeparator false (splitKey false t).2) with
    | none => rfl
    | some element => rfl

/-- The entries are the texts of their code units. -/
theorem load_eq (s : List Char) : load s = (loadUnits s).map (List.map (Prod.map ofUnits ofUnits)) := by
  have hmap : ∀ ts : List (List Char), ts.mapM readEntry =
      (ts.mapM readUnits).map (List.map (Prod.map ofUnits ofUnits)) := by
    intro ts
    induction ts with
    | nil => rfl
    | cons t ts ih =>
      rw [List.mapM_cons, List.mapM_cons, ih, readEntry_eq]
      cases readUnits t with
      | none => rfl
      | some e => cases ts.mapM readUnits <;> rfl
  exact hmap _

theorem scalar_toNat (c : Char) : Utf8.scalar c.toNat = c := by
  have hv : c.toNat.isValidChar := c.valid
  rw [Utf8.scalar, if_pos hv, ofNat_toNat]

theorem ofUnits_toNat : ∀ s : List Char, ofUnits (s.map Char.toNat) = s
  | [] => rfl
  | [c] => by rw [List.map_singleton, ofUnits, scalar_toNat]
  | c :: d :: s => by
    have ih := ofUnits_toNat (d :: s)
    have hc := c.valid
    have : c.val.toNat = c.toNat := rfl
    simp only [UInt32.isValidChar, Nat.isValidChar] at hc
    rw [List.map_cons] at ih ⊢
    rw [List.map_cons, ofUnits, if_neg (by omega), scalar_toNat, ih]

theorem unescape_of_not_mem : ∀ {s : List Char}, '\\' ∉ s → unescape s = some (s.map Char.toNat)
  | [], _ => rfl
  | c :: s, h => by
    have hc : c ≠ '\\' := fun he => h (he ▸ List.mem_cons_self ..)
    have ih := unescape_of_not_mem fun hm => h (List.mem_cons_of_mem c hm)
    rw [unescape]
    · rw [ih]
      rfl
    all_goals
      intros
      exact absurd ‹_› hc

/-- A text without backslashes stands for itself. -/
theorem loadConvert_of_not_mem {s : List Char} (h : '\\' ∉ s) : loadConvert s = some s := by
  rw [loadConvert, unescape_of_not_mem h, Option.map_some, ofUnits_toNat]

/-! ### Entries in one line -/

/-- The line is an entry of the key by itself. -/
def Sets (k v : List Char) (l : List Char) : Prop :=
  skipped l = false ∧ continued l = false ∧ readEntry (trimStart l) = some (k, v)

/-- A line that starts so is an entry of the key, its separator is all there,
and its element starts with `q`. -/
def Opens (k q : List Char) (g : List Char) : Prop :=
  skipped g = false ∧ (splitKey false (trimStart g)).2 ≠ [] ∧ loadConvert (splitKey false (trimStart g)).1 = some k ∧
    skipSeparator false (splitKey false (trimStart g)).2 = q

/-- A text that no separator goes on in. -/
def Plain (t : List Char) : Prop := ∀ c ∈ t.head?, isBlank c = false ∧ c ≠ '=' ∧ c ≠ ':'

theorem trimStart_append {t : List Char} : ∀ {g : List Char}, trimStart g ≠ [] → trimStart (g ++ t) = trimStart g ++ t
  | [], h => absurd rfl h
  | c :: g, h => by
    unfold trimStart at h ⊢
    rw [List.cons_append, List.dropWhile_cons, List.dropWhile_cons]
    rw [List.dropWhile_cons] at h
    by_cases hc : isBlank c = true
    · rw [if_pos hc] at h
      rw [if_pos hc, if_pos hc]
      exact trimStart_append h
    · rw [if_neg hc, if_neg hc]
      rfl

theorem trimStart_ne_nil {l : List Char} (h : skipped l = false) : trimStart l ≠ [] := by
  intro he
  rw [skipped, he] at h
  cases h

theorem skipped_append {g : List Char} (h : skipped g = false) (t : List Char) : skipped (g ++ t) = false := by
  have hne := trimStart_ne_nil h
  unfold skipped at h ⊢
  rw [trimStart_append hne]
  cases hg : trimStart g with
  | nil => exact absurd hg hne
  | cons c s =>
    rw [hg] at h
    exact h

theorem splitKey_append {t : List Char} : ∀ {g : List Char} {b : Bool}, (splitKey b g).2 ≠ [] →
    splitKey b (g ++ t) = ((splitKey b g).1, (splitKey b g).2 ++ t)
  | [], _, h => absurd rfl h
  | c :: g, b, h => by
    rw [List.cons_append, splitKey, splitKey]
    rw [splitKey] at h
    split
    · rfl
    · rename_i hc
      rw [if_neg hc] at h
      rw [splitKey_append h]

theorem skipSeparator_append {t : List Char} : ∀ {r : List Char} {b : Bool}, skipSeparator b r ≠ [] ∨ Plain t →
    skipSeparator b (r ++ t) = skipSeparator b r ++ t
  | [], b, h => by
    have ht : Plain t := h.resolve_left fun h => h rfl
    cases t with
    | nil => rfl
    | cons c t =>
      obtain ⟨h1, h2, h3⟩ := ht c rfl
      show skipSeparator b (c :: t) = c :: t
      rw [skipSeparator, h1, decide_eq_false h2, decide_eq_false h3]
      rfl
  | c :: r, b, h => by
    rw [List.cons_append, skipSeparator, skipSeparator]
    rw [skipSeparator] at h
    split
    · rename_i hc
      rw [if_pos hc] at h
      exact skipSeparator_append h
    · rename_i hc
      rw [if_neg hc] at h
      split
      · rename_i hs
        rw [if_pos hs] at h
        exact skipSeparator_append h
      · rfl

/-- An element of plain characters is read as it is. -/
theorem sets_append {k q g t : List Char} (hg : Opens k q g) (ht : Plain t) (hne : t ≠ []) (hb : '\\' ∉ q ++ t) :
    Sets k (q ++ t) (g ++ t) := by
  obtain ⟨hs, hr, hk, hq⟩ := hg
  refine ⟨skipped_append hs t, ?_, ?_⟩
  · have hl : t.getLast hne ≠ '\\' := fun he => hb (List.mem_append_right _ (he ▸ List.getLast_mem hne))
    rw [← List.dropLast_append_getLast hne, ← List.append_assoc]
    exact continued_append_of_last hl
  · rw [trimStart_append (trimStart_ne_nil hs), readEntry, splitKey_append hr, hk,
      skipSeparator_append (Or.inr ht), hq, loadConvert_of_not_mem hb]
    rfl

theorem step_of_sets {k v l : List Char} (h : Sets k v l) : step none l = (none, some (trimStart l)) := by
  unfold step
  simp only [h.1, h.2.1, Option.isNone_none, Bool.and_false, if_neg, Bool.false_eq_true, Option.getD_none,
    List.nil_append, not_false_eq_true]

theorem step_of_skipped {l : List Char} (h : skipped l = true) : step none l = (none, none) := by
  rw [step, h]
  rfl

/-! ### Rewriting a file line by line -/

/-- Line by line, a file and a rewriting of it where only entries of `k`
change, and comments. -/
inductive Rewrites (k : List Char) : Option (List Char) → List (List Char) → List (List Char) → Prop
  | nil (pending) : Rewrites k pending [] []
  | same {pending l ls ls'} : Rewrites k (step pending l).1 ls ls' → Rewrites k pending (l :: ls) (l :: ls')
  | comment {l l' ls ls'} : skipped l = true → skipped l' = true → Rewrites k none ls ls' →
      Rewrites k none (l :: ls) (l' :: ls')
  | entry {v v' l l' ls ls'} : Sets k v l → Sets k v' l' → Rewrites k none ls ls' → Rewrites k none (l :: ls) (l' :: ls')

/-- The logical line stays, or stays an entry of `k`. -/
def Alike (k t t' : List Char) : Prop := t = t' ∨ ∃ v v', readEntry t = some (k, v) ∧ readEntry t' = some (k, v')

theorem forall₂_alike (k : List Char) (ts : List (List Char)) : List.Forall₂ (Alike k) ts ts :=
  List.forall₂_same.mpr fun _ _ => Or.inl rfl

theorem gather_rewrites {k : List Char} {pending : Option (List Char)} {ls ls' : List (List Char)}
    (h : Rewrites k pending ls ls') : List.Forall₂ (Alike k) (gather pending ls) (gather pending ls') := by
  induction h with
  | nil => exact forall₂_alike k _
  | same _ ih => exact List.rel_append (forall₂_alike k _) ih
  | comment hl hl' _ ih =>
    rw [gather, gather, step_of_skipped hl, step_of_skipped hl']
    exact ih
  | entry hl hl' _ ih =>
    have hne := trimStart_ne_nil hl.1
    have hne' := trimStart_ne_nil hl'.1
    rw [gather, gather, step_of_sets hl, step_of_sets hl']
    simp only [Option.toList_some, List.filter_cons, List.filter_nil, hne, hne', ne_eq, not_false_eq_true,
      decide_true, if_true, List.singleton_append]
    exact List.Forall₂.cons (Or.inr ⟨_, _, hl.2.2, hl'.2.2⟩) ih

theorem pendingAfter_rewrites {k : List Char} {pending : Option (List Char)} {ls ls' : List (List Char)}
    (h : Rewrites k pending ls ls') : pendingAfter pending ls' = pendingAfter pending ls := by
  induction h with
  | nil => rfl
  | same _ ih => exact ih
  | comment hl hl' _ ih =>
    unfold pendingAfter at ih ⊢
    rw [List.foldl_cons, List.foldl_cons, step_of_skipped hl, step_of_skipped hl', ih]
  | entry hl hl' _ ih =>
    unfold pendingAfter at ih ⊢
    rw [List.foldl_cons, List.foldl_cons, step_of_sets hl, step_of_sets hl', ih]

/-- The entry stays, or stays one of `k`. -/
def SameKey (k : List Char) (e e' : List Char × List Char) : Prop := e = e' ∨ e.1 = k ∧ e'.1 = k

theorem mapM_alike {k : List Char} {ts ts' : List (List Char)} (h : List.Forall₂ (Alike k) ts ts') :
    ∀ {es}, ts.mapM readEntry = some es → ∃ es', ts'.mapM readEntry = some es' ∧ List.Forall₂ (SameKey k) es es' := by
  induction h with
  | nil =>
    intro es he
    cases he
    exact ⟨[], rfl, List.Forall₂.nil⟩
  | @cons t t' ts ts' ht _ ih =>
    intro es he
    rw [List.mapM_cons] at he
    obtain ⟨e, he1, he⟩ := Option.bind_eq_some_iff.mp he
    obtain ⟨es2, he2, he⟩ := Option.bind_eq_some_iff.mp he
    cases he
    obtain ⟨es', hes', hr⟩ := ih he2
    have : ∃ e', readEntry t' = some e' ∧ SameKey k e e' := by
      rcases ht with rfl | ⟨v, v', hv, hv'⟩
      · exact ⟨e, he1, Or.inl rfl⟩
      · rw [hv] at he1
        cases he1
        exact ⟨_, hv', Or.inr ⟨rfl, rfl⟩⟩
    obtain ⟨e', he', hre⟩ := this
    refine ⟨e' :: es', ?_, List.Forall₂.cons hre hr⟩
    rw [List.mapM_cons, he', hes']
    rfl

theorem keys_sameKey {k : List Char} {es es' : List (List Char × List Char)} (h : List.Forall₂ (SameKey k) es es') :
    es'.map (·.1) = es.map (·.1) := by
  induction h with
  | nil => rfl
  | cons he _ ih =>
    rw [List.map_cons, List.map_cons, ih]
    rcases he with rfl | ⟨h, h'⟩
    · rfl
    · rw [h, h']

theorem lookup_sameKey {k j : List Char} (hj : j ≠ k) {es es' : List (List Char × List Char)}
    (h : List.Forall₂ (SameKey k) es es') : es'.lookup j = es.lookup j := by
  induction h with
  | nil => rfl
  | @cons e e' _ _ he _ ih =>
    obtain ⟨a, v⟩ := e
    obtain ⟨a', v'⟩ := e'
    rw [List.lookup_cons, List.lookup_cons, ih]
    rcases he with he | ⟨rfl, rfl⟩
    · cases he
      rfl
    · rw [beq_eq_false_iff_ne.mpr hj]

/-- **A file whose last entry of `k` is rewritten loads with its new element,
and with the same entries of all other keys.** -/
theorem load_rewritten {k v t s s' l l' : List Char} {before before' after after' : List (List Char)}
    {es : List (List Char × List Char)} (h : load s = some es) (hs : lines '\r' '\n' s = before ++ l :: after)
    (hs' : lines '\r' '\n' s' = before' ++ l' :: after') (hb : Rewrites k none before before')
    (hp : pendingAfter none before = none) (hl : Sets k v l) (hl' : Sets k t l') (ha : Rewrites k none after after')
    (hk : ∀ es, (gather none after).mapM readEntry = some es → k ∉ es.map (·.1)) :
    ∃ es', load s' = some es' ∧ es'.map (·.1) = es.map (·.1) ∧ es'.reverse.lookup k = some t ∧
      ∀ j, j ≠ k → es'.reverse.lookup j = es.reverse.lookup j := by
  have hne := trimStart_ne_nil hl.1
  have hne' := trimStart_ne_nil hl'.1
  have hg : gather none (before ++ l :: after) = gather none before ++ trimStart l :: gather none after := by
    rw [gather_append _ _ hp, gather, step_of_sets hl]
    simp [hne]
  have hg' : gather none (before' ++ l' :: after') = gather none before' ++ trimStart l' :: gather none after' := by
    rw [gather_append _ _ (by rw [pendingAfter_rewrites hb, hp]), gather, step_of_sets hl']
    simp [hne']
  rw [load, hs, hg, List.mapM_append, List.mapM_cons, hl.2.2] at h
  obtain ⟨es1, h1, h⟩ := Option.bind_eq_some_iff.mp h
  obtain ⟨es2, h2, h⟩ := Option.bind_eq_some_iff.mp h
  obtain ⟨_, he, h2⟩ := Option.bind_eq_some_iff.mp h2
  cases he
  obtain ⟨es3, h3, h2⟩ := Option.bind_eq_some_iff.mp h2
  cases h2
  cases h
  obtain ⟨es1', h1', hr1⟩ := mapM_alike (gather_rewrites hb) h1
  obtain ⟨es3', h3', hr3⟩ := mapM_alike (gather_rewrites ha) h3
  have hrel : List.Forall₂ (SameKey k) (es1 ++ (k, v) :: es3) (es1' ++ (k, t) :: es3') :=
    List.rel_append hr1 (List.Forall₂.cons (Or.inr ⟨rfl, rfl⟩) hr3)
  refine ⟨es1' ++ (k, t) :: es3', ?_, keys_sameKey hrel, ?_, fun j hj => ?_⟩
  · rw [load, hs', hg', List.mapM_append, List.mapM_cons, hl'.2.2, h1', h3']
    rfl
  · -- the entries of the lines after it are of other keys
    have hk3 : es3'.reverse.lookup k = none := by
      refine List.lookup_eq_none_iff.mpr fun e he => ?_
      rw [bne_iff_ne]
      rintro rfl
      refine hk es3 h3 ?_
      rw [← keys_sameKey hr3]
      exact List.mem_map_of_mem (List.mem_reverse.mp he)
    rw [List.reverse_append, List.reverse_cons, List.append_assoc, List.lookup_append, hk3, List.singleton_append,
      List.lookup_cons, beq_self_eq_true]
    rfl
  · exact lookup_sameKey hj (List.forall₂_reverse_iff.mpr hrel)

end PropertiesFile
