/-
# UTF-8 and Latin-1

The same bytes read in two charsets. `Utf8.decode` reads malformed bytes the
way `java.nio` does, a replacement character for each maximal part of a
character that breaks off, and never fails; `latin1` takes every byte for a
character. An ASCII byte is a character of its own in both, and no other byte
has a part in one: a text may be cut at an ASCII byte before it is read or
after (`Utf8.decode_append_cons`).

Key definitions: `Utf8.encode`, `Utf8.decode`, `latin1`.
Key theorems: `Utf8.decode_append_cons`, `Utf8.decode_encode`, `latin1_encode`.
-/
import Mathlib.Tactic.Common

/-- The text of bytes in ISO-8859-1. -/
def latin1 (bytes : List UInt8) : List Char := bytes.map fun b => Char.ofNat b.toNat

theorem latin1_append (a b : List UInt8) : latin1 (a ++ b) = latin1 a ++ latin1 b := List.map_append

theorem latin1_cons (x : UInt8) (b : List UInt8) : latin1 (x :: b) = Char.ofNat x.toNat :: latin1 b := rfl

theorem toNat_ofNat {n : ℕ} (h : n.isValidChar) : (Char.ofNat n).toNat = n := by
  rw [Char.ofNat, dif_pos h]
  rfl

theorem toNat_ofNat_byte (x : UInt8) : (Char.ofNat x.toNat).toNat = x.toNat :=
  toNat_ofNat (Or.inl (by have := x.toNat_lt; omega))

theorem mem_latin1 {x : UInt8} {b : List UInt8} (h : Char.ofNat x.toNat ∈ latin1 b) : x ∈ b := by
  obtain ⟨y, hy, he⟩ := List.mem_map.mp h
  have := congrArg Char.toNat he
  rw [toNat_ofNat_byte, toNat_ofNat_byte] at this
  exact UInt8.toNat_inj.mp this ▸ hy

theorem ofNat_toNat (c : Char) : Char.ofNat c.toNat = c := Char.ofNat_toNat c

namespace Utf8

/-- `getBytes("UTF-8")`. -/
def encode (t : List Char) : List UInt8 := t.flatMap String.utf8EncodeChar

theorem encode_append (s t : List Char) : encode (s ++ t) = encode s ++ encode t := List.flatMap_append

theorem encode_cons (c : Char) (t : List Char) : encode (c :: t) = String.utf8EncodeChar c ++ encode t := rfl

/-- What a first byte stands for and the ranges of the bytes that have to
follow, if a character can start with it. -/
def lead (b : ℕ) : Option (ℕ × List (ℕ × ℕ)) :=
  if b ≤ 0x7F then some (b, [])
  else if 0xC2 ≤ b ∧ b ≤ 0xDF then some (b - 0xC0, [(0x80, 0xBF)])
  else if b = 0xE0 then some (0, [(0xA0, 0xBF), (0x80, 0xBF)])
  else if 0xE1 ≤ b ∧ b ≤ 0xEF then some (b - 0xE0, [(0x80, 0xBF), (0x80, 0xBF)])
  else if b = 0xF0 then some (0, [(0x90, 0xBF), (0x80, 0xBF), (0x80, 0xBF)])
  else if 0xF1 ≤ b ∧ b ≤ 0xF3 then some (b - 0xF0, [(0x80, 0xBF), (0x80, 0xBF), (0x80, 0xBF)])
  else if b = 0xF4 then some (4, [(0x80, 0x8F), (0x80, 0xBF), (0x80, 0xBF)])
  else none

/-- How many bytes follow as they have to. -/
def fits : List (ℕ × ℕ) → List UInt8 → ℕ
  | (lo, hi) :: rs, x :: t => if lo ≤ x.toNat ∧ x.toNat ≤ hi then fits rs t + 1 else 0
  | _, _ => 0

def REPLACEMENT : Char := Char.ofNat 0xFFFD

/-- The character of a code point; a surrogate is none. -/
def scalar (v : ℕ) : Char := if v.isValidChar then Char.ofNat v else REPLACEMENT

/-- Six bits from each byte that follows. -/
def combine (v : ℕ) (bytes : List UInt8) : ℕ := bytes.foldl (fun v x => v * 64 + x.toNat % 64) v

/-- The character that starts with `b`, and how many of the bytes after it
belong to it. -/
def first (b : UInt8) (t : List UInt8) : Char × ℕ :=
  match lead b.toNat with
  | none => (REPLACEMENT, 0)
  | some (v, rs) =>
    (if fits rs t = rs.length then scalar (combine v (t.take (fits rs t))) else REPLACEMENT, fits rs t)

/-- The decoding, with so many bytes of a character yet to skip. -/
def go : List UInt8 → ℕ → List Char
  | [], _ => []
  | _ :: t, k + 1 => go t k
  | b :: t, 0 => (first b t).1 :: go t (first b t).2

/-- `new String(bytes, "UTF-8")`. -/
def decode (bytes : List UInt8) : List Char := go bytes 0

theorem fits_le : ∀ (rs : List (ℕ × ℕ)) (t : List UInt8), fits rs t ≤ t.length
  | [], _ => Nat.zero_le _
  | _ :: _, [] => Nat.zero_le _
  | (lo, hi) :: rs, x :: t => by
    rw [fits, List.length_cons]
    split
    · exact Nat.succ_le_succ (fits_le rs t)
    · exact Nat.zero_le _

/-- A character's bytes are all there. -/
theorem fits_cons_full {lo hi : ℕ} {rs : List (ℕ × ℕ)} : ∀ {t : List UInt8},
    fits ((lo, hi) :: rs) t = rs.length + 1 →
      ∃ x t', t = x :: t' ∧ lo ≤ x.toNat ∧ x.toNat ≤ hi ∧ fits rs t' = rs.length
  | [], h => absurd h (Nat.succ_ne_zero _).symm
  | x :: t, h => by
    rw [fits] at h
    by_cases hx : lo ≤ x.toNat ∧ x.toNat ≤ hi
    · rw [if_pos hx] at h
      exact ⟨x, t, rfl, hx.1, hx.2, Nat.succ.inj h⟩
    · rw [if_neg hx] at h
      exact absurd h (Nat.succ_ne_zero _).symm

/-- Only bytes above the ASCII range follow. -/
theorem le_of_mem_lead {b v : ℕ} {rs : List (ℕ × ℕ)} (h : lead b = some (v, rs)) : ∀ r ∈ rs, 0x80 ≤ r.1 := by
  unfold lead at h
  repeat' split at h
  all_goals
    simp only [Option.some.injEq, Prod.mk.injEq, reduceCtorEq] at h
    try
      obtain ⟨-, rfl⟩ := h
      simp

theorem fits_append_cons {c : UInt8} (hc : c.toNat < 0x80) (b : List UInt8) : ∀ {rs : List (ℕ × ℕ)} (t : List UInt8),
    (∀ r ∈ rs, 0x80 ≤ r.1) → fits rs (t ++ c :: b) = fits rs t
  | [], t, _ => by cases t <;> rfl
  | (lo, hi) :: rs, [], h => by
    have hlo := h _ (List.mem_cons_self ..)
    exact if_neg fun hx => by
      have := hx.1
      simp only at hlo
      omega
  | (lo, hi) :: rs, x :: t, h => by
    rw [List.cons_append, fits, fits, fits_append_cons hc b t fun r hr => h r (List.mem_cons_of_mem _ hr)]

theorem first_append_cons {c : UInt8} (hc : c.toNat < 0x80) (x : UInt8) (t b : List UInt8) :
    first x (t ++ c :: b) = first x t := by
  unfold first
  cases h : lead x.toNat with
  | none => rfl
  | some p =>
    obtain ⟨v, rs⟩ := p
    simp only [fits_append_cons hc b t (le_of_mem_lead h), List.take_append_of_le_length (fits_le rs t)]

theorem first_le (x : UInt8) (t : List UInt8) : (first x t).2 ≤ t.length := by
  unfold first
  split
  · exact Nat.zero_le _
  · exact fits_le _ _

theorem first_ascii {c : UInt8} (hc : c.toNat < 0x80) (t : List UInt8) : first c t = (Char.ofNat c.toNat, 0) := by
  have hv : c.toNat.isValidChar := Or.inl (by omega)
  have hf : fits [] t = 0 := by cases t <;> rfl
  simp only [first, lead, if_pos (show c.toNat ≤ 0x7F by omega), hf, List.length_nil, if_true, List.take_zero,
    combine, List.foldl_nil, scalar, if_pos hv]

theorem go_append_cons {c : UInt8} (hc : c.toNat < 0x80) (b : List UInt8) : ∀ (a : List UInt8) (k : ℕ), k ≤ a.length →
    go (a ++ c :: b) k = go a k ++ Char.ofNat c.toNat :: go b 0
  | [], 0, _ => by
    rw [List.nil_append]
    show (first c b).1 :: go b (first c b).2 = _
    rw [first_ascii hc]
    rfl
  | [], k + 1, h => absurd h (by simp)
  | x :: t, k + 1, h => go_append_cons hc b t k (Nat.le_of_succ_le_succ h)
  | x :: t, 0, _ => by
    rw [List.cons_append, go, first_append_cons hc, go_append_cons hc b t _ (first_le x t), go, List.cons_append]

/-- An ASCII byte cuts the text where it cuts the bytes. -/
theorem decode_append_cons {c : UInt8} (hc : c.toNat < 0x80) (a b : List UInt8) :
    decode (a ++ c :: b) = decode a ++ Char.ofNat c.toNat :: decode b := go_append_cons hc b a 0 (Nat.zero_le _)

theorem decode_cons {c : UInt8} (hc : c.toNat < 0x80) (b : List UInt8) :
    decode (c :: b) = Char.ofNat c.toNat :: decode b := decode_append_cons hc [] b

/-! ### Nothing else is ASCII -/

theorem combine_cons (v : ℕ) (x : UInt8) (t : List UInt8) :
    combine v (x :: t) = combine (v * 64 + x.toNat % 64) t := rfl

theorem le_combine {m : ℕ} : ∀ (t : List UInt8) (v : ℕ), m ≤ v → m ≤ combine v t
  | [], _, h => h
  | x :: t, v, h => by
    rw [combine_cons]
    exact le_combine t _ (by omega)

theorem le_scalar {v : ℕ} (h : 0x80 ≤ v) : 0x80 ≤ (scalar v).toNat := by
  unfold scalar
  by_cases hv : v.isValidChar
  · rw [if_pos hv, toNat_ofNat hv]
    exact h
  · rw [if_neg hv]
    decide

/-- Past the ASCII range bytes follow, and there is no shorter form. -/
theorem lead_cases {b v : ℕ} {rs : List (ℕ × ℕ)} (hb : 0x80 ≤ b) (h : lead b = some (v, rs)) :
    ∃ lo hi rs', rs = (lo, hi) :: rs' ∧ 0x80 ≤ lo ∧ hi ≤ 0xBF ∧ (2 ≤ v ∨ rs' ≠ [] ∧ 2 ≤ v * 64 + (lo - 0x80)) := by
  unfold lead at h
  repeat' split at h
  all_goals
    simp only [Option.some.injEq, Prod.mk.injEq, reduceCtorEq] at h
    try
      obtain ⟨rfl, rfl⟩ := h
  · omega
  all_goals
    refine ⟨_, _, _, rfl, by decide, by decide, ?_⟩
    simp
    try omega

theorem le_combine_of_lead {b v : ℕ} {rs : List (ℕ × ℕ)} {t : List UInt8} (hb : 0x80 ≤ b)
    (h : lead b = some (v, rs)) (ht : fits rs t = rs.length) : 0x80 ≤ combine v (t.take rs.length) := by
  obtain ⟨lo, hi, rs', rfl, hlo, hhi, hv⟩ := lead_cases hb h
  obtain ⟨x, t', rfl, hx, hx', ht'⟩ := fits_cons_full ht
  rw [List.length_cons, List.take_succ_cons, combine_cons]
  rcases hv with hv | ⟨hne, hv⟩
  · exact le_combine _ _ (by omega)
  · cases rs' with
    | nil => exact absurd rfl hne
    | cons r rs' =>
      obtain ⟨y, t'', rfl, -, -, -⟩ := fits_cons_full ht'
      rw [List.length_cons, List.take_succ_cons, combine_cons]
      exact le_combine _ _ (by omega)

/-- Only an ASCII byte is read as an ASCII character. -/
theorem le_first {x : UInt8} (hx : 0x80 ≤ x.toNat) (t : List UInt8) : 0x80 ≤ (first x t).1.toNat := by
  unfold first
  cases h : lead x.toNat with
  | none => exact (by decide : 0x80 ≤ REPLACEMENT.toNat)
  | some p =>
    obtain ⟨v, rs⟩ := p
    by_cases hf : fits rs t = rs.length
    · simp only [hf, if_true]
      exact le_scalar (le_combine_of_lead hx h hf)
    · simp only [hf, if_false]
      decide

theorem byte_of_mem_go {d : Char} (hd : d.toNat < 0x80) : ∀ (a : List UInt8) (k : ℕ), d ∈ go a k →
    ∃ x ∈ a, x.toNat = d.toNat
  | [], _, h => by cases h
  | x :: t, k + 1, h => by
    obtain ⟨y, hy, hyd⟩ := byte_of_mem_go hd t k h
    exact ⟨y, List.mem_cons_of_mem _ hy, hyd⟩
  | x :: t, 0, h => by
    rcases List.mem_cons.mp h with h | h
    · refine ⟨x, List.mem_cons_self .., ?_⟩
      have hx : x.toNat < 0x80 := by
        by_contra hx
        have := le_first (Nat.le_of_not_lt hx) t
        rw [← h] at this
        omega
      rw [h, first_ascii hx, toNat_ofNat_byte]
    · obtain ⟨y, hy, hyd⟩ := byte_of_mem_go hd t _ h
      exact ⟨y, List.mem_cons_of_mem _ hy, hyd⟩

theorem byte_of_mem_decode {d : Char} (hd : d.toNat < 0x80) {a : List UInt8} (h : d ∈ decode a) :
    ∃ x ∈ a, x.toNat = d.toNat := byte_of_mem_go hd a 0 h

/-! ### Encoding -/

theorem encodeChar_ascii {c : Char} (hc : c.toNat < 0x80) : String.utf8EncodeChar c = [UInt8.ofNat c.toNat] :=
  if_pos (Nat.le_of_lt_succ hc)

/-- The bytes of any other character are out of the ASCII range. -/
theorem le_of_mem_encodeChar {c : Char} (hc : 0x80 ≤ c.toNat) {x : UInt8} (h : x ∈ String.utf8EncodeChar c) :
    0x80 ≤ x.toNat := by
  have hc' : ¬ c.val.toNat ≤ 0x7f := Nat.not_le_of_lt hc
  unfold String.utf8EncodeChar at h
  simp only [hc', if_false] at h
  repeat' split at h
  all_goals
    simp only [List.mem_cons, List.not_mem_nil, or_false] at h
    rcases h with rfl | rfl | rfl | rfl
    all_goals
      simp only [UInt8.toNat_ofNat']
      omega

/-- A text of ASCII characters reads the same in both charsets. -/
theorem latin1_encode : ∀ {t : List Char}, (∀ c ∈ t, c.toNat < 0x80) → latin1 (encode t) = t
  | [], _ => rfl
  | c :: t, h => by
    have hc := h c (List.mem_cons_self ..)
    have hb : (UInt8.ofNat c.toNat).toNat = c.toNat := by
      rw [UInt8.toNat_ofNat']
      omega
    rw [encode_cons, encodeChar_ascii hc, List.singleton_append, latin1_cons, hb, ofNat_toNat,
      latin1_encode fun d hd => h d (List.mem_cons_of_mem _ hd)]

/-- The bytes of an ASCII character are in no other character's encoding. -/
theorem mem_of_mem_latin1_encode {d : Char} (hd : d.toNat < 0x80) : ∀ {t : List Char}, d ∈ latin1 (encode t) → d ∈ t
  | [], h => by cases h
  | c :: t, h => by
    rw [encode_cons, latin1_append] at h
    rcases List.mem_append.mp h with h | h
    · obtain ⟨x, hx, rfl⟩ := List.mem_map.mp h
      rw [toNat_ofNat_byte] at hd
      by_cases hc : c.toNat < 0x80
      · rw [encodeChar_ascii hc, List.mem_singleton] at hx
        subst hx
        rw [UInt8.toNat_ofNat', Nat.mod_eq_of_lt (by omega), ofNat_toNat]
        exact List.mem_cons_self ..
      · have := le_of_mem_encodeChar (Nat.le_of_not_lt hc) hx
        omega
    · exact List.mem_cons_of_mem _ (mem_of_mem_latin1_encode hd h)

/-- A character whose first byte and the bytes that follow are read back. -/
theorem go_char {b : UInt8} {v : ℕ} {rs : List (ℕ × ℕ)} {tl : List UInt8} {c : Char} (s : List UInt8)
    (hl : lead b.toNat = some (v, rs)) (hn : rs.length = tl.length) (hf : fits rs (tl ++ s) = rs.length)
    (hc : combine v tl = c.toNat) : go (b :: tl ++ s) 0 = c :: go s 0 := by
  have hv : c.toNat.isValidChar := c.valid
  have hs : scalar c.toNat = c := by rw [scalar, if_pos hv, ofNat_toNat]
  have h1 : first b (tl ++ s) = (c, tl.length) := by
    unfold first
    simp only [hl, hf, if_true, hn, List.take_left', hc, hs]
  have h2 : ∀ (tl : List UInt8), go (tl ++ s) tl.length = go s 0 := by
    intro tl
    induction tl with
    | nil => rfl
    | cons x tl ih => exact ih
  rw [List.cons_append, go, h1, h2]

/-- A byte that has to follow. -/
theorem fits_ofNat {lo hi n : ℕ} (h : lo ≤ n ∧ n ≤ hi ∧ n < 256) (rs : List (ℕ × ℕ)) (t : List UInt8) :
    fits ((lo, hi) :: rs) (UInt8.ofNat n :: t) = fits rs t + 1 := by
  rw [fits, if_pos]
  rw [UInt8.toNat_ofNat']
  omega

theorem fits_nil (t : List UInt8) : fits [] t = 0 := by cases t <;> rfl

theorem toNat_byte {n : ℕ} (h : n < 256) : (UInt8.ofNat n).toNat = n := by
  rw [UInt8.toNat_ofNat', Nat.mod_eq_of_lt h]

/-- `String.utf8EncodeChar`, by the code point. -/
def bytesOf (n : ℕ) : List UInt8 :=
  if n ≤ 0x7f then [UInt8.ofNat n]
  else if n ≤ 0x7ff then [UInt8.ofNat (n / 64 % 0x20 + 0xc0), UInt8.ofNat (n % 0x40 + 0x80)]
  else if n ≤ 0xffff then
    [UInt8.ofNat (n / 4096 % 0x10 + 0xe0), UInt8.ofNat (n / 64 % 0x40 + 0x80), UInt8.ofNat (n % 0x40 + 0x80)]
  else
    [UInt8.ofNat (n / 262144 % 0x08 + 0xf0), UInt8.ofNat (n / 4096 % 0x40 + 0x80), UInt8.ofNat (n / 64 % 0x40 + 0x80),
      UInt8.ofNat (n % 0x40 + 0x80)]

theorem encodeChar_eq (c : Char) : String.utf8EncodeChar c = bytesOf c.toNat := rfl

theorem toNat_lt (c : Char) : c.toNat < 0x110000 := by
  have hv := c.valid
  simp only [UInt32.isValidChar, Nat.isValidChar] at hv
  have : c.val.toNat = c.toNat := rfl
  omega

theorem lead_two {v : ℕ} (h : 2 ≤ v) (h' : v < 32) : lead (v + 0xC0) = some (v, [(0x80, 0xBF)]) := by
  rw [lead, if_neg (by omega), if_pos (by omega), Nat.add_sub_cancel]

theorem lead_three {v w : ℕ} (h : v < 16) (h0 : v = 0 → 0x20 ≤ w) :
    ∃ lo, lead (v + 0xE0) = some (v, [(lo, 0xBF), (0x80, 0xBF)]) ∧ lo ≤ w + 0x80 := by
  rw [lead, if_neg (by omega), if_neg (by omega)]
  by_cases hv : v = 0
  · subst hv
    exact ⟨0xA0, if_pos rfl, by have := h0 rfl; omega⟩
  · rw [if_neg (by omega), if_pos (by omega), Nat.add_sub_cancel]
    exact ⟨0x80, rfl, by omega⟩

theorem lead_four {v w : ℕ} (h : v ≤ 4) (h0 : v = 0 → 0x10 ≤ w) (h4 : v = 4 → w < 0x10) (hw : w < 0x40) :
    ∃ lo hi, lead (v + 0xF0) = some (v, [(lo, hi), (0x80, 0xBF), (0x80, 0xBF)]) ∧
      lo ≤ w + 0x80 ∧ w + 0x80 ≤ hi := by
  rw [lead, if_neg (by omega), if_neg (by omega), if_neg (by omega), if_neg (by omega)]
  by_cases hv : v = 0
  · subst hv
    exact ⟨0x90, 0xBF, if_pos rfl, by have := h0 rfl; omega, by omega⟩
  rw [if_neg (by omega)]
  by_cases hv4 : v = 4
  · subst hv4
    exact ⟨0x80, 0x8F, rfl, by omega, by have := h4 rfl; omega⟩
  · rw [if_pos (by omega), Nat.add_sub_cancel]
    exact ⟨0x80, 0xBF, rfl, by omega, by omega⟩

/-- The bytes of a character are read back, by the number of them. -/
theorem go_encodeChar (c : Char) (s : List UInt8) : go (String.utf8EncodeChar c ++ s) 0 = c :: go s 0 := by
  have hn := toNat_lt c
  rw [encodeChar_eq]
  unfold bytesOf
  by_cases h1 : c.toNat ≤ 0x7f
  · rw [if_pos h1]
    have hl : lead (UInt8.ofNat c.toNat).toNat = some (c.toNat, []) := by
      rw [toNat_byte (by omega), lead, if_pos h1]
    exact go_char s hl rfl (fits_nil _) rfl
  rw [if_neg h1]
  by_cases h2 : c.toNat ≤ 0x7ff
  · rw [if_pos h2]
    have hl := lead_two (v := c.toNat / 64 % 0x20) (by omega) (by omega)
    rw [← toNat_byte (by omega : c.toNat / 64 % 0x20 + 0xc0 < 256)] at hl
    refine go_char s hl rfl ?_ ?_
    · rw [List.cons_append, fits_ofNat (by omega), fits_nil]
      rfl
    · rw [combine_cons, toNat_byte (by omega), combine, List.foldl_nil]
      omega
  rw [if_neg h2]
  by_cases h3 : c.toNat ≤ 0xffff
  · rw [if_pos h3]
    obtain ⟨lo, hl, hlo⟩ := lead_three (v := c.toNat / 4096 % 0x10) (w := c.toNat / 64 % 0x40) (by omega) (by omega)
    rw [← toNat_byte (by omega : c.toNat / 4096 % 0x10 + 0xe0 < 256)] at hl
    refine go_char s hl rfl ?_ ?_
    · rw [List.cons_append, List.cons_append, fits_ofNat (by omega), fits_ofNat (by omega), fits_nil]
      rfl
    · rw [combine_cons, combine_cons, toNat_byte (by omega), toNat_byte (by omega), combine, List.foldl_nil]
      omega
  · rw [if_neg h3]
    obtain ⟨lo, hi, hl, hlo, hhi⟩ := lead_four (v := c.toNat / 262144 % 0x08) (w := c.toNat / 4096 % 0x40) (by omega)
      (by omega) (by omega) (by omega)
    rw [← toNat_byte (by omega : c.toNat / 262144 % 0x08 + 0xf0 < 256)] at hl
    refine go_char s hl rfl ?_ ?_
    · rw [List.cons_append, List.cons_append, List.cons_append, fits_ofNat (by omega), fits_ofNat (by omega),
        fits_ofNat (by omega), fits_nil]
      rfl
    · rw [combine_cons, combine_cons, combine_cons, toNat_byte (by omega), toNat_byte (by omega),
        toNat_byte (by omega), combine, List.foldl_nil]
      omega

theorem decode_encode : ∀ t : List Char, decode (encode t) = t
  | [] => rfl
  | c :: t => by
    have ih := decode_encode t
    unfold decode at ih ⊢
    rw [encode_cons, go_encodeChar, ih]

theorem encode_injective : Function.Injective encode := Function.LeftInverse.injective decode_encode

end Utf8
