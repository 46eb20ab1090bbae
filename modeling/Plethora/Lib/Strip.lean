/-
# Stripping a list at both ends

`strip p t` drops the elements with `p` from both ends of `t`. It is what is
left of `t` that neither begins nor ends with such an element (`strip_eq`).
So two ways to strip a list leave the same exactly if neither leaves anything at
its ends that the other one drops (`strip_congr`).

Key definitions: `strip`, `Stripped`.
Key theorems: `strip_eq`, `strip_congr`.
-/
import Mathlib.Data.List.DropRight
import Mathlib.Tactic.Common

namespace Strip

variable {α : Type} {p q : α → Bool}

/-- The list less the elements with `p` at either end. -/
def strip (p : α → Bool) (t : List α) : List α := (t.dropWhile p).rdropWhile p

/-- The list neither begins nor ends with an element of `p`. -/
structure Stripped (p : α → Bool) (t : List α) : Prop where
  head : ∀ c ∈ t.head?, p c = false
  last : ∀ c ∈ t.getLast?, p c = false

theorem Stripped.reverse {t : List α} (h : Stripped p t) : Stripped p t.reverse where
  head c hc := h.last c (by rwa [List.head?_reverse] at hc)
  last c hc := h.head c (by rwa [List.getLast?_reverse] at hc)

theorem strip_spec (p : α → Bool) (t : List α) :
    ∃ l r, t = l ++ (strip p t ++ r) ∧ (∀ c ∈ l, p c = true) ∧ ∀ c ∈ r, p c = true := by
  refine ⟨t.takeWhile p, (t.dropWhile p).rtakeWhile p, ?_, fun c hc => List.mem_takeWhile_imp hc,
    fun c hc => List.mem_rtakeWhile_imp hc⟩
  rw [strip, List.rdropWhile_append_rtakeWhile, List.takeWhile_append_dropWhile]

theorem mem_of_mem_strip {t : List α} {c : α} (h : c ∈ strip p t) : c ∈ t := by
  obtain ⟨l, r, ht, -, -⟩ := strip_spec p t
  rw [ht]
  exact List.mem_append_right _ (List.mem_append_left _ h)

theorem length_strip_le (p : α → Bool) (t : List α) : (strip p t).length ≤ t.length :=
  ((List.rdropWhile_prefix p _).length_le).trans (List.dropWhile_sublist p).length_le

theorem strip_eq_nil_iff {t : List α} : strip p t = [] ↔ ∀ c ∈ t, p c = true := by
  constructor
  · intro h c hc
    obtain ⟨l, r, ht, hl, hr⟩ := strip_spec p t
    rw [ht, h, List.nil_append] at hc
    exact (List.mem_append.mp hc).elim (hl c) (hr c)
  · intro h
    rw [strip, List.dropWhile_eq_nil_iff.mpr h]
    rfl

/-- What is left begins as the list does without its beginning. -/
theorem head?_strip {t : List α} (h : strip p t ≠ []) : (strip p t).head? = (t.dropWhile p).head? := by
  obtain ⟨s, hs⟩ := List.rdropWhile_prefix p (t.dropWhile p)
  rw [← hs]
  show _ = (strip p t ++ s).head?
  cases hm : strip p t with
  | nil => exact absurd hm h
  | cons c m => rfl

theorem stripped_strip (p : α → Bool) (t : List α) : Stripped p (strip p t) where
  head c hc := by
    have hne : strip p t ≠ [] := by
      rintro he
      rw [he] at hc
      cases hc
    rw [head?_strip hne] at hc
    have hn := List.head?_dropWhile_not p t
    rw [Option.mem_def.mp hc] at hn
    simpa using hn
  last c hc := by
    have hne : strip p t ≠ [] := by
      rintro he
      rw [he] at hc
      cases hc
    have hn := List.rdropWhile_last_not p (t.dropWhile p) hne
    have hlast := List.getLast?_eq_getLast_of_ne_nil hne
    rw [Option.mem_def.mp hc] at hlast
    rw [Option.some.inj hlast]
    exact Bool.eq_false_iff.mpr hn

/-- **What stripping leaves**, however the rest is cut off. -/
theorem strip_eq {l m r : List α} (hl : ∀ c ∈ l, p c = true) (hr : ∀ c ∈ r, p c = true) (hm : Stripped p m) :
    strip p (l ++ (m ++ r)) = m := by
  unfold strip
  rw [List.dropWhile_append_of_pos hl]
  cases m with
  | nil =>
    rw [List.nil_append, List.dropWhile_eq_nil_iff.mpr hr]
    rfl
  | cons c m =>
    have hc : p c = false := hm.head c rfl
    rw [List.cons_append, List.dropWhile_cons_of_neg (by rw [hc]; exact Bool.false_ne_true), ← List.cons_append,
      List.rdropWhile, List.reverse_append, List.dropWhile_append_of_pos (by simpa using hr)]
    have hself : (c :: m).rdropWhile p = c :: m := by
      rw [List.rdropWhile_eq_self_iff]
      intro hne hp
      have hlast := hm.last _ (List.getLast?_eq_getLast_of_ne_nil hne)
      rw [hp] at hlast
      cases hlast
    exact hself

theorem strip_reverse (p : α → Bool) (t : List α) : strip p t.reverse = (strip p t).reverse := by
  obtain ⟨l, r, ht, hl, hr⟩ := strip_spec p t
  have hrev : t.reverse = r.reverse ++ ((strip p t).reverse ++ l.reverse) := by
    conv_lhs => rw [ht]
    simp
  rw [hrev]
  exact strip_eq (by simpa using hr) (by simpa using hl) (stripped_strip p t).reverse

/-- What one way to strip drops at the beginning the other one drops too, if
it leaves nothing there for the first. -/
theorem drops_of_stripped {l s : List α} (hl : ∀ c ∈ l, p c = true) (hne : strip q (l ++ s) ≠ [])
    (h : Stripped p (strip q (l ++ s))) : ∀ c ∈ l, q c = true := by
  rw [← List.dropWhile_eq_nil_iff]
  by_contra hd
  obtain ⟨d, m, hm⟩ := List.exists_cons_of_ne_nil hd
  have hmem : d ∈ l := (List.dropWhile_sublist q).subset (by rw [hm]; exact List.mem_cons_self)
  have hhead : (strip q (l ++ s)).head? = some d := by
    rw [head?_strip hne, List.dropWhile_append, hm]
    rfl
  have hp := h.head d hhead
  rw [hl d hmem] at hp
  cases hp

/-- **Two ways to strip meet** where neither leaves what the other drops. -/
theorem strip_congr {t : List α} (h : Stripped p (strip q t)) (h' : Stripped q (strip p t)) : strip p t = strip q t := by
  by_cases hne : strip q t = []
  · -- the other one drops all, so nothing can be left to begin with
    rw [hne]
    cases hp : strip p t with
    | nil => rfl
    | cons c m =>
      have hc : c ∈ strip p t := by
        rw [hp]
        exact List.mem_cons_self
      have hq := h'.head c (by rw [hp]; rfl)
      rw [strip_eq_nil_iff.mp hne c (mem_of_mem_strip hc)] at hq
      cases hq
  obtain ⟨l, r, ht, hl, hr⟩ := strip_spec p t
  have hleft : ∀ c ∈ l, q c = true := by
    rw [ht] at hne h
    exact drops_of_stripped hl hne h
  have hright : ∀ c ∈ r.reverse, q c = true := by
    have htr : t.reverse = r.reverse ++ ((strip p t).reverse ++ l.reverse) := by
      conv_lhs => rw [ht]
      simp
    have hrev := h.reverse
    rw [← strip_reverse, htr] at hrev
    refine drops_of_stripped (by simpa using hr) ?_ hrev
    rw [← htr, strip_reverse]
    simpa using hne
  have hq : strip q (l ++ (strip p t ++ r)) = strip p t :=
    strip_eq hleft (by simpa using hright) h'
  rw [← ht] at hq
  exact hq.symm

end Strip
