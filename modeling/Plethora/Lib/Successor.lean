/-
# Walks from one element to the next

A server answers a request for an element with the next one it has, or says
there is none, or fails. `IsNext s a r` is what the answer `r` to a request for
`a` should be when the elements are those of the list `s`. `Walks next a l end`
is a client's walk from `a`: it was told the elements `l` one after the other,
and stopped where there was no next one (`none`) or where the server failed.

Key definitions: `IsNext`, `Walks`.
Key theorems: `Walks.answered`, `Walks.nodup`, `exists_walks`,
`IsNext.unique`, `IsNext.filter_eq`, `walks_of_isNext`.
-/
import Mathlib.Tactic.Common
import Mathlib.Order.Defs.LinearOrder
import Mathlib.Data.List.Sort

namespace Successor

variable {α ε : Type} {next : α → Except ε (Option α)}

/-- The walk from `a` is told `l`, and ends as `last` says. -/
inductive Walks (next : α → Except ε (Option α)) : α → List α → Option ε → Prop
  | stop {a : α} (h : next a = .ok none) : Walks next a [] none
  | fail {a : α} {e : ε} (h : next a = .error e) : Walks next a [] (some e)
  | step {a b : α} {l : List α} {last : Option ε} (h : next a = .ok (some b)) (walks : Walks next b l last) :
      Walks next a (b :: l) last

/-- Everything on a walk was the answer to a request of the walk. -/
theorem Walks.answered {a : α} {l : List α} {last : Option ε} (h : Walks next a l last) :
    ∀ b ∈ l, ∃ c ∈ a :: l, next c = .ok (some b) := by
  induction h with
  | stop _ => nofun
  | fail _ => nofun
  | @step a b l last h _ ih =>
    intro d hd
    rcases List.mem_cons.mp hd with rfl | hd
    · exact ⟨a, List.mem_cons_self .., h⟩
    · obtain ⟨c, hc, hn⟩ := ih d hd
      exact ⟨c, List.mem_cons_of_mem _ hc, hn⟩

/-! ### Walks that come down -/

section Ranked

variable {rank : α → ℕ} (hrank : ∀ a b, next a = .ok (some b) → rank b < rank a)
include hrank

/-- A walk whose every answer ranks below its request never comes back. -/
theorem Walks.ranked {a : α} {l : List α} {last : Option ε} (h : Walks next a l last) :
    (a :: l).Pairwise (rank · > rank ·) := by
  induction h with
  | stop _ => exact List.pairwise_singleton _ _
  | fail _ => exact List.pairwise_singleton _ _
  | @step a b l last h _ ih =>
    have hab := hrank a b h
    refine List.pairwise_cons.mpr ⟨fun c hc => ?_, ih⟩
    rcases List.mem_cons.mp hc with rfl | hc
    · exact hab
    · exact ((List.pairwise_cons.mp ih).1 c hc).trans hab

theorem Walks.nodup {a : α} {l : List α} {last : Option ε} (h : Walks next a l last) : (a :: l).Nodup := by
  refine (h.ranked hrank).imp ?_
  rintro b c hbc rfl
  exact lt_irrefl _ hbc

/-- And it ends. -/
theorem exists_walks (a : α) : ∃ l last, Walks next a l last := by
  induction hn : rank a using Nat.strong_induction_on generalizing a with
  | _ n ih =>
    cases hr : next a with
    | error e => exact ⟨[], some e, .fail hr⟩
    | ok r =>
      cases r with
      | none => exact ⟨[], none, .stop hr⟩
      | some b =>
        obtain ⟨l, last, h⟩ := ih (rank b) (hn ▸ hrank a b hr) b rfl
        exact ⟨b :: l, last, .step hr h⟩

end Ranked

/-! ### The next element -/

variable [LinearOrder α]

/-- `r` is the least element of `s` above `a`, `none` if none is above it. -/
def IsNext (s : List α) (a : α) (r : Option α) : Prop :=
  match r with
  | none => ∀ b ∈ s, b ≤ a
  | some b => b ∈ s ∧ a < b ∧ ∀ c ∈ s, a < c → b ≤ c

theorem IsNext.unique {s : List α} {a : α} : ∀ {r r' : Option α}, IsNext s a r → IsNext s a r' → r = r'
  | none, none, _, _ => rfl
  | none, some b, h, ⟨hb, hab, _⟩ => absurd hab (not_lt_of_ge (h b hb))
  | some b, none, ⟨hb, hab, _⟩, h => absurd hab (not_lt_of_ge (h b hb))
  | some b, some c, ⟨hb, hab, hl⟩, ⟨hc, hac, hl'⟩ => congrArg some (le_antisymm (hl c hc hac) (hl' b hb hab))

/-- Between what is below `a` and a sorted rest above it, the next one is the
first of the rest. -/
theorem isNext_append {pre rest : List α} {a : α} (hpre : ∀ b ∈ pre, b ≤ a)
    (hrest : (a :: rest).Pairwise (· < ·)) : IsNext (pre ++ rest) a rest.head? := by
  cases rest with
  | nil =>
    intro b hb
    rw [List.append_nil] at hb
    exact hpre b hb
  | cons c rest =>
    obtain ⟨ha, hc⟩ := List.pairwise_cons.mp hrest
    refine ⟨List.mem_append_right _ (List.mem_cons_self ..), ha c (List.mem_cons_self ..), ?_⟩
    intro d hd had
    rcases List.mem_append.mp hd with hd | hd
    · exact absurd had (not_lt_of_ge (hpre d hd))
    · rcases List.mem_cons.mp hd with rfl | hd
      · exact le_rfl
      · exact le_of_lt ((List.pairwise_cons.mp hc).1 d hd)

/-- From `a`, with `pre` behind it and `rest` ahead of it, a server that always
answers with the next element leads through the rest. -/
theorem walks_rest {s : List α} : ∀ (pre : List α) {rest : List α} {a : α}, s = pre ++ rest →
    (∀ b ∈ pre, b ≤ a) → (a :: rest).Pairwise (· < ·) →
    (∀ c ∈ a :: rest, ∃ r, next c = .ok r ∧ IsNext s c r) → Walks next a rest none
  | pre, [], a, hs, hpre, hsort, hnext => by
    obtain ⟨r, hr, hn⟩ := hnext a (List.mem_cons_self ..)
    rw [hs] at hn
    rw [hn.unique (isNext_append hpre hsort)] at hr
    exact .stop hr
  | pre, b :: rest, a, hs, hpre, hsort, hnext => by
    obtain ⟨r, hr, hn⟩ := hnext a (List.mem_cons_self ..)
    rw [hs] at hn
    rw [hn.unique (isNext_append hpre hsort)] at hr
    obtain ⟨ha, hb⟩ := List.pairwise_cons.mp hsort
    have hab := ha b (List.mem_cons_self ..)
    refine .step hr (walks_rest (pre ++ [b]) ?_ ?_ hb fun c hc => hnext c (List.mem_cons_of_mem _ hc))
    · rw [hs, List.append_assoc, List.singleton_append]
    · intro c hc
      rcases List.mem_append.mp hc with hc | hc
      · exact le_trans (hpre c hc) (le_of_lt hab)
      · exact le_of_eq (List.mem_singleton.mp hc)

/-- **The walk visits every element once, in order, and stops.** -/
theorem walks_of_isNext {s : List α} {a : α} (hsort : (a :: s).Pairwise (· < ·))
    (hnext : ∀ c ∈ a :: s, ∃ r, next c = .ok r ∧ IsNext s c r) : Walks next a s none :=
  walks_rest [] rfl (fun _ h => absurd h List.not_mem_nil) hsort hnext

/-- What is above `a` in a sorted list starts with the next element, and goes on
with what is above that. -/
theorem IsNext.filter_eq {s : List α} {a : α} (hs : s.Pairwise (· < ·)) : ∀ {r : Option α}, IsNext s a r →
    s.filter (a < ·) = match r with
      | none => []
      | some b => b :: s.filter (b < ·)
  | none, h => List.filter_eq_nil_iff.mpr fun b hb => by simpa using h b hb
  | some b, ⟨hb, hab, hleast⟩ => by
    obtain ⟨pre, post, rfl⟩ := List.append_of_mem hb
    obtain ⟨-, hpost, hpre⟩ := List.pairwise_append.mp hs
    have hbelow : ∀ c ∈ pre, c < b := fun c hc => hpre c hc b List.mem_cons_self
    have habove : ∀ c ∈ post, b < c := (List.pairwise_cons.mp hpost).1
    have hnone : pre.filter (a < ·) = [] := by
      refine List.filter_eq_nil_iff.mpr fun c hc hac => ?_
      have hac : a < c := of_decide_eq_true hac
      exact absurd (hleast c (List.mem_append_left _ hc) hac) (not_le_of_gt (hbelow c hc))
    have hnone' : pre.filter (b < ·) = [] :=
      List.filter_eq_nil_iff.mpr fun c hc => by simpa using le_of_lt (hbelow c hc)
    have hall : post.filter (a < ·) = post :=
      List.filter_eq_self.mpr fun c hc => decide_eq_true (hab.trans (habove c hc))
    have hall' : post.filter (b < ·) = post :=
      List.filter_eq_self.mpr fun c hc => decide_eq_true (habove c hc)
    simp [List.filter_append, hab, hnone, hnone', hall, hall']

/-- Fewer elements are above `b` than above an `a` below it. -/
theorem length_above_lt {s : List α} {a b : α} (hb : b ∈ s) (hab : a < b) :
    (s.filter (b < ·)).length < (s.filter (a < ·)).length := by
  have hf : s.filter (b < ·) = (s.filter (a < ·)).filter (b < ·) := by
    rw [List.filter_filter]
    refine List.filter_congr fun c _ => ?_
    by_cases hc : b < c
    · simp [hc, hab.trans hc]
    · simp [hc]
  rw [hf, List.length_filter_lt_length_iff_exists]
  exact ⟨b, List.mem_filter.mpr ⟨hb, by simpa using hab⟩, by simp⟩

end Successor
