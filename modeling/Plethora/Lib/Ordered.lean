/-
# Keys in order

`insertKey` puts a key into an ordered list, unless the list has it: what a tree
set and a tree map do. Any order will do that is transitive and tells two keys
apart.

In a list of entries in the order of their keys, the first one that has one of
some keys is the entry of the first of these keys that has one
(`find?_mem_eq_findSome?`).

Key definitions: `insertKey`.
Key theorems: `mem_insertKey`, `length_insertKey_le`, `pairwise_insertKey`, `find?_mem_eq_findSome?`.
-/
import Mathlib.Tactic.Common

namespace Ordered

variable {κ : Type} [DecidableEq κ] (lt : κ → κ → Prop) [DecidableRel lt]

/-- The list with `k` put in its place. -/
def insertKey (k : κ) : List κ → List κ
  | [] => [k]
  | j :: ks => if k = j then j :: ks else if lt k j then k :: j :: ks else j :: insertKey k ks

variable {lt}

theorem mem_insertKey {k x : κ} : ∀ {ks : List κ}, x ∈ insertKey lt k ks ↔ x = k ∨ x ∈ ks
  | [] => by simp [insertKey]
  | j :: ks => by
    unfold insertKey
    by_cases h : k = j
    · subst h
      simp
    · rw [if_neg h]
      by_cases h' : lt k j
      · rw [if_pos h', List.mem_cons]
      · rw [if_neg h', List.mem_cons, mem_insertKey, List.mem_cons]
        tauto

theorem length_insertKey_le (lt : κ → κ → Prop) [DecidableRel lt] (k : κ) : ∀ ks : List κ,
    (insertKey lt k ks).length ≤ ks.length + 1
  | [] => Nat.le_refl _
  | j :: ks => by
    have ih := length_insertKey_le lt k ks
    unfold insertKey
    split
    · exact Nat.le_succ _
    · split
      · exact Nat.le_refl _
      · simpa using ih

/-- **The list stays in order.** -/
theorem pairwise_insertKey (lt : κ → κ → Prop) [DecidableRel lt] (trans : ∀ {a b c : κ}, lt a b → lt b c → lt a c)
    (total : ∀ {a b : κ}, a ≠ b → lt a b ∨ lt b a) (k : κ) :
    ∀ {ks : List κ}, ks.Pairwise lt → (insertKey lt k ks).Pairwise lt
  | [], _ => List.pairwise_singleton _ _
  | j :: ks, hs => by
    obtain ⟨hj, hks⟩ := List.pairwise_cons.mp hs
    unfold insertKey
    by_cases h : k = j
    · rwa [if_pos h]
    · rw [if_neg h]
      by_cases h' : lt k j
      · rw [if_pos h']
        refine List.pairwise_cons.mpr ⟨fun x hx => ?_, hs⟩
        rcases List.mem_cons.mp hx with rfl | hx
        · exact h'
        · exact trans h' (hj x hx)
      · rw [if_neg h']
        refine List.pairwise_cons.mpr ⟨fun x hx => ?_, pairwise_insertKey lt trans total k hks⟩
        rcases mem_insertKey.mp hx with rfl | hx
        · exact (total h).resolve_left h'
        · exact hj x hx

section Entries

variable {κ β : Type} [BEq κ] [LawfulBEq κ]

omit [BEq κ] [LawfulBEq κ] in
theorem findSome?_congr {f g : κ → Option β} : ∀ {keys : List κ}, (∀ k ∈ keys, f k = g k) →
    keys.findSome? f = keys.findSome? g
  | [], _ => rfl
  | k :: keys, h => by
    obtain ⟨hk, hkeys⟩ := List.forall_mem_cons.mp h
    rw [List.findSome?_cons, List.findSome?_cons, hk, findSome?_congr hkeys]

/-- **The first entry with one of some keys**, both in order. -/
theorem find?_mem_eq_findSome? (lt : κ → κ → Prop) (irrefl : ∀ {a : κ}, ¬ lt a a)
    (trans : ∀ {a b c : κ}, lt a b → lt b c → lt a c) {keys : List κ} (hkeys : keys.Pairwise lt) :
    ∀ {m : List (κ × β)}, (m.map Prod.fst).Pairwise lt →
      m.find? (fun e => decide (e.1 ∈ keys)) = keys.findSome? fun k => (m.lookup k).map (k, ·)
  | [], _ => by
    rw [List.find?_nil, eq_comm, List.findSome?_eq_none_iff]
    exact fun k _ => rfl
  | (j, v) :: m, hm => by
    obtain ⟨hj, hm⟩ := List.pairwise_cons.mp hm
    by_cases h : j ∈ keys
    · obtain ⟨before, after, rfl⟩ := List.append_of_mem h
      have hbefore : ∀ k ∈ before, ((j, v) :: m).lookup k = none := by
        intro k hk
        have hkj : lt k j := (List.pairwise_append.mp hkeys).2.2 k hk j List.mem_cons_self
        rw [List.lookup_eq_none_iff]
        intro e he
        rw [bne_iff_ne]
        rintro rfl
        rcases List.mem_cons.mp he with rfl | he
        · exact irrefl hkj
        · exact irrefl (trans hkj (hj _ (List.mem_map_of_mem he)))
      have hnone : before.findSome? (fun k => (((j, v) :: m).lookup k).map (k, ·)) = none := by
        rw [List.findSome?_eq_none_iff]
        intro k hk
        rw [hbefore k hk, Option.map_none]
      rw [List.find?_cons_of_pos (by simp), List.findSome?_append, hnone, Option.none_or,
        List.findSome?_cons_of_isSome (by simp), List.lookup_cons_self, Option.map_some]
    · rw [List.find?_cons_of_neg (by simpa using h), find?_mem_eq_findSome? lt irrefl trans hkeys hm]
      refine findSome?_congr fun k hk => ?_
      have hne : k ≠ j := fun he => h (he ▸ hk)
      rw [List.lookup_cons, beq_eq_false_iff_ne.mpr hne]

end Entries

end Ordered
