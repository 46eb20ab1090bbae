/-
# Paths and their texts

A path is a list of names, its text the names with a separator before each. A
path is above another if its names start the other's. Whether one text starts
another is a weaker question: it does so also where the last name of the first
path only starts a name of the second (`Beside`), as `/srv/www` starts
`/srv/www-private/key`. `text_prefix_iff` says that there is no third case.

Key definitions: `text`, `Valid`, `Beside`.
Key theorems: `text_prefix_iff`, `not_prefix_of_beside`.
-/
import Mathlib.Tactic.Common

namespace Paths

variable {α : Type}

/-- The names with the separator before each. -/
def body (sep : α) (p : List (List α)) : List α := p.flatMap (sep :: ·)

/-- The text of a path; the root's is the separator. -/
def text (sep : α) : List (List α) → List α
  | [] => [sep]
  | n :: p => body sep (n :: p)

/-- Names are not empty and hold no separator. -/
def Valid (sep : α) (p : List (List α)) : Prop := ∀ n ∈ p, n ≠ [] ∧ sep ∉ n

/-- The second path goes on from a sibling of the first whose name is longer. -/
def Beside (w p : List (List α)) : Prop :=
  ∃ dir name other rest, w = dir ++ [name] ∧ p = dir ++ other :: rest ∧ name <+: other ∧ name ≠ other

theorem body_cons (sep : α) (n : List α) (p : List (List α)) : body sep (n :: p) = sep :: (n ++ body sep p) := rfl

/-- What comes after a name starts with a separator. -/
theorem body_cases (sep : α) (p : List (List α)) : body sep p = [] ∨ ∃ t, body sep p = sep :: t := by
  cases p with
  | nil => exact Or.inl rfl
  | cons n p => exact Or.inr ⟨_, body_cons sep n p⟩

variable {sep : α}

/-- A text without separators that starts a name and what follows starts the name. -/
theorem prefix_of_prefix_append : ∀ {a b t : List α}, sep ∉ a → (t = [] ∨ ∃ u, t = sep :: u) → a <+: b ++ t → a <+: b
  | [], _, _, _, _, _ => List.nil_prefix
  | c :: a, [], t, ha, ht, h => by
    rcases ht with rfl | ⟨u, rfl⟩
    · exact h
    · obtain ⟨rfl, -⟩ := List.cons_prefix_cons.mp h
      exact absurd (List.mem_cons_self ..) ha
  | c :: a, d :: b, t, ha, ht, h => by
    obtain ⟨rfl, hab⟩ := List.cons_prefix_cons.mp h
    exact List.cons_prefix_cons.mpr ⟨rfl, prefix_of_prefix_append (fun hm => ha (List.mem_cons_of_mem _ hm)) ht hab⟩

/-- Up to the separators the names are the same. -/
theorem name_eq_of_starts : ∀ {a b s t : List α}, sep ∉ a → sep ∉ b → (t = [] ∨ ∃ u, t = sep :: u) →
    a ++ sep :: s <+: b ++ t → a = b
  | [], [], _, _, _, _, _, _ => rfl
  | [], d :: b, s, t, _, hb, _, h => by
    obtain ⟨rfl, -⟩ := List.cons_prefix_cons.mp h
    exact absurd (List.mem_cons_self ..) hb
  | c :: a, [], s, t, ha, _, ht, h => by
    rcases ht with rfl | ⟨u, rfl⟩
    · exact absurd (List.prefix_nil.mp h) nofun
    · obtain ⟨rfl, -⟩ := List.cons_prefix_cons.mp h
      exact absurd (List.mem_cons_self ..) ha
  | c :: a, d :: b, s, t, ha, hb, ht, h => by
    obtain ⟨rfl, hab⟩ := List.cons_prefix_cons.mp h
    rw [name_eq_of_starts (fun hm => ha (List.mem_cons_of_mem _ hm)) (fun hm => hb (List.mem_cons_of_mem _ hm)) ht hab]

theorem beside_cons {n : List α} {w p : List (List α)} (h : Beside w p) : Beside (n :: w) (n :: p) := by
  obtain ⟨dir, name, other, rest, rfl, rfl, h1, h2⟩ := h
  exact ⟨n :: dir, name, other, rest, rfl, rfl, h1, h2⟩

/-- One name after the other. -/
theorem body_prefix_iff : ∀ {w p : List (List α)}, Valid sep w → Valid sep p →
    (body sep w <+: body sep p ↔ w <+: p ∨ Beside w p)
  | [], p, _, _ => iff_of_true List.nil_prefix (Or.inl List.nil_prefix)
  | a :: w, [], _, _ => by
    refine iff_of_false (fun h => ?_) ?_
    · exact absurd (List.prefix_nil.mp h) nofun
    · rintro (h | ⟨dir, name, other, rest, -, h, -⟩)
      · exact absurd (List.prefix_nil.mp h) nofun
      · exact absurd h.symm (List.append_ne_nil_of_right_ne_nil _ nofun)
  | a :: w, b :: p, hw, hp => by
    have ha := (hw a (List.mem_cons_self ..)).2
    have hb := (hp b (List.mem_cons_self ..)).2
    have hw' : Valid sep w := fun n hn => hw n (List.mem_cons_of_mem _ hn)
    have hp' : Valid sep p := fun n hn => hp n (List.mem_cons_of_mem _ hn)
    rw [body_cons, body_cons, List.cons_prefix_cons]
    by_cases hab : a = b
    · subst hab
      rw [List.prefix_append_right_inj, body_prefix_iff hw' hp', List.cons_prefix_cons]
      constructor
      · rintro ⟨-, h | h⟩
        · exact Or.inl ⟨rfl, h⟩
        · exact Or.inr (beside_cons h)
      · rintro (⟨-, h⟩ | ⟨dir, name, other, rest, h1, h2, h3, h4⟩)
        · exact ⟨rfl, Or.inl h⟩
        · cases dir with
          | nil =>
            -- the names differ and are the same
            obtain ⟨rfl, -⟩ := List.cons.inj h1
            obtain ⟨rfl, -⟩ := List.cons.inj h2
            exact absurd rfl h4
          | cons d dir =>
            obtain ⟨-, rfl⟩ := List.cons.inj h1
            obtain ⟨-, rfl⟩ := List.cons.inj h2
            exact ⟨rfl, Or.inr ⟨dir, name, other, rest, rfl, rfl, h3, h4⟩⟩
    · constructor
      · rintro ⟨-, h⟩
        cases w with
        | nil =>
          have hpre : a <+: b := prefix_of_prefix_append ha (body_cases sep p) (by simpa [body] using h)
          exact Or.inr ⟨[], a, b, p, rfl, rfl, hpre, hab⟩
        | cons n w =>
          rw [body_cons] at h
          exact absurd (name_eq_of_starts ha hb (body_cases sep p) h) hab
      · rintro (h | ⟨dir, name, other, rest, h1, h2, h3, h4⟩)
        · exact absurd (List.cons_prefix_cons.mp h).1 hab
        · cases dir with
          | nil =>
            obtain ⟨rfl, rfl⟩ := List.cons.inj h1
            obtain ⟨rfl, rfl⟩ := List.cons.inj h2
            refine ⟨rfl, ?_⟩
            rw [body, List.flatMap_nil, List.append_nil]
            exact h3.trans (List.prefix_append ..)
          | cons d dir =>
            obtain ⟨rfl, -⟩ := List.cons.inj h1
            obtain ⟨rfl, -⟩ := List.cons.inj h2
            exact absurd rfl hab

/-- **The text of a path starts that of another if it is above it, or beside it.** -/
theorem text_prefix_iff {w p : List (List α)} (hw : Valid sep w) (hp : Valid sep p) :
    text sep w <+: text sep p ↔ w <+: p ∨ Beside w p := by
  cases w with
  | nil =>
    refine iff_of_true ?_ (Or.inl List.nil_prefix)
    cases p with
    | nil => exact List.prefix_rfl
    | cons n p => exact ⟨n ++ body sep p, rfl⟩
  | cons a w =>
    cases p with
    | nil =>
      rw [← body_prefix_iff hw hp]
      constructor
      · intro h
        obtain ⟨-, h⟩ := List.cons_prefix_cons.mp h
        have := (List.append_eq_nil_iff.mp (List.prefix_nil.mp h)).1
        exact absurd this (hw a (List.mem_cons_self ..)).1
      · intro h
        exact absurd (List.prefix_nil.mp h) nofun
    | cons b p => exact body_prefix_iff hw hp

/-- A path beside another is not below it. -/
theorem not_prefix_of_beside {w p : List (List α)} (h : Beside w p) : ¬ w <+: p := by
  obtain ⟨dir, name, other, rest, rfl, rfl, -, hne⟩ := h
  intro hp
  rw [List.prefix_append_right_inj, List.cons_prefix_cons] at hp
  exact hne hp.1

end Paths
