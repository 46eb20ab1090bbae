/-
# Properties by the start and the end of their names

`Configuration.getValuesStartingAndEndingWith`: the loop tests the start and the
end of each name apart from one another, and cuts out what is between the two. A
name in which they overlap passes both tests and leaves nothing to cut out, so
`substring` ends the loop.

Key definitions: `substring`, `getValuesStartingAndEndingWith`.
Key theorems: `lookup_getValuesStartingAndEndingWith`,
`exists_getValuesStartingAndEndingWith_iff`.
-/
import Plethora.Common.Configuration

namespace Plethora

/-- `text.substring(beginIndex, endIndex)`. -/
def substring (t : Text) (beginIndex endIndex : ℕ) : Except JavaError Text :=
  if beginIndex ≤ endIndex ∧ endIndex ≤ t.length then .ok ((t.take endIndex).drop beginIndex)
  else .error .indexOutOfBounds

/-- `Configuration.getValuesStartingAndEndingWith`, over the names of the table
in the order of its key set, from the values put into the map so far. -/
def getValuesStartingAndEndingWith (T : Properties) (start ending : Text) :
    List Text → List (Text × Option Text) → Except JavaError (List (Text × Option Text))
  | [], result => .ok result
  | name :: keySet, result =>
    if start <+: name ∧ ending <:+ name then
      match substring name start.length (name.length - ending.length) with
      | .error e => .error e
      | .ok rest => getValuesStartingAndEndingWith T start ending keySet (put rest (getProperty T name) result)
    else getValuesStartingAndEndingWith T start ending keySet result

section Affixes

variable {name start ending : Text} (hs : start <+: name) (he : ending <:+ name)
include hs he

/-- What is cut out of a name stands between its start and its end. -/
theorem substring_eq_ok {rest : Text} :
    substring name start.length (name.length - ending.length) = .ok rest ↔ name = start ++ (rest ++ ending) := by
  obtain ⟨before, rfl⟩ := he
  have hlen : (before ++ ending).length - ending.length = before.length := by
    rw [List.length_append]
    omega
  unfold substring
  rw [hlen, List.take_left]
  constructor
  · intro h
    split at h
    · rename_i hle
      have hpre : start <+: before := List.prefix_of_prefix_length_le hs (List.prefix_append _ _) hle.1
      obtain ⟨between, rfl⟩ := hpre
      rw [List.drop_left] at h
      rw [← Except.ok.inj h, List.append_assoc]
    · cases h
  · intro h
    rw [← List.append_assoc] at h
    obtain rfl := List.append_cancel_right h
    rw [if_pos (by simp), List.drop_left]

omit hs in
theorem exists_substring_iff :
    (∃ rest, substring name start.length (name.length - ending.length) = .ok rest) ↔
      start.length + ending.length ≤ name.length := by
  have hle := he.length_le
  unfold substring
  constructor
  · rintro ⟨rest, h⟩
    split at h
    · omega
    · cases h
  · intro h
    exact ⟨_, if_pos ⟨by omega, by omega⟩⟩

end Affixes

variable {T : Properties} {start ending : Text}

/-- A name that starts and ends so is made of the start, what is between, and
the end, and of nothing else. -/
theorem affixed_iff {name rest : Text} : name = start ++ (rest ++ ending) ↔
    (start <+: name ∧ ending <:+ name) ∧ substring name start.length (name.length - ending.length) = .ok rest := by
  constructor
  · rintro rfl
    have hs : start <+: start ++ (rest ++ ending) := List.prefix_append _ _
    have he : ending <:+ start ++ (rest ++ ending) := ⟨start ++ rest, List.append_assoc ..⟩
    exact ⟨⟨hs, he⟩, (substring_eq_ok hs he).mpr rfl⟩
  · rintro ⟨⟨hs, he⟩, h⟩
    exact (substring_eq_ok hs he).mp h

/-- **What the loop leaves.** -/
theorem lookup_getValuesStartingAndEndingWith (w : Text) :
    ∀ {keySet : List Text} {result values : List (Text × Option Text)},
    getValuesStartingAndEndingWith T start ending keySet result = .ok values →
    values.lookup w =
      if start ++ (w ++ ending) ∈ keySet then some (getProperty T (start ++ (w ++ ending))) else result.lookup w
  | [], result, values, h => by
    rw [← Except.ok.inj h, if_neg List.not_mem_nil]
  | name :: keySet, result, values, h => by
    unfold getValuesStartingAndEndingWith at h
    by_cases hname : start <+: name ∧ ending <:+ name
    · rw [if_pos hname] at h
      cases hsub : substring name start.length (name.length - ending.length) with
      | error e =>
        rw [hsub] at h
        cases h
      | ok rest =>
        rw [hsub] at h
        have hcut := affixed_iff.mpr ⟨hname, hsub⟩
        rw [lookup_getValuesStartingAndEndingWith w h, lookup_put]
        by_cases hw : w = rest
        · subst hw
          simp [hcut]
        · have hne : start ++ (w ++ ending) ≠ name := fun he => by
            rw [hcut] at he
            exact hw (List.append_cancel_right (List.append_cancel_left he))
          simp [hne, hw]
    · rw [if_neg hname] at h
      have hne : start ++ (w ++ ending) ≠ name := fun he => hname (affixed_iff.mp he.symm).1
      rw [lookup_getValuesStartingAndEndingWith w h]
      simp [hne]

/-- **The loop comes to its end exactly if start and end overlap in no name.** -/
theorem exists_getValuesStartingAndEndingWith_iff : ∀ {keySet : List Text} {result : List (Text × Option Text)},
    (∃ values, getValuesStartingAndEndingWith T start ending keySet result = .ok values) ↔
      ∀ name ∈ keySet, start <+: name → ending <:+ name → start.length + ending.length ≤ name.length
  | [], result => iff_of_true ⟨result, rfl⟩ fun _ h => absurd h List.not_mem_nil
  | name :: keySet, result => by
    rw [List.forall_mem_cons]
    unfold getValuesStartingAndEndingWith
    by_cases hname : start <+: name ∧ ending <:+ name
    · rw [if_pos hname]
      have hiff := @exists_substring_iff name start ending hname.2
      cases hsub : substring name start.length (name.length - ending.length) with
      | error e =>
        refine iff_of_false (by simp) fun h => ?_
        obtain ⟨rest, hrest⟩ := hiff.mpr (h.1 hname.1 hname.2)
        rw [hsub] at hrest
        cases hrest
      | ok rest =>
        have hlen := hiff.mp ⟨rest, hsub⟩
        exact exists_getValuesStartingAndEndingWith_iff.trans (and_iff_right fun _ _ => hlen).symm
    · rw [if_neg hname]
      exact exists_getValuesStartingAndEndingWith_iff.trans
        (and_iff_right fun hs he => absurd ⟨hs, he⟩ hname).symm

end Plethora
