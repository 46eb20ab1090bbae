/-
# Full names read back

A full name is put together with dots and taken apart at dots: the module is
what stands between the first two, the metric what comes after the second,
less the empty pieces that `split` leaves off at the end. So the two are read
back exactly where the module has no dot and the metric does not end with one:
`resolves_iff`.

Key theorems: `split_fullName`, `resolves_iff`, `fullName_faithful`.
-/
import Plethora.Common.Metric
import Plethora.Lib.Pieces

namespace Plethora

namespace NameResolver

section FullName

variable {name module metric : Text}

theorem resolveMetricName_eq_some (h : resolveMetricName metric module = some name) :
    metric ≠ [] ∧ module ≠ [] ∧ name = rootElement ++ '.' :: (module ++ '.' :: metric) := by
  unfold resolveMetricName at h
  split at h
  · rename_i hne
    refine ⟨hne.1, hne.2, ?_⟩
    rw [← Option.some.inj h]
    simp
  · cases h

theorem fullName_ne_nil (h : resolveMetricName metric module = some name) : name ≠ [] := by
  obtain ⟨-, -, rfl⟩ := resolveMetricName_eq_some h
  exact fun he => List.cons_ne_nil _ _ (List.append_eq_nil_iff.mp he).2

/-- A full name splits into the root, the pieces of the module and those of
the metric, but for empty ones at the end. -/
theorem split_fullName (h : resolveMetricName metric module = some name) :
    name.split '.' = (rootElement :: (module.splitOn '.' ++ metric.splitOn '.')).rdropWhile (·.isEmpty) := by
  obtain ⟨-, -, rfl⟩ := resolveMetricName_eq_some h
  have hroot : rootElement.splitOn '.' = [rootElement] := List.splitOn_eq_singleton (by decide)
  rw [Text.split_of_mem (by simp), List.splitOn_append_cons_self, List.splitOn_append_cons_self, hroot,
    List.singleton_append]

theorem split_of_not_mem (h : resolveMetricName metric module = some name) (hm : '.' ∉ module) :
    name.split '.' = rootElement :: module :: (metric.splitOn '.').rdropWhile (·.isEmpty) := by
  obtain ⟨-, hne, -⟩ := resolveMetricName_eq_some h
  rw [split_fullName h, List.splitOn_eq_singleton hm, List.singleton_append]
  exact Pieces.rdropWhile_append_cons (l := [rootElement]) hne

theorem validName_fullName (h : resolveMetricName metric module = some name) : validName name = true := by
  have hne := fullName_ne_nil h
  have hroot : (name.split '.')[0]? = some rootElement := by
    have hd := @Pieces.rdropWhile_append_cons _ [] (module.splitOn '.' ++ metric.splitOn '.') rootElement (by decide)
    rw [List.nil_append, List.nil_append] at hd
    rw [split_fullName h, hd]
    rfl
  simp [validName, getElementAt, hne, hroot]

/-- **Reading a full name back.** -/
theorem resolves_iff (h : resolveMetricName metric module = some name) :
    (resolveModule name = some module ∧ resolveMetric name = some metric) ↔
      '.' ∉ module ∧ metric.getLast? ≠ some '.' := by
  obtain ⟨hmetric, hmodule, hname⟩ := resolveMetricName_eq_some h
  have hne := fullName_ne_nil h
  have hvalid := validName_fullName h
  have hmod : resolveModule name = (name.split '.')[1]? := by
    rw [resolveModule, if_pos hvalid, getElementAt, if_neg hne]
  have hmet : resolveMetric name = some ((['.'] : Text).intercalate ((name.split '.').drop 2)) := by
    rw [resolveMetric, if_pos hvalid]
    rfl
  rw [hmod, hmet, ← Pieces.intercalate_dropped_iff hmetric, Option.some.injEq]
  constructor
  · rintro ⟨h1, h2⟩
    have hdot : '.' ∉ module := by
      have hmem := List.mem_of_getElem? h1
      rw [Text.split_of_mem (by simp [hname])] at hmem
      exact Pieces.not_mem_of_mem_splitOn ((List.rdropWhile_prefix _ _).subset hmem)
    rw [split_of_not_mem h hdot] at h2
    exact ⟨hdot, h2⟩
  · rintro ⟨hdot, hback⟩
    rw [split_of_not_mem h hdot]
    exact ⟨rfl, hback⟩

end FullName

/-- **Names are read back and told apart.** A pair is read back exactly if the
module has no dot and the metric does not end with one, and no two metrics of
modules without a dot share a full name. -/
theorem fullName_faithful :
    (∀ module metric, module ≠ [] → metric ≠ [] → ∃ name, resolveMetricName metric module = some name ∧
      (resolveModule name = some module ∧ resolveMetric name = some metric ↔
        '.' ∉ module ∧ metric.getLast? ≠ some '.')) ∧
    ∀ module metric module' metric', module ≠ [] → metric ≠ [] → module' ≠ [] → metric' ≠ [] →
      '.' ∉ module → '.' ∉ module' → resolveMetricName metric module = resolveMetricName metric' module' →
      module = module' ∧ metric = metric' := by
  constructor
  · intro module metric hmodule hmetric
    have h : resolveMetricName metric module = some (rootElement ++ '.' :: module ++ '.' :: metric) :=
      if_pos ⟨hmetric, hmodule⟩
    exact ⟨_, h, resolves_iff h⟩
  · intro module metric module' metric' hmodule hmetric hmodule' hmetric' hdot hdot' h
    unfold resolveMetricName at h
    rw [if_pos ⟨hmetric, hmodule⟩, if_pos ⟨hmetric', hmodule'⟩] at h
    have hname := Option.some.inj h
    rw [List.append_assoc, List.append_assoc] at hname
    -- the first dot ends the module
    exact Pieces.append_cons_inj hdot hdot' (List.tail_eq_of_cons_eq (List.append_cancel_left hname))

theorem fullName_faithful_web :
    (∃ name, resolveMetricName "rate..max".toList "web".toList = some name ∧
      resolveModule name = some "web".toList ∧ resolveMetric name = some "rate..max".toList) ∧
    ¬ resolveMetricName "max".toList "web".toList = resolveMetricName "rate.max".toList "web".toList := by
  constructor
  · obtain ⟨name, h, hiff⟩ := fullName_faithful.1 "web".toList "rate..max".toList (by decide) (by decide)
    exact ⟨name, h, hiff.mpr (by decide)⟩
  · intro h
    have hpair := fullName_faithful.2 _ _ _ _ (by decide) (by decide) (by decide) (by decide) (by decide) (by decide) h
    exact absurd hpair.2 (by decide)

end NameResolver

end Plethora
