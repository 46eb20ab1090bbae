/-
# Types deduced from values

A metric without a type of its own has the one that its value shows. The type
is told by `Double.parseDouble` and the value converted by `Long.valueOf`, which
does not take every text that the first does: the initial value is what the text
denotes exactly if it takes it, `deduced_iff`.

Key definitions: `PropertiesMetricsReader.Deduced`.
Key theorems: `PropertiesMetricsReader.deduced_iff`.
-/
import Plethora.Channel.MetricsFile
import Plethora.Common.Denotation

namespace Plethora

namespace PropertiesMetricsReader

/-- The metric has the value that the text denotes, and the converter of its
type takes the text. -/
structure Deduced (s : Text) (m : Metric) : Prop where
  number : m.metricType = .number → ∃ k, Long.valueOf s = some k ∧ m.initialValue = some (.long k) ∧
    Double.denotes s = some (k.toInt : ℚ)
  boolean : m.metricType = .boolean → ∃ b, m.initialValue = some (.boolean b) ∧
    (b = true ↔ equalsIgnoreCase "true".toList s = true) ∧ (b = false ↔ equalsIgnoreCase "false".toList s = true)
  text : m.metricType = .text → m.initialValue = some (.string s)

/-- The words differ, and neither of them is the digit one. -/
theorem getValidBoolean_of_isBoolean {s : Text} (h : Util.isBoolean (some s) = true) :
    (MetricFactory.getValidBoolean (some s) = true ↔ equalsIgnoreCase "true".toList s = true) ∧
    (MetricFactory.getValidBoolean (some s) = false ↔ equalsIgnoreCase "false".toList s = true) := by
  have hw : s.map Character.fold = "true".toList ∨ s.map Character.fold = "false".toList := by
    rw [Util.isBoolean, Option.any_some, Bool.or_eq_true] at h
    exact h.imp of_decide_eq_true of_decide_eq_true
  simp only [MetricFactory.getValidBoolean, Option.any_some, equalsIgnoreCase]
  rcases hw with hw | hw
  · rw [hw]
    decide
  · rw [hw]
    decide

variable {props : Properties} {name s : Text}

/-- What a value without a type makes of a name. -/
theorem getMetric_shows (hn : name ≠ []) (hvalue : props.getProperty name = some s)
    (htype : known (declaredType props name) = none) :
    ∃ m, getMetric props name = .ok (some m) ∧ m.name = name ∧ m.metricType = shows s ∧
      m.initialValue = MetricFactory.validValue (shows s) (some s) := by
  have htold : theType (declaredType props name) (props.getProperty name) = .ok (shows s) :=
    theType_ok.mpr (Or.inr ⟨htype, s, hvalue, rfl⟩)
  obtain ⟨b, hb⟩ := exists_getMetric_iff.mpr (Or.inr (by rw [hvalue]; rfl) : Typed props name)
  obtain ⟨m, rfl⟩ := Option.isSome_iff_exists.mp (isSome_of_getMetric hn hb)
  have hm := getMetric_described hb
  have hshows : m.metricType = shows s := (Except.ok.inj (htold.symm.trans hm.type)).symm
  refine ⟨m, hb, hm.name, hshows, ?_⟩
  rw [hm.initialValue, hshows, hvalue]

theorem addMetric_shows (metrics : Metrics) (hn : name ≠ []) (hvalue : props.getProperty name = some s)
    (htype : known (declaredType props name) = none) :
    ∃ metrics' m, addMetric props metrics name = .ok metrics' ∧ metrics'.get name = some m ∧
      m.metricType = shows s ∧ m.initialValue = MetricFactory.validValue (shows s) (some s) := by
  obtain ⟨m, hm, hname, hshows, hinit⟩ := getMetric_shows hn hvalue htype
  refine ⟨metrics.addMetric (some m), m, bind_eq_ok.mpr ⟨some m, hm, rfl⟩, ?_, hshows, hinit⟩
  rw [← hname]
  exact Metrics.get_put_self metrics m.name m

/-- **The value is what its text denotes exactly if the converter of numbers
takes every text told for a number.** -/
theorem deduced_iff (metrics : Metrics) (hn : name ≠ []) (hvalue : props.getProperty name = some s)
    (htype : known (declaredType props name) = none) :
    (∃ metrics' m, addMetric props metrics name = .ok metrics' ∧ metrics'.get name = some m ∧ Deduced s m) ↔
      (Double.parses s = true → (Long.valueOf s).isSome = true) := by
  obtain ⟨metrics', m, hadd, hget, hshows, hinit⟩ := addMetric_shows metrics hn hvalue htype
  constructor
  · rintro ⟨metrics'', m', hadd', hget', hm⟩ hp
    rw [hadd] at hadd'
    cases hadd'
    rw [hget] at hget'
    cases hget'
    have hnumber : m.metricType = .number := by rw [hshows, shows, if_pos hp]
    obtain ⟨k, hk, -⟩ := hm.number hnumber
    rw [hk]
    rfl
  · intro hlong
    refine ⟨metrics', m, hadd, hget, ?_, ?_, ?_⟩
    · intro ht
      have hp : Double.parses s = true := by
        by_contra hp
        rw [hshows, shows, if_neg hp] at ht
        split at ht <;> cases ht
      obtain ⟨k, hk⟩ := Option.isSome_iff_exists.mp (hlong hp)
      refine ⟨k, hk, ?_, Double.denotes_of_valueOf hp hk⟩
      rw [hinit, ← hshows, ht]
      simp [MetricFactory.validValue, MetricFactory.getValidNumber, Util.getLong, hk]
    · intro ht
      have hb : Util.isBoolean (some s) = true := by
        by_contra hb
        rw [hshows, shows, if_neg hb] at ht
        split at ht <;> cases ht
      refine ⟨MetricFactory.getValidBoolean (some s), ?_, getValidBoolean_of_isBoolean hb⟩
      rw [hinit, ← hshows, ht]
      rfl
    · intro ht
      rw [hinit, ← hshows, ht]
      rfl

/-- A metric with this value and no attributes. -/
def valueFile (s : Text) : Properties := ⟨[("rate".toList, s)], List.nodup_singleton _⟩

theorem deduced_five :
    ∃ metrics' m, addMetric (valueFile "-5".toList) {} "rate".toList = .ok metrics' ∧
      metrics'.get "rate".toList = some m ∧ Deduced "-5".toList m :=
  (deduced_iff {} (by decide) (by decide) (by decide)).mpr fun _ => by decide

/-- A fraction and a number before a blank are told for numbers, and become 0. -/
theorem not_deduced_fraction :
    (∃ metrics' m, addMetric (valueFile "1.5".toList) {} "rate".toList = .ok metrics' ∧
      metrics'.get "rate".toList = some m ∧ m.metricType = .number ∧ m.initialValue = some (.long 0) ∧
      Double.denotes "1.5".toList = some (3 / 2)) ∧
    (¬ ∃ metrics' m, addMetric (valueFile "1.5".toList) {} "rate".toList = .ok metrics' ∧
      metrics'.get "rate".toList = some m ∧ Deduced "1.5".toList m) ∧
    ¬ ∃ metrics' m, addMetric (valueFile "5 ".toList) {} "rate".toList = .ok metrics' ∧
      metrics'.get "rate".toList = some m ∧ Deduced "5 ".toList m := by
  have hnot : ∀ s, shows s = .number → Long.valueOf s = none → known (declaredType (valueFile s) "rate".toList) = none →
      ¬ ∃ metrics' m, addMetric (valueFile s) {} "rate".toList = .ok metrics' ∧
        metrics'.get "rate".toList = some m ∧ Deduced s m := by
    rintro s hs hlong htype ⟨metrics', m, hadd, hget, hm⟩
    have hvalue : (valueFile s).getProperty "rate".toList = some s := rfl
    obtain ⟨metrics'', m', hadd', hget', hshows, -⟩ := addMetric_shows {} (by decide) hvalue htype
    rw [hadd] at hadd'
    cases hadd'
    rw [hget] at hget'
    cases hget'
    obtain ⟨k, hk, -⟩ := hm.number (hshows.trans hs)
    rw [hlong] at hk
    cases hk
  refine ⟨?_, hnot _ (by decide) (by decide) (by decide), hnot _ (by decide) (by decide) (by decide)⟩
  obtain ⟨metrics', m, hadd, hget, hshows, hinit⟩ :=
    @addMetric_shows (valueFile "1.5".toList) "rate".toList "1.5".toList {} (by decide) (by decide) (by decide)
  refine ⟨metrics', m, hadd, hget, hshows.trans (by decide), hinit.trans (by decide), by decide +kernel⟩

end PropertiesMetricsReader

end Plethora
