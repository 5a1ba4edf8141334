import BenchBox.Parse
import BenchBox.Support.Decimal
import BenchBox.Support.Extremes
import Mathlib.Algebra.Order.BigOperators.Group.List
import Mathlib.Data.List.ReduceOption

/-!
# The summary of a run

`harness_t::run` ends with a row for each run: the mean of the scores and the
ratio of the greatest and the least one.  Both are found by a loop over the
optional results that starts from sentinels.  Scores are exact rationals.
-/

namespace BenchBox

open Decimal Extremes

/-- The variables of the loop over `sub_run_results`. -/
structure SummaryTotals where
  max : ℚ := 0
  min : ℚ := 100000000000000000000
  total : ℚ := 0
  completed : ℕ := 0

/-- One pass of the loop. -/
def SummaryTotals.add (t : SummaryTotals) (val : Option ℚ) : SummaryTotals :=
  match val with
  | some score =>
      { max := Max.max t.max score
        min := Min.min t.min score
        total := t.total + score
        completed := t.completed + 1 }
  | none => t

/-- The loop. -/
def summarize (subRunResults : List (Option ℚ)) : SummaryTotals :=
  subRunResults.foldl SummaryTotals.add {}

/-- `1e-10`. -/
def threshold : ℚ := 1 / 10000000000

/-- What is shown where there is nothing to show. -/
def dash : StringView := "---".toList

/-- `{:.2f}%` of `(max / min - 1.0) * 100.0`, which is infinite if `min` is zero. -/
def percentage (max min : ℚ) : StringView :=
  if min = 0 then "inf%".toList
  else fixed2 ((max / min - 1) * 100) ++ ['%']

/-- `ratio_p_str`. -/
def SummaryTotals.ratioPStr (t : SummaryTotals) : StringView :=
  if t.max ≥ threshold then percentage t.max t.min else dash

/-- `mean_str`. -/
def SummaryTotals.meanStr (t : SummaryTotals) : StringView :=
  if t.total ≥ threshold then fixed2 (t.total / t.completed) else dash

/-! ## Soundness -/

/-- The summary is sound for the scores of the sub-runs that completed. -/
structure SummaryTotals.Sound (t : SummaryTotals) (scores : List ℚ) : Prop where
  ratio : t.ratioPStr ≠ dash → scores ≠ [] ∧
    IsGreatest {s | s ∈ scores} t.max ∧ IsLeast {s | s ∈ scores} t.min ∧
      t.min ≠ 0
  mean : t.meanStr ≠ dash ↔ scores ≠ []
  mean_eq : t.meanStr ≠ dash →
    t.meanStr = fixed2 (scores.sum / scores.length)

/-- The scores for which the summary is sound: none, or scores that do not add up
to less than the threshold, with no zero among them and not all above the
sentinel if one of them reaches the threshold. -/
def SummaryExact (scores : List ℚ) : Prop :=
  scores = [] ∨
    (threshold ≤ scores.sum ∧
      ((∃ s ∈ scores, threshold ≤ s) →
        0 ∉ scores ∧ ∃ s ∈ scores, s ≤ 100000000000000000000))

theorem threshold_pos : 0 < threshold := by
  norm_num [threshold]

theorem percentage_ne_dash (max min : ℚ) : percentage max min ≠ dash := by
  intro h
  have hpercent : '%' ∈ percentage max min := by
    unfold percentage
    split
    · decide
    · exact List.mem_append_right _ List.mem_cons_self
  rw [h] at hpercent
  revert hpercent
  decide

theorem fixed2_ne_dash (x : ℚ) : fixed2 x ≠ dash := by
  intro h
  have hpoint : '.' ∈ fixed2 x :=
    List.mem_append_right _ (point_mem_twoDecimals _)
  rw [h] at hpoint
  revert hpoint
  decide

theorem SummaryTotals.ratioPStr_ne_dash_iff {t : SummaryTotals} :
    t.ratioPStr ≠ dash ↔ threshold ≤ t.max := by
  unfold ratioPStr
  split
  · rename_i hge
    exact iff_of_true (percentage_ne_dash _ _) hge
  · rename_i hlt
    exact iff_of_false (not_not.mpr rfl) hlt

theorem SummaryTotals.meanStr_ne_dash_iff {t : SummaryTotals} :
    t.meanStr ≠ dash ↔ threshold ≤ t.total := by
  unfold meanStr
  split
  · rename_i hge
    exact iff_of_true (fixed2_ne_dash _) hge
  · rename_i hlt
    exact iff_of_false (not_not.mpr rfl) hlt

/-- The loop folds over the scores of the sub-runs that completed. -/
theorem foldl_add_eq (subRunResults : List (Option ℚ)) (t : SummaryTotals) :
    subRunResults.foldl SummaryTotals.add t =
      { max := subRunResults.reduceOption.foldl Max.max t.max
        min := subRunResults.reduceOption.foldl Min.min t.min
        total := t.total + subRunResults.reduceOption.sum
        completed := t.completed + subRunResults.reduceOption.length } := by
  induction subRunResults generalizing t with
  | nil => simp
  | cons val vals ih =>
      cases val with
      | none => rw [List.foldl_cons, ih, List.reduceOption_cons_of_none]; rfl
      | some score =>
          rw [List.foldl_cons, ih, List.reduceOption_cons_of_some]
          simp [SummaryTotals.add, add_assoc, Nat.add_comm 1]

theorem summarize_eq (subRunResults : List (Option ℚ)) :
    summarize subRunResults =
      { max := subRunResults.reduceOption.foldl Max.max 0
        min := subRunResults.reduceOption.foldl Min.min 100000000000000000000
        total := subRunResults.reduceOption.sum
        completed := subRunResults.reduceOption.length } := by
  rw [summarize, foldl_add_eq, zero_add, Nat.zero_add]

section Scores

variable {scores : List ℚ}

/-- The sentinel 0 is not above a score. -/
theorem isGreatest_max (hscores : ∀ s ∈ scores, 0 ≤ s) (hne : scores ≠ []) :
    IsGreatest {s | s ∈ scores} (scores.foldl Max.max 0) := by
  obtain ⟨s, hs⟩ := List.exists_mem_of_ne_nil scores hne
  exact isGreatest_foldl_max_iff.mpr ⟨s, hs, hscores s hs⟩

theorem threshold_le_max_iff :
    threshold ≤ scores.foldl Max.max 0 ↔ ∃ s ∈ scores, threshold ≤ s := by
  rw [le_foldl_max_iff, or_iff_right threshold_pos.not_ge]

/-- The divisor is zero if a score is. -/
theorem min_eq_zero_iff (hscores : ∀ s ∈ scores, 0 ≤ s) :
    scores.foldl Min.min 100000000000000000000 = 0 ↔ 0 ∈ scores := by
  have hsentinel : (100000000000000000000 : ℚ) ≠ 0 := by norm_num
  rcases foldl_min_eq_or_mem (a := (100000000000000000000 : ℚ))
    (l := scores) with hstart | hmem
  · rw [hstart]
    refine iff_of_false hsentinel ?_
    intro hzero
    have hle : scores.foldl Min.min 100000000000000000000 ≤ 0 :=
      foldl_min_le_iff.mpr (Or.inr ⟨0, hzero, le_refl 0⟩)
    rw [hstart] at hle
    norm_num at hle
  · constructor
    · intro hzero
      rw [← hzero]
      exact hmem
    · intro hzero
      exact le_antisymm
        (foldl_min_le_iff.mpr (Or.inr ⟨0, hzero, le_refl 0⟩))
        (hscores _ hmem)

theorem ne_nil_of_threshold_le_sum (h : threshold ≤ scores.sum) :
    scores ≠ [] := by
  rintro rfl
  exact absurd h threshold_pos.not_ge

end Scores

/-- The summary is sound exactly for the scores of `SummaryExact`. -/
theorem summarize_sound_iff (subRunResults : List (Option ℚ))
    (hscores : ∀ s, some s ∈ subRunResults → 0 ≤ s) :
    (summarize subRunResults).Sound subRunResults.reduceOption ↔
      SummaryExact subRunResults.reduceOption := by
  have hnonneg : ∀ s ∈ subRunResults.reduceOption, 0 ≤ s := by
    intro s hs
    exact hscores s (List.reduceOption_mem_iff.mp hs)
  rw [summarize_eq]
  generalize subRunResults.reduceOption = scores at hnonneg
  constructor
  · rintro ⟨hratio, hmean, -⟩
    rw [SummaryTotals.ratioPStr_ne_dash_iff] at hratio
    rw [SummaryTotals.meanStr_ne_dash_iff] at hmean
    by_cases hempty : scores = []
    · exact Or.inl hempty
    · refine Or.inr ⟨hmean.mpr hempty, ?_⟩
      intro hreached
      obtain ⟨-, -, hleast, hne⟩ := hratio (threshold_le_max_iff.mpr hreached)
      exact ⟨mt (min_eq_zero_iff hnonneg).mpr hne,
        isLeast_foldl_min_iff.mp hleast⟩
  · rintro (rfl | ⟨hsum, hreached⟩)
    · refine ⟨?_, ?_, ?_⟩
      · intro hratio
        rw [SummaryTotals.ratioPStr_ne_dash_iff] at hratio
        exact absurd hratio threshold_pos.not_ge
      · rw [SummaryTotals.meanStr_ne_dash_iff]
        exact iff_of_false threshold_pos.not_ge (not_not.mpr rfl)
      · intro hmean
        rw [SummaryTotals.meanStr_ne_dash_iff] at hmean
        exact absurd hmean threshold_pos.not_ge
    · have hne := ne_nil_of_threshold_le_sum hsum
      refine ⟨?_, ?_, ?_⟩
      · intro hratio
        rw [SummaryTotals.ratioPStr_ne_dash_iff] at hratio
        obtain ⟨hzero, hbelow⟩ := hreached (threshold_le_max_iff.mp hratio)
        exact ⟨hne, isGreatest_max hnonneg hne,
          isLeast_foldl_min_iff.mpr hbelow, mt (min_eq_zero_iff hnonneg).mp hzero⟩
      · rw [SummaryTotals.meanStr_ne_dash_iff]
        exact iff_of_true hsum hne
      · intro _
        exact if_pos hsum

/-- Two scores, and a sub-run without one between them. -/
theorem summarize_sound_iff_one_two :
    (summarize [some 1, none, some 2]).Sound [1, 2] := by
  refine (summarize_sound_iff [some 1, none, some 2] ?_).mpr ?_
  · intro s hs
    simp only [List.mem_cons, Option.some.injEq, reduceCtorEq, List.not_mem_nil,
      or_false, false_or] at hs
    rcases hs with rfl | rfl
    · norm_num
    · norm_num
  · refine Or.inr ⟨?_, fun _ => ⟨?_, 1, ?_, ?_⟩⟩
    · norm_num [threshold]
    · norm_num
    · exact List.mem_cons_self
    · norm_num

/-- A score of zero has no mean, next to another score it makes the ratio
infinite, and scores above the sentinel are not compared with each other. -/
theorem not_sound_zero_and_large :
    ¬(summarize [some 0]).Sound [0] ∧
      (summarize [some 0, some 1]).ratioPStr = "inf%".toList ∧
      ¬(summarize [some 0, some 1]).Sound [0, 1] ∧
      ¬(summarize [some 200000000000000000000]).Sound
        [200000000000000000000] := by
  refine ⟨?_, by decide +kernel, ?_, ?_⟩
  · intro hsound
    have hdash : (summarize [some 0]).meanStr = dash := by decide +kernel
    exact hsound.mean.mpr (List.cons_ne_nil 0 []) hdash
  · intro hsound
    have hshown : (summarize [some 0, some 1]).ratioPStr ≠ dash := by
      decide +kernel
    have hzero : (summarize [some 0, some 1]).min = 0 := by decide +kernel
    exact (hsound.ratio hshown).2.2.2 hzero
  · intro hsound
    have hshown :
        (summarize [some 200000000000000000000]).ratioPStr ≠ dash := by
      decide +kernel
    have hnotMem : (summarize [some 200000000000000000000]).min ∉
        [(200000000000000000000 : ℚ)] := by decide +kernel
    exact hnotMem (hsound.ratio hshown).2.2.1.1

end BenchBox
