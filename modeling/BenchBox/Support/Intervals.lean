import Mathlib.Algebra.BigOperators.Group.List.Lemmas
import Mathlib.Algebra.BigOperators.Ring.List
import Mathlib.Algebra.Order.Ring.Int
import Mathlib.Data.Int.Notation

/-!
# Intervals between marks

Marks on a line cut an interval into gaps.  The gaps add up to the interval, and
gaps that are rounded down add up to the rounded interval within one unit for
each cut.
-/

namespace Intervals

/-- The distances from each mark to the next one. -/
def gaps : ℤ → List ℤ → List ℤ
  | _, [] => []
  | x, y :: ys => (y - x) :: gaps y ys

@[simp] theorem length_gaps (x : ℤ) (ys : List ℤ) :
    (gaps x ys).length = ys.length := by
  induction ys generalizing x with
  | nil => rfl
  | cons y ys ih => simp [gaps, ih]

theorem sum_gaps (x : ℤ) (ys : List ℤ) :
    (gaps x ys).sum = ys.getLastD x - x := by
  induction ys generalizing x with
  | nil => simp [gaps]
  | cons y ys ih =>
      rw [gaps, List.sum_cons, ih, List.getLastD_cons]
      omega

section Rounding

variable {f : ℤ}

/-- Two parts of an interval lose at most one unit more than the whole. -/
theorem add_ediv_bounds (hf : 0 < f) (x y : ℤ) :
    x / f + y / f ≤ (x + y) / f ∧ (x + y) / f ≤ x / f + y / f + 1 := by
  have hx := Int.emod_add_mul_ediv x f
  have hy := Int.emod_add_mul_ediv y f
  have hxlt := Int.emod_lt_of_pos x hf
  have hylt := Int.emod_lt_of_pos y hf
  have hxpos := Int.emod_nonneg x (Int.ne_of_gt hf)
  have hypos := Int.emod_nonneg y (Int.ne_of_gt hf)
  have hsum : x + y = x % f + y % f + f * (x / f + y / f) := by
    rw [mul_add]
    omega
  rw [hsum, Int.add_mul_ediv_left _ _ (Int.ne_of_gt hf)]
  constructor
  · have hnonneg := Int.ediv_nonneg (add_nonneg hxpos hypos) hf.le
    omega
  · have hlt : (x % f + y % f) / f < 2 := by
      rw [Int.ediv_lt_iff_lt_mul hf]
      omega
    omega

/-- The rounded parts add up to the rounded whole, short of at most one unit for
each part but one. -/
theorem sum_ediv_bounds (hf : 0 < f) (xs : List ℤ) :
    (xs.map (· / f)).sum ≤ xs.sum / f ∧
      xs.sum / f ≤ (xs.map (· / f)).sum + (xs.length - 1 : ℕ) := by
  induction xs with
  | nil => simp
  | cons x xs ih =>
      cases xs with
      | nil => simp
      | cons y ys =>
          have hstep := add_ediv_bounds hf x (y :: ys).sum
          rw [List.map_cons, List.sum_cons, List.sum_cons, List.length_cons]
          have hlength : (y :: ys).length ≠ 0 := by simp
          omega

/-- The same for gaps that are scaled before they are rounded. -/
theorem sum_gaps_ediv_bounds (hf : 0 < f) (u x : ℤ) (ys : List ℤ) :
    ((gaps x ys).map (· * u / f)).sum ≤ (ys.getLastD x - x) * u / f ∧
      (ys.getLastD x - x) * u / f ≤
        ((gaps x ys).map (· * u / f)).sum + (ys.length - 1 : ℕ) := by
  have hbounds := sum_ediv_bounds hf ((gaps x ys).map (· * u))
  have hwhole : ((gaps x ys).map (· * u)).sum = (ys.getLastD x - x) * u := by
    rw [List.sum_map_mul_right, List.map_id', sum_gaps]
  rw [hwhole, List.map_map, List.length_map, length_gaps] at hbounds
  exact hbounds

end Rounding

end Intervals
