import Mathlib.Data.List.Basic
import Mathlib.Order.Bounds.Basic
import Mathlib.Order.MinMax

/-!
# Running extremes

The greatest and the least element of a list, found by a fold that starts from a
sentinel.  The fold finds them unless the sentinel is beyond every element.
-/

namespace Extremes

variable {α : Type u} [LinearOrder α] {a b : α} {l : List α}

theorem le_foldl_max_iff :
    b ≤ l.foldl max a ↔ b ≤ a ∨ ∃ x ∈ l, b ≤ x := by
  induction l generalizing a with
  | nil => simp
  | cons x l ih =>
      rw [List.foldl_cons, ih, le_max_iff, List.exists_mem_cons_iff, or_assoc]

/-- The fold returns the sentinel or an element. -/
theorem foldl_max_eq_or_mem : l.foldl max a = a ∨ l.foldl max a ∈ l := by
  induction l generalizing a with
  | nil => exact Or.inl rfl
  | cons x l ih =>
      rw [List.foldl_cons, List.mem_cons]
      rcases ih (a := max a x) with hstart | hmem
      · rw [hstart]
        rcases max_choice a x with ha | hx
        · exact Or.inl ha
        · exact Or.inr (Or.inl hx)
      · exact Or.inr (Or.inr hmem)

/-- The fold finds the greatest element if one is not below the sentinel. -/
theorem isGreatest_foldl_max_iff :
    IsGreatest {x | x ∈ l} (l.foldl max a) ↔ ∃ x ∈ l, a ≤ x := by
  constructor
  · rintro ⟨hmem, -⟩
    exact ⟨_, hmem, le_foldl_max_iff.mpr (Or.inl (le_refl a))⟩
  · rintro ⟨x, hx, hle⟩
    refine ⟨?_, ?_⟩
    · rcases foldl_max_eq_or_mem (a := a) (l := l) with hstart | hmem
      · -- then the element is the sentinel itself
        have hxle : x ≤ l.foldl max a :=
          le_foldl_max_iff.mpr (Or.inr ⟨x, hx, le_refl x⟩)
        have heq : l.foldl max a = x :=
          le_antisymm (hstart.trans_le hle) hxle
        rw [heq]
        exact hx
      · exact hmem
    · intro y hy
      exact le_foldl_max_iff.mpr (Or.inr ⟨y, hy, le_refl y⟩)

/-- The fold finds the least element if one is not above the sentinel. -/
theorem isLeast_foldl_min_iff :
    IsLeast {x | x ∈ l} (l.foldl min a) ↔ ∃ x ∈ l, x ≤ a :=
  isGreatest_foldl_max_iff (α := αᵒᵈ)

theorem foldl_min_eq_or_mem : l.foldl min a = a ∨ l.foldl min a ∈ l :=
  foldl_max_eq_or_mem (α := αᵒᵈ)

theorem foldl_min_le_iff :
    l.foldl min a ≤ b ↔ a ≤ b ∨ ∃ x ∈ l, x ≤ b :=
  le_foldl_max_iff (α := αᵒᵈ)

end Extremes
