import Mathlib.Data.Finset.Card
import Mathlib.Data.List.Destutter
import Mathlib.Data.List.Induction
import Mathlib.Data.List.Sort
import Std.Data.TreeMap.Lemmas

/-!
# Ranks in descending order

Sorting a list in descending order and dropping the repetitions ranks its
elements: the index of an element is the number of distinct larger ones.  The
ranks are kept in an ordered map from the elements to their indices.
-/

namespace Rank

/-! ## Distinct elements in descending order -/

section Descending

variable {α : Type u} [LinearOrder α]

/-- The distinct elements, the greatest first. -/
def descending (xs : List α) : List α :=
  (xs.insertionSort (· ≥ ·)).destutter (· ≠ ·)

/-- The number of distinct elements greater than `a`. -/
def rank (xs : List α) (a : α) : ℕ :=
  (xs.toFinset.filter (a < ·)).card

theorem mem_destutter'_ne_iff {xs : List α} {a b : α} :
    a ∈ xs.destutter' (· ≠ ·) b ↔ a = b ∨ a ∈ xs := by
  induction xs generalizing b with
  | nil => simp
  | cons x xs ih =>
      by_cases hx : b ≠ x
      · rw [List.destutter'_cons_pos _ hx, List.mem_cons, ih, List.mem_cons]
      · rw [List.destutter'_cons_neg _ hx, ih, List.mem_cons]
        rw [not_not] at hx
        subst hx
        simp

@[simp] theorem mem_descending_iff {xs : List α} {a : α} :
    a ∈ descending xs ↔ a ∈ xs := by
  rw [descending, ← List.mem_insertionSort (· ≥ ·) (l := xs)]
  cases xs.insertionSort (· ≥ ·) with
  | nil => simp
  | cons b xs => rw [List.destutter_cons', mem_destutter'_ne_iff, List.mem_cons]

theorem pairwise_descending (xs : List α) :
    (descending xs).Pairwise (· > ·) := by
  have hge : (descending xs).Pairwise (· ≥ ·) :=
    (List.pairwise_insertionSort (· ≥ ·) xs).sublist
      (List.destutter_sublist _ _)
  have hne : (descending xs).IsChain (· ≠ ·) :=
    List.isChain_destutter _ _
  rw [← List.isChain_iff_pairwise] at hge ⊢
  rw [List.isChain_iff_getElem] at hge hne ⊢
  exact fun i hi => (hge i hi).lt_of_ne (hne i hi).symm

theorem nodup_descending (xs : List α) : (descending xs).Nodup :=
  (pairwise_descending xs).imp fun h => ne_of_gt h

/-- In a descending list the index of an element counts the greater ones. -/
theorem idxOf_eq_length_filter {xs : List α} (h : xs.Pairwise (· > ·)) {a : α}
    (ha : a ∈ xs) : xs.idxOf a = (xs.filter (a < ·)).length := by
  induction xs with
  | nil => exact absurd ha List.not_mem_nil
  | cons x xs ih =>
      obtain ⟨hx, hxs⟩ := List.pairwise_cons.mp h
      by_cases hax : a = x
      · subst hax
        have hnone : xs.filter (a < ·) = [] := by
          rw [List.filter_eq_nil_iff]
          intro b hb
          simpa using (hx b hb).le
        simp [hnone]
      · have ha' : a ∈ xs := (List.mem_cons.mp ha).resolve_left hax
        have hlt : a < x := hx a ha'
        rw [List.idxOf_cons_ne _ (Ne.symm hax), ih hxs ha',
          List.filter_cons_of_pos (by simpa using hlt), List.length_cons]

/-- The index of an element among the distinct elements is its rank. -/
theorem idxOf_descending {xs : List α} {a : α} (ha : a ∈ xs) :
    (descending xs).idxOf a = rank xs a := by
  rw [idxOf_eq_length_filter (pairwise_descending xs)
    (mem_descending_iff.mpr ha), rank,
    ← List.toFinset_card_of_nodup ((nodup_descending xs).filter _)]
  congr 1
  ext b
  simp

/-- Distinct elements have distinct ranks. -/
theorem eq_of_rank_eq {xs : List α} {a b : α} (ha : a ∈ xs) (hb : b ∈ xs)
    (h : rank xs a = rank xs b) : a = b := by
  rw [← idxOf_descending ha, ← idxOf_descending hb] at h
  exact (List.idxOf_inj (mem_descending_iff.mpr ha)).mp h

/-- Ranks do not depend on the order of the list. -/
theorem rank_congr_of_perm {xs ys : List α} (h : xs.Perm ys) :
    rank xs = rank ys := by
  funext a
  rw [rank, rank, List.toFinset_eq_of_perm _ _ h]

theorem length_descending (xs : List α) :
    (descending xs).length = xs.toFinset.card := by
  rw [← List.toFinset_card_of_nodup (nodup_descending xs)]
  congr 1
  ext a
  simp

theorem rank_lt_length {xs : List α} {a : α} (ha : a ∈ xs) :
    rank xs a < (descending xs).length := by
  rw [← idxOf_descending ha]
  exact List.idxOf_lt_length_of_mem (mem_descending_iff.mpr ha)

/-- Every number below the count of distinct elements is a rank. -/
theorem exists_rank_eq {xs : List α} {n : ℕ}
    (hn : n < (descending xs).length) : ∃ a ∈ xs, rank xs a = n := by
  have ha : (descending xs)[n] ∈ xs :=
    mem_descending_iff.mp (List.getElem_mem hn)
  refine ⟨_, ha, ?_⟩
  rw [← idxOf_descending ha]
  exact (nodup_descending xs).idxOf_getElem n hn

/-- The distinct elements are the only strictly descending list with the same
members. -/
theorem eq_descending {xs ys : List α} (h : ys.Pairwise (· > ·))
    (hmem : ∀ a, a ∈ ys ↔ a ∈ xs) : ys = descending xs := by
  have hnodup : ys.Nodup := h.imp fun hgt => ne_of_gt hgt
  have hperm : ys.Perm (descending xs) := by
    rw [List.perm_ext_iff_of_nodup hnodup (nodup_descending xs)]
    intro a
    rw [hmem, mem_descending_iff]
  exact hperm.eq_of_pairwise (fun a b _ _ hab hba => absurd hab hba.not_gt) h
    (pairwise_descending xs)

end Descending

/-! ## The map of indices -/

section Positions

open Std

variable {κ : Type u} [Ord κ] [TransOrd κ] [LawfulEqOrd κ] [DecidableEq κ]

/-- The map from the elements of a list to their indices, built from the
front. -/
def positions (xs : List κ) : TreeMap κ ℕ :=
  xs.zipIdx.foldl (fun m p => m.insert p.1 p.2) ∅

theorem getElem?_foldl_insert_zipIdx {xs : List κ} (hnodup : xs.Nodup)
    (n : ℕ) (m : TreeMap κ ℕ) (k : κ) :
    ((xs.zipIdx n).foldl (fun m p => m.insert p.1 p.2) m)[k]? =
      if k ∈ xs then some (n + xs.idxOf k) else m[k]? := by
  induction xs generalizing n m with
  | nil => simp
  | cons x xs ih =>
      obtain ⟨hx, hxs⟩ := List.nodup_cons.mp hnodup
      rw [List.zipIdx_cons, List.foldl_cons, ih hxs, TreeMap.getElem?_insert]
      simp only [LawfulEqCmp.compare_eq_iff_eq, List.mem_cons]
      by_cases hk : k = x
      · subst hk
        simp [hx]
      · by_cases hmem : k ∈ xs
        · simp only [hmem, or_true, if_true, Option.some.injEq]
          rw [List.idxOf_cons_ne _ (Ne.symm hk)]
          omega
        · simp [hk, Ne.symm hk, hmem]

theorem getElem?_positions {xs : List κ} (hnodup : xs.Nodup) (k : κ) :
    (positions xs)[k]? = if k ∈ xs then some (xs.idxOf k) else none := by
  simp [positions, getElem?_foldl_insert_zipIdx hnodup]

omit [TransOrd κ] [LawfulEqOrd κ] [DecidableEq κ] in
theorem positions_concat (xs : List κ) (k : κ) :
    positions (xs ++ [k]) = (positions xs).insert k xs.length := by
  simp [positions, List.zipIdx_append]

theorem size_positions {xs : List κ} (hnodup : xs.Nodup) :
    (positions xs).size = xs.length := by
  induction xs using List.reverseRecOn with
  | nil => rfl
  | append_singleton xs k ih =>
      obtain ⟨hxs, -, hk⟩ := List.nodup_append.mp hnodup
      have hfresh : ¬(positions xs).contains k = true := by
        rw [← TreeMap.mem_iff_contains, TreeMap.mem_iff_isSome_getElem?,
          getElem?_positions hxs, if_neg]
        · simp
        · exact fun hmem => hk k hmem k (List.mem_singleton_self k) rfl
      rw [positions_concat, TreeMap.size_insert, if_neg hfresh, ih hxs,
        List.length_append, List.length_singleton]

/-- A loop that inserts each element with the number of elements before it
builds the map of indices. -/
theorem foldl_insert_size {xs : List κ} (hnodup : xs.Nodup) :
    xs.foldl (fun m k => m.insert k m.size) (∅ : TreeMap κ ℕ) =
      positions xs := by
  induction xs using List.reverseRecOn with
  | nil => rfl
  | append_singleton xs k ih =>
      have hxs := (List.nodup_append.mp hnodup).1
      rw [List.foldl_append, ih hxs, List.foldl_cons, List.foldl_nil,
        positions_concat, size_positions hxs]

end Positions

end Rank
