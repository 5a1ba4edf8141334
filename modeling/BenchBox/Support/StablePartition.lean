import Mathlib.Data.List.Basic
import Mathlib.Data.List.Nodup
import Mathlib.Data.List.Perm.Basic

/-!
# Stable partition of a list by a key

The classes of a list under a key, concatenated in a given order of the keys,
each class in the order of the list.  For a natural-number key below a bound
this is the stable partition.
-/

namespace StablePartition

variable {α : Type*}

/-- The classes of distinct keys, one after the other, lose and repeat nothing
that has one of the keys. -/
theorem flatMap_filter_perm {κ : Type*} [DecidableEq κ] (key : α → κ)
    {keys : List κ} (hkeys : keys.Nodup) (xs : List α) :
    (keys.flatMap fun k => xs.filter (key · = k)).Perm
      (xs.filter (key · ∈ keys)) := by
  induction keys with
  | nil => simp
  | cons k keys ih =>
      obtain ⟨hk, hkeys⟩ := List.nodup_cons.mp hkeys
      have hclass : (xs.filter (key · ∈ k :: keys)).filter (key · = k) =
          xs.filter (key · = k) := by
        rw [List.filter_filter]
        congr 1
        funext x
        by_cases hx : key x = k <;> simp [hx]
      have hrest : (xs.filter (key · ∈ k :: keys)).filter
          (fun x => !decide (key x = k)) = xs.filter (key · ∈ keys) := by
        rw [List.filter_filter]
        congr 1
        funext x
        by_cases hx : key x = k <;> simp [hx, hk]
      have hsplit := List.filter_append_perm (key · = k)
        (xs.filter (key · ∈ k :: keys))
      rw [hclass, hrest] at hsplit
      rw [List.flatMap_cons]
      exact ((ih hkeys).append_left _).trans hsplit

/-- The classes of distinct keys that cover a list are a partition of it. -/
theorem flatMap_filter_perm_self {κ : Type*} [DecidableEq κ] (key : α → κ)
    {keys : List κ} (hkeys : keys.Nodup) {xs : List α}
    (hall : ∀ x ∈ xs, key x ∈ keys) :
    (keys.flatMap fun k => xs.filter (key · = k)).Perm xs := by
  have hperm := flatMap_filter_perm key hkeys xs
  rwa [List.filter_eq_self.mpr fun x hx => decide_eq_true (hall x hx)] at hperm

/-- A block is a stretch of the concatenation. -/
theorem infix_flatMap_range (f : ℕ → List α) {n k : ℕ} (h : k < n) :
    f k <:+: (List.range n).flatMap f := by
  rw [List.flatMap_def]
  exact List.infix_of_mem_flatten (List.mem_map_of_mem (List.mem_range.mpr h))

/-- Of blocks numbered by the key of their elements, one key selects its block. -/
theorem filter_flatMap_range {key : α → ℕ} {f : ℕ → List α}
    (h : ∀ i, ∀ x ∈ f i, key x = i) (n k : ℕ) :
    ((List.range n).flatMap f).filter (key · == k) =
      if k < n then f k else [] := by
  have hblock (i : ℕ) :
      (f i).filter (key · == k) = if i = k then f k else [] := by
    split
    next heq =>
      subst heq
      rw [List.filter_eq_self]
      intro x hx
      simpa using h i x hx
    next hne =>
      rw [List.filter_eq_nil_iff]
      intro x hx
      simpa [h i x hx] using hne
  induction n with
  | zero => rfl
  | succ n ih =>
      rw [List.range_succ, List.flatMap_append, List.filter_append, ih,
        List.flatMap_singleton, hblock]
      rcases Nat.lt_trichotomy k n with hlt | rfl | hgt
      · simp [hlt, Nat.ne_of_gt hlt, Nat.lt_succ_of_lt hlt]
      · simp
      · simp [Nat.ne_of_lt hgt, Nat.lt_asymm hgt, show ¬k < n + 1 by omega]

/-- The classes `0, ..., n - 1` of `xs` under `key`, one after the other. -/
def stablePartition (key : α → ℕ) (n : ℕ) (xs : List α) : List α :=
  (List.range n).flatMap fun k => xs.filter (key · == k)

/-- A stable partition loses and repeats nothing below its bound. -/
theorem stablePartition_perm (key : α → ℕ) (n : ℕ) (xs : List α) :
    (stablePartition key n xs).Perm (xs.filter (key · < n)) := by
  have hperm := flatMap_filter_perm key (List.nodup_range (n := n)) xs
  simp only [List.mem_range] at hperm
  exact hperm

/-- A stable partition keeps the order within a class. -/
theorem filter_stablePartition {key : α → ℕ} {n : ℕ} {xs : List α}
    (h : ∀ x ∈ xs, key x < n) (k : ℕ) :
    (stablePartition key n xs).filter (key · == k) =
      xs.filter (key · == k) := by
  have hclass (i : ℕ) : ∀ x ∈ xs.filter (key · == i), key x = i :=
    fun x hx => beq_iff_eq.mp (List.mem_filter.mp hx).2
  rw [stablePartition, filter_flatMap_range hclass]
  split
  · rfl
  next hk =>
    symm
    rw [List.filter_eq_nil_iff]
    intro x hx
    have hlt := h x hx
    simp only [beq_iff_eq]
    omega

end StablePartition
