import Mathlib.Data.List.Forall2

/-!
# Loops that may stop early

A loop over a list whose body may fail is a `mapM` or a `foldlM` in `Option`.
It either fails or treats every element.
-/

namespace PartialLoop

variable {α : Type u} {β : Type v} {σ : Type w}

/-- A loop that does not fail maps every element. -/
theorem forall₂_of_mapM {f : α → Option β} {xs : List α} {ys : List β}
    (h : xs.mapM f = some ys) :
    List.Forall₂ (fun x y => f x = some y) xs ys := by
  induction xs generalizing ys with
  | nil =>
      obtain rfl : [] = ys := by simpa using h
      exact List.Forall₂.nil
  | cons x xs ih =>
      simp only [List.mapM_cons, Option.bind_eq_bind, Option.bind_eq_some_iff,
        Option.pure_def, Option.some.injEq] at h
      obtain ⟨y, hy, ys, hys, rfl⟩ := h
      exact List.Forall₂.cons hy (ih hys)

theorem length_of_mapM {f : α → Option β} {xs : List α} {ys : List β}
    (h : xs.mapM f = some ys) : ys.length = xs.length :=
  (forall₂_of_mapM h).length_eq.symm

/-- Every result comes from an element. -/
theorem exists_of_mem_mapM {f : α → Option β} {xs : List α} {ys : List β}
    (h : xs.mapM f = some ys) {y : β} (hy : y ∈ ys) :
    ∃ x ∈ xs, f x = some y := by
  obtain ⟨i, hi, rfl⟩ := List.getElem_of_mem hy
  have hall := List.forall₂_iff_get.mp (forall₂_of_mapM h)
  have hi' : i < xs.length := by rw [hall.1]; exact hi
  exact ⟨_, List.getElem_mem hi', hall.2 i hi' hi⟩

/-- What the results keep of their elements. -/
theorem map_of_mapM {f : α → Option β} {g : β → α}
    (hg : ∀ x y, f x = some y → g y = x) {xs : List α} {ys : List β}
    (h : xs.mapM f = some ys) : ys.map g = xs := by
  have hall := (forall₂_of_mapM h).flip.imp fun y x hxy => hg x y hxy
  rw [← List.forall₂_map_left_iff (R := Eq) (f := g)] at hall
  exact List.forall₂_eq_eq_eq ▸ hall

/-- Conversely these results are what the loop yields. -/
theorem mapM_of_forall₂ {f : α → Option β} {xs : List α} {ys : List β}
    (h : List.Forall₂ (fun x y => f x = some y) xs ys) :
    xs.mapM f = some ys := by
  induction h with
  | nil => rfl
  | cons hxy _ ih =>
      rw [List.mapM_cons, hxy, ih]
      rfl

/-- A loop that fails fails at an element. -/
theorem exists_of_mapM_eq_none {f : α → Option β} {xs : List α}
    (h : xs.mapM f = none) : ∃ x ∈ xs, f x = none := by
  induction xs with
  | nil => contradiction
  | cons x xs ih =>
      rw [List.mapM_cons] at h
      cases hx : f x with
      | none => exact ⟨x, List.mem_cons_self, hx⟩
      | some y =>
          cases hxs : xs.mapM f with
          | none =>
              obtain ⟨z, hz, hfz⟩ := ih hxs
              exact ⟨z, List.mem_cons_of_mem x hz, hfz⟩
          | some ys =>
              rw [hx, hxs] at h
              contradiction

/-- A loop over encoded elements whose body decodes them. -/
theorem mapM_map_eq_some {f : α → Option β} {g : β → α} {ys : List β}
    (h : ∀ y ∈ ys, f (g y) = some y) : (ys.map g).mapM f = some ys := by
  apply mapM_of_forall₂
  rw [List.forall₂_map_left_iff, List.forall₂_same]
  exact h

/-- A loop that only tests its elements keeps them. -/
theorem mapM_ite_some (p : α → Prop) [DecidablePred p] (xs : List α) :
    xs.mapM (fun x => if p x then some x else none) =
      if ∀ x ∈ xs, p x then some xs else none := by
  induction xs with
  | nil => rfl
  | cons x xs ih =>
      rw [List.mapM_cons, ih]
      simp only [List.forall_mem_cons]
      by_cases hx : p x
      · by_cases hxs : ∀ x ∈ xs, p x
        · simp only [hx, if_pos hxs, if_true, true_and]
          rfl
        · simp only [hx, hxs, if_true, if_false, and_false]
          rfl
      · simp only [hx, if_false, false_and]
        rfl

/-- A loop that first reads and then updates folds over what is read. -/
theorem foldlM_map_eq (read : α → Option β) (f : σ → β → σ) (xs : List α)
    (s : σ) :
    xs.foldlM (fun s x => (read x).map (f s)) s =
      (xs.mapM read).map (List.foldl f s) := by
  induction xs generalizing s with
  | nil => rfl
  | cons x xs ih =>
      rw [List.foldlM_cons, List.mapM_cons]
      cases read x with
      | none => rfl
      | some y =>
          simp only [Option.map_some, Option.bind_eq_bind, Option.bind_some, ih]
          cases xs.mapM read <;> rfl

/-! ## Loops over a state -/

theorem foldlM_cons_eq_some {f : σ → α → Option σ} {x : α} {xs : List α}
    {s s' : σ} :
    (x :: xs).foldlM f s = some s' ↔
      ∃ reached, f s x = some reached ∧ xs.foldlM f reached = some s' := by
  rw [List.foldlM_cons, Option.bind_eq_bind, Option.bind_eq_some_iff]

/-- What every round keeps holds after a loop that does not fail. -/
theorem foldlM_induction {P : σ → Prop} {f : σ → α → Option σ}
    (hf : ∀ {s x s'}, P s → f s x = some s' → P s') {xs : List α} {s s' : σ}
    (h : P s) (hloop : xs.foldlM f s = some s') : P s' := by
  induction xs generalizing s with
  | nil =>
      obtain rfl := Option.some.inj hloop
      exact h
  | cons x xs ih =>
      obtain ⟨reached, hround, hrest⟩ := foldlM_cons_eq_some.mp hloop
      exact ih (hf h hround) hrest

end PartialLoop
