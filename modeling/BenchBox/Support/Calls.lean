import Mathlib.Data.List.Basic
import Mathlib.Data.Nat.Notation

/-!
# Sequences of stateful calls

A call takes the state and returns a result with the new state.  A sequence of
calls threads the state through and collects the results in order.
-/

namespace Calls

variable {σ : Type u} {α : Type v}

/-- The results of the calls in order, and the state after them. -/
def runCalls : List (σ → α × σ) → σ → List α × σ
  | [], s => ([], s)
  | f :: fs, s =>
      ((f s).1 :: (runCalls fs (f s).2).1, (runCalls fs (f s).2).2)

@[simp] theorem runCalls_nil (s : σ) :
    runCalls ([] : List (σ → α × σ)) s = ([], s) := rfl

@[simp] theorem runCalls_singleton (f : σ → α × σ) (s : σ) :
    runCalls [f] s = ([(f s).1], (f s).2) := rfl

theorem runCalls_append (fs gs : List (σ → α × σ)) (s : σ) :
    runCalls (fs ++ gs) s =
      ((runCalls fs s).1 ++ (runCalls gs (runCalls fs s).2).1,
        (runCalls gs (runCalls fs s).2).2) := by
  induction fs generalizing s with
  | nil => rfl
  | cons f fs ih => rw [List.cons_append, runCalls, runCalls, ih]; rfl

/-- Every call has one result. -/
@[simp] theorem length_runCalls (fs : List (σ → α × σ)) (s : σ) :
    (runCalls fs s).1.length = fs.length := by
  induction fs generalizing s with
  | nil => rfl
  | cons f fs ih => rw [runCalls, List.length_cons, List.length_cons, ih]

/-- One more call to the same function. -/
theorem runCalls_replicate_succ (f : σ → α × σ) (n : ℕ) (s : σ) :
    runCalls (List.replicate (n + 1) f) s =
      ((runCalls (List.replicate n f) s).1 ++
          [(f (runCalls (List.replicate n f) s).2).1],
        (f (runCalls (List.replicate n f) s).2).2) := by
  rw [List.replicate_succ', runCalls_append, runCalls_singleton]

/-- Results that fill slots from the front on, and the next one of them. -/
theorem append_drop_set {n : ℕ} (done slots : List α) (x : α)
    (hdone : done.length = n) (hn : n < slots.length) :
    (done ++ slots.drop n).set n x = (done ++ [x]) ++ slots.drop (n + 1) := by
  subst hdone
  rw [List.set_append_right _ _ (Nat.le_refl _), Nat.sub_self,
    List.drop_eq_getElem_cons hn, List.set_cons_zero, List.append_cons]

end Calls
