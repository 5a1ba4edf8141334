import BenchBox.Support.Words
import Mathlib.Data.List.DropRight
import Mathlib.Order.Nat

/-!
# Words padded to a width

A word is filled up on the left or on the right until it has a given width, and
longer words are kept.  Trimming and splitting at the filler give back words that
do not begin or end with it, or do not contain it.
-/

namespace Words

variable {α : Type u} {sep : α} {n : ℕ} {w text : List α} {words : List (List α)}

def padLeft (sep : α) (n : ℕ) (w : List α) : List α :=
  List.replicate (n - w.length) sep ++ w

def padRight (sep : α) (n : ℕ) (w : List α) : List α :=
  w ++ List.replicate (n - w.length) sep

@[simp] theorem length_padLeft (sep : α) (n : ℕ) (w : List α) :
    (padLeft sep n w).length = max n w.length := by
  rw [padLeft, List.length_append, List.length_replicate]
  omega

@[simp] theorem length_padRight (sep : α) (n : ℕ) (w : List α) :
    (padRight sep n w).length = max n w.length := by
  rw [padRight, List.length_append, List.length_replicate]
  omega

theorem mem_padLeft {a : α} (h : a ∈ padLeft sep n w) : a = sep ∨ a ∈ w :=
  (List.mem_append.mp h).imp_left List.eq_of_mem_replicate

/-- A text that neither begins nor ends with the separator. -/
def Trimmed (sep : α) (text : List α) : Prop :=
  text.head? ≠ some sep ∧ text.getLast? ≠ some sep

instance [DecidableEq α] (sep : α) (text : List α) :
    Decidable (Trimmed sep text) :=
  inferInstanceAs (Decidable (_ ∧ _))

theorem trimmed_of_notMem (h : sep ∉ w) : Trimmed sep w :=
  ⟨fun hhead => h (List.mem_of_head? hhead),
    fun hlast => h (List.mem_of_getLast? hlast)⟩

section Reading

variable [BEq α] [LawfulBEq α]

/-! ## Splitting -/

/-- The maximal stretches without the separator. -/
def tokens (sep : α) (text : List α) : List (List α) :=
  (text.splitOn sep).filter (!·.isEmpty)

omit [LawfulBEq α] in
@[simp] theorem tokens_nil (sep : α) : tokens sep [] = [] := by
  simp [tokens]

theorem tokens_append_cons (a b : List α) :
    tokens sep (a ++ sep :: b) = tokens sep a ++ tokens sep b := by
  rw [tokens, List.splitOn_append_cons_self, List.filter_append]
  rfl

theorem tokens_cons (text : List α) : tokens sep (sep :: text) = tokens sep text := by
  rw [← List.nil_append (sep :: text), tokens_append_cons, tokens_nil,
    List.nil_append]

theorem tokens_of_notMem (hne : w ≠ []) (hsep : sep ∉ w) : tokens sep w = [w] := by
  rw [tokens, List.splitOn_eq_singleton hsep]
  simpa using hne

theorem tokens_replicate_append (n : ℕ) (text : List α) :
    tokens sep (List.replicate n sep ++ text) = tokens sep text := by
  induction n with
  | zero => rfl
  | succ n ih =>
      rw [List.replicate_succ, List.cons_append, tokens_cons, ih]

/-- Separated words are read back. -/
theorem tokens_join (h : Proper sep words) : tokens sep (join sep words) = words := by
  by_cases hne : words = []
  · rw [hne, join_nil, tokens_nil]
  · rw [tokens, splitOn_join h hne, List.filter_eq_self]
    intro w hw
    simpa using (h w hw).1

/-- Padded words, each after a separator, are read back. -/
theorem tokens_flatMap_padLeft (n : ℕ) (h : Proper sep words) :
    tokens sep (words.flatMap fun w => sep :: padLeft sep n w) = words := by
  have hlast : ∀ words : List (List α), Proper sep words →
      tokens sep (sep :: words.flatMap fun w => padLeft sep n w ++ [sep]) =
        words := by
    intro words h
    rw [tokens_cons]
    induction words with
    | nil => exact tokens_nil sep
    | cons w words ih =>
        obtain ⟨hne, hsep⟩ := h w List.mem_cons_self
        rw [List.flatMap_cons, List.append_assoc, List.singleton_append,
          tokens_append_cons, padLeft, tokens_replicate_append,
          tokens_of_notMem hne hsep, ih h.tail, List.singleton_append]
  have hshift : (words.flatMap fun w => sep :: padLeft sep n w) ++ [sep] =
      sep :: words.flatMap fun w => padLeft sep n w ++ [sep] := by
    clear h
    induction words with
    | nil => rfl
    | cons w words ih =>
        rw [List.flatMap_cons, List.append_assoc, ih, List.flatMap_cons,
          List.cons_append, List.append_assoc, List.singleton_append]
  have hend : tokens sep
      ((words.flatMap fun w => sep :: padLeft sep n w) ++ [sep]) = _ :=
    tokens_append_cons _ []
  rw [hshift, hlast words h, tokens_nil, List.append_nil] at hend
  exact hend.symm

/-! ## Trimming -/

/-- A text without the separators it begins and ends with. -/
def trim (sep : α) (text : List α) : List α :=
  (text.dropWhile (· == sep)).rdropWhile (· == sep)

theorem dropWhile_replicate_append (n : ℕ) (text : List α) :
    (List.replicate n sep ++ text).dropWhile (· == sep) =
      text.dropWhile (· == sep) := by
  induction n with
  | zero => rfl
  | succ n ih =>
      rw [List.replicate_succ, List.cons_append,
        List.dropWhile_cons_of_pos (p := (· == sep)) (beq_self_eq_true sep), ih]

theorem rdropWhile_append_replicate (n : ℕ) (text : List α) :
    (text ++ List.replicate n sep).rdropWhile (· == sep) =
      text.rdropWhile (· == sep) := by
  rw [List.rdropWhile, List.reverse_append, List.reverse_replicate,
    dropWhile_replicate_append, ← List.rdropWhile]

/-- Trimming removes what a trimmed text is padded with. -/
theorem trim_replicate_append_replicate (h : Trimmed sep w) (m n : ℕ) :
    trim sep (List.replicate m sep ++ (w ++ List.replicate n sep)) = w := by
  obtain ⟨hhead, hlast⟩ := h
  rw [trim, dropWhile_replicate_append]
  cases hw : w with
  | nil =>
      rw [List.nil_append, ← List.append_nil (List.replicate n sep),
        dropWhile_replicate_append]
      rfl
  | cons a w' =>
      have ha : ¬(a == sep) = true := by
        rw [beq_iff_eq]
        rintro rfl
        exact hhead (by rw [hw]; rfl)
      rw [List.cons_append,
        List.dropWhile_cons_of_neg (p := (· == sep)) ha, ← List.cons_append,
        rdropWhile_append_replicate, ← hw, List.rdropWhile_eq_self_iff]
      intro hne hsep
      exact hlast (by rw [List.getLast?_eq_some_getLast hne, beq_iff_eq.mp hsep])

end Reading

end Words
