import Mathlib.Data.List.Basic
import Mathlib.Data.Nat.Notation

/-!
# Texts made of words

A text of words with one separator between any two of them, built by appending
words one at a time.  As long as the words are not empty and do not contain the
separator, the text determines them.  Lines each end with their separator.
-/

namespace Words

variable {α : Type u} {sep : α} {w : List α}
  {words others : List (List α)}

/-- Put the separator after a text, unless there is no text yet. -/
def separate (sep : α) (text : List α) : List α :=
  if text.isEmpty then text else text ++ [sep]

/-- The words with one separator between any two of them. -/
def join (sep : α) (words : List (List α)) : List α :=
  [sep].intercalate words

/-- Words that are not empty and do not contain the separator. -/
def Proper (sep : α) (words : List (List α)) : Prop :=
  ∀ w ∈ words, w ≠ [] ∧ sep ∉ w

@[simp] theorem join_nil : join sep [] = [] := rfl

@[simp] theorem join_singleton : join sep [w] = w :=
  List.intercalate_singleton

theorem join_cons_cons (next : List α) :
    join sep (w :: next :: words) = w ++ sep :: join sep (next :: words) := by
  rw [join, List.intercalate_cons_cons, List.append_assoc]
  rfl

theorem Proper.tail (h : Proper sep (w :: words)) : Proper sep words :=
  fun v hv => h v (List.mem_cons_of_mem w hv)

theorem proper_append :
    Proper sep (words ++ others) ↔ Proper sep words ∧ Proper sep others :=
  List.forall_mem_append

/-- Words of some length make a text of some length. -/
theorem join_eq_nil_iff (h : Proper sep words) :
    join sep words = [] ↔ words = [] := by
  constructor
  · intro hjoin
    cases words with
    | nil => rfl
    | cons w words =>
        cases words with
        | nil =>
            rw [join_singleton] at hjoin
            exact absurd hjoin (h w List.mem_cons_self).1
        | cons next words =>
            rw [join_cons_cons] at hjoin
            simp at hjoin
  · rintro rfl
    rfl

/-- One more word after the others. -/
theorem join_concat (hne : words ≠ []) :
    join sep (words ++ [w]) = join sep words ++ sep :: w := by
  induction words with
  | nil => exact absurd rfl hne
  | cons v words ih =>
      cases words with
      | nil =>
          rw [List.singleton_append, join_cons_cons, join_singleton,
            join_singleton]
      | cons next words =>
          have hrest := ih (List.cons_ne_nil next words)
          rw [List.cons_append] at hrest
          rw [List.cons_append, List.cons_append, join_cons_cons, hrest,
            join_cons_cons, List.append_assoc]
          rfl

/-- Separating and appending a word lists it last. -/
theorem separate_append (h : Proper sep words) (w : List α) :
    separate sep (join sep words) ++ w = join sep (words ++ [w]) := by
  by_cases hempty : words = []
  · rw [hempty, List.nil_append, join_singleton]
    rfl
  · have htext : ¬(join sep words).isEmpty = true := by
      rw [List.isEmpty_iff, join_eq_nil_iff h]
      exact hempty
    rw [separate, if_neg htext, join_concat hempty, List.append_assoc]
    rfl

/-- Appending those words of a table that are selected, in order. -/
theorem foldl_separate_append {table : List (Bool × List α)}
    (htable : Proper sep (table.map Prod.snd)) (h : Proper sep words) :
    table.foldl (fun text entry =>
        if entry.1 then separate sep text ++ entry.2 else text)
        (join sep words) =
      join sep (words ++ (table.filter Prod.fst).map Prod.snd) := by
  induction table generalizing words with
  | nil => simp
  | cons entry table ih =>
      rw [List.map_cons] at htable
      have hrest := htable.tail
      rw [List.foldl_cons, List.filter_cons]
      split
      · have hlisted : Proper sep (words ++ [entry.2]) := by
          rw [proper_append]
          refine ⟨h, ?_⟩
          intro w hw
          rw [List.mem_singleton] at hw
          rw [hw]
          exact htable _ List.mem_cons_self
        rw [separate_append h, ih hrest hlisted, List.map_cons,
          List.append_assoc, List.singleton_append]
      · exact ih hrest h

/-- Splitting at the separator gives the words back. -/
theorem splitOn_join [BEq α] [LawfulBEq α] (h : Proper sep words)
    (hne : words ≠ []) : (join sep words).splitOn sep = words :=
  List.splitOn_intercalate sep (fun w hw => (h w hw).2) hne

/-- The text determines the words. -/
theorem eq_of_join_eq [BEq α] [LawfulBEq α] (hwords : Proper sep words) (hothers : Proper sep others)
    (h : join sep words = join sep others) : words = others := by
  by_cases hempty : words = []
  · have hjoin : join sep others = [] := by
      rw [← h, join_eq_nil_iff hwords]
      exact hempty
    rw [hempty, (join_eq_nil_iff hothers).mp hjoin]
  · have hne : others ≠ [] := by
      intro hnil
      rw [hnil, join_nil, join_eq_nil_iff hwords] at h
      exact hempty h
    calc words = (join sep words).splitOn sep := (splitOn_join hwords hempty).symm
      _ = (join sep others).splitOn sep := by rw [h]
      _ = others := splitOn_join hothers hne

/-- The first separator splits a text in one way. -/
theorem append_cons_inj {a a' b b' : List α} (ha : sep ∉ a) (ha' : sep ∉ a') :
    a ++ sep :: b = a' ++ sep :: b' ↔ a = a' ∧ b = b' := by
  constructor
  · intro h
    induction a generalizing a' with
    | nil =>
        cases a' with
        | nil => exact ⟨rfl, (List.cons.inj h).2⟩
        | cons x a' =>
            rw [List.nil_append, List.cons_append, List.cons.injEq] at h
            exact absurd (h.1 ▸ List.mem_cons_self) ha'
    | cons x a ih =>
        rw [List.mem_cons, not_or] at ha
        cases a' with
        | nil =>
            rw [List.nil_append, List.cons_append, List.cons.injEq] at h
            exact absurd h.1.symm ha.1
        | cons y a' =>
            rw [List.mem_cons, not_or] at ha'
            rw [List.cons_append, List.cons_append, List.cons.injEq] at h
            obtain ⟨rfl, rfl⟩ := ih ha.2 ha'.2 h.2
            rw [h.1]
            exact ⟨rfl, rfl⟩
  · rintro ⟨rfl, rfl⟩
    rfl

/-! ## Lines -/

/-- Lines that each end with the separator. -/
def unlines (sep : α) (lines : List (List α)) : List α :=
  lines.flatMap (· ++ [sep])

/-- What is read line by line: the last line need not end with the separator. -/
def getLines [BEq α] (sep : α) (text : List α) : List (List α) :=
  let pieces := text.splitOn sep
  if pieces.getLast?.any List.isEmpty then pieces.dropLast else pieces

theorem unlines_eq_join (lines : List (List α)) :
    unlines sep lines = join sep (lines ++ [[]]) := by
  induction lines with
  | nil => rfl
  | cons l lines ih =>
      rw [unlines, List.flatMap_cons, ← unlines, ih]
      cases lines with
      | nil => rw [List.nil_append, join_singleton, List.append_nil]; rfl
      | cons next lines =>
          rw [List.cons_append, List.cons_append, List.cons_append,
            join_cons_cons, List.append_assoc, List.singleton_append]

/-- Lines without the separator are read back. -/
theorem getLines_unlines [BEq α] [LawfulBEq α] {lines : List (List α)}
    (h : ∀ l ∈ lines, sep ∉ l) : getLines sep (unlines sep lines) = lines := by
  have hpieces : (unlines sep lines).splitOn sep = lines ++ [[]] := by
    rw [unlines_eq_join]
    refine List.splitOn_intercalate sep ?_ (by simp)
    intro l hl
    rcases List.mem_append.mp hl with hl | hl
    · exact h l hl
    · rw [List.mem_singleton.mp hl]
      exact List.not_mem_nil
  rw [getLines, hpieces]
  simp

end Words
