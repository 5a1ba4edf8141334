import BenchBox.Support.Decimal
import Mathlib.Data.List.Basic

/-!
# Outlines

A nested structure is printed as an outline: one line for each node, before the
lines of its children.  A line is a row of numbers, each after a label.  A line is
read by its labels, and an outline is read from its end, where the children of
a node are complete when its line comes.
-/

namespace Outline

open Decimal

/-! ## Lines -/

/-- Labels with numbers. -/
def printFields (fields : List (List Char × ℕ)) : List Char :=
  fields.flatMap fun field => field.1 ++ Nat.toDigits 10 field.2

/-- The numbers after the labels, `none` for any other text. -/
def readFields : List (List Char) → List Char → Option (List ℕ)
  | [], [] => some []
  | [], _ :: _ => none
  | label :: labels, text =>
      if label <+: text then
        let rest := text.drop label.length
        let digits := rest.takeWhile Char.isDigit
        if digits = [] then none
        else
          (readFields labels (rest.dropWhile Char.isDigit)).map
            (Nat.ofDigitChars 10 digits 0 :: ·)
      else
        none

/-- A label has a text, which does not continue a number before it. -/
def IsLabel (label : List Char) : Prop :=
  label.head?.any (fun c => !c.isDigit) = true

instance (label : List Char) : Decidable (IsLabel label) :=
  inferInstanceAs (Decidable (_ = true))

theorem head?_printFields {fields : List (List Char × ℕ)}
    (h : ∀ field ∈ fields, IsLabel field.1) :
    ∀ c ∈ (printFields fields).head?, c.isDigit = false := by
  cases fields with
  | nil => simp [printFields]
  | cons field fields =>
      have hlabel := h field List.mem_cons_self
      obtain ⟨label, n⟩ := field
      cases label with
      | nil => simp [IsLabel] at hlabel
      | cons c label =>
          rw [IsLabel] at hlabel
          simpa [printFields] using hlabel

theorem printFields_cons (field : List Char × ℕ)
    (fields : List (List Char × ℕ)) :
    printFields (field :: fields) =
      field.1 ++ (Nat.toDigits 10 field.2 ++ printFields fields) := by
  rw [printFields, List.flatMap_cons, List.append_assoc]
  rfl

/-- The numbers are read back. -/
theorem readFields_printFields {labels : List (List Char)} {numbers : List ℕ}
    (hlength : labels.length = numbers.length)
    (h : ∀ label ∈ labels, IsLabel label) :
    readFields labels (printFields (labels.zip numbers)) = some numbers := by
  induction labels generalizing numbers with
  | nil =>
      obtain rfl := List.eq_nil_of_length_eq_zero hlength.symm
      rfl
  | cons label labels ih =>
      cases numbers with
      | nil => simp at hlength
      | cons n numbers =>
          have hrest : ∀ c ∈ (printFields (labels.zip numbers)).head?,
              c.isDigit = false := by
            apply head?_printFields
            intro field hfield
            exact h _ (List.mem_cons_of_mem _ (List.of_mem_zip hfield).1)
          rw [List.zip_cons_cons, printFields_cons, readFields,
            if_pos (List.prefix_append _ _)]
          dsimp only
          rw [List.drop_left, takeWhile_isDigit_toDigits hrest,
            dropWhile_isDigit_toDigits hrest, if_neg Nat.toDigits_ne_nil,
            ih (Nat.succ.inj hlength) fun l hl => h l (List.mem_cons_of_mem _ hl),
            Nat.ofDigitChars_ten_toDigits]
          rfl

/-- A line that begins with another label is not read. -/
theorem readFields_of_apart {label other : List Char}
    (h : ¬label <+: other ∧ ¬other <+: label) (labels : List (List Char))
    (n : ℕ) (fields : List (List Char × ℕ)) :
    readFields (label :: labels) (printFields ((other, n) :: fields)) = none := by
  rw [readFields, if_neg]
  intro hlabel
  have hother : other <+: printFields ((other, n) :: fields) := by
    rw [printFields_cons]
    exact List.prefix_append _ _
  rcases List.prefix_or_prefix_of_prefix hlabel hother with hle | hle
  · exact h.1 hle
  · exact h.2 hle

theorem notMem_printFields {c : Char} (hc : ¬c.isDigit)
    {fields : List (List Char × ℕ)} (h : ∀ field ∈ fields, c ∉ field.1) :
    c ∉ printFields fields := by
  intro hmem
  obtain ⟨field, hfield, hmem⟩ := List.mem_flatMap.mp hmem
  rcases List.mem_append.mp hmem with hlabel | hdigit
  · exact h field hfield hlabel
  · exact hc (isDigit_toDigits hdigit)

/-! ## Nesting -/

variable {α β σ : Type*}

/-- If the lines of each node put it before the nodes that have been read, then
the lines of all nodes give all of them. -/
theorem foldr_flatMap_put {lines : α → List β} {add : β → σ → σ}
    {p : List α → σ} {start : σ} (hstart : p [] = start)
    (h : ∀ x xs, (lines x).foldr add (p xs) = p (x :: xs)) (xs : List α) :
    (xs.flatMap lines).foldr add start = p xs := by
  induction xs with
  | nil => exact hstart.symm
  | cons x xs ih => rw [List.flatMap_cons, List.foldr_append, ih, h]

end Outline
