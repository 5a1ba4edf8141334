import BenchBox.Parse
import BenchBox.Support.FixedWidth

/-!
# The cursor of the console

`reset_cursor` moves the cursor to the start of the line some lines back: with an
escape sequence, or through the console API of Windows where that does not accept
escape sequences.  Two static variables keep which of them it is.  What the
platform answers to each call is an arbitrary input.
-/

namespace BenchBox

open FixedWidth

/-- The calls of `reset_cursor` that have an effect. -/
inductive ConsoleCall where
  | setConsoleMode (mode : BitVec 32)
  | printf (text : StringView)
  | setConsoleCursorPosition (x y : BitVec 16)
  | fflush
deriving DecidableEq

/-- What the platform answers during one call of `reset_cursor`: to `GetStdHandle`,
`GetConsoleMode` and `SetConsoleMode` in the check, and to `GetStdHandle` and
`GetConsoleScreenBufferInfo` in the fallback. -/
structure ConsoleAnswers where
  stdHandle : Bool
  consoleMode : Option (BitVec 32)
  setsMode : Bool
  fallbackHandle : Bool
  cursorPosition : Option (BitVec 16 × BitVec 16)

/-- `ansi_enabled` and `ansi_checked`. -/
structure AnsiStatus where
  ansiEnabled : Bool := false
  ansiChecked : Bool := false

/-- `"\x1b[%uF"`. -/
def previousLineText (lines : BitVec 32) : StringView :=
  Char.ofNat 27 :: '[' :: (Nat.toDigits 10 lines.toNat ++ ['F'])

/-- `if (!ansi_checked)`.  The mode is tried with
`ENABLE_VIRTUAL_TERMINAL_PROCESSING`. -/
def checkAnsi (answers : ConsoleAnswers) (status : AnsiStatus) :
    List ConsoleCall × AnsiStatus :=
  if status.ansiChecked then
    ([], status)
  else
    match answers.stdHandle, answers.consoleMode with
    | true, some mode =>
        ([.setConsoleMode (mode ||| 4)],
          { ansiEnabled := status.ansiEnabled || answers.setsMode
            ansiChecked := true })
    | _, _ => ([], { status with ansiChecked := true })

/-- `pos.Y` of the fallback, from the row of the cursor. -/
def fallbackRow (lines : BitVec 32) (y : BitVec 16) : BitVec 16 :=
  if lines > y.signExtend 32 then 0 else y - lines.setWidth 16

namespace Windows

/-- `reset_cursor`, with the calls it makes. -/
def resetCursor (answers : ConsoleAnswers) (lines : BitVec 32)
    (status : AnsiStatus) : List ConsoleCall × AnsiStatus :=
  if lines = 0 then
    ([], status)
  else
    let checked := checkAnsi answers status
    if checked.2.ansiEnabled then
      (checked.1 ++ [.printf (previousLineText lines), .fflush], checked.2)
    else if answers.fallbackHandle then
      match answers.cursorPosition with
      | none => checked
      | some pos =>
          (checked.1 ++
            [.setConsoleCursorPosition 0 (fallbackRow lines pos.2), .fflush],
            checked.2)
    else
      checked

/-- The calls of one `reset_cursor` after the other. -/
def resetCursors : List (ConsoleAnswers × BitVec 32) → AnsiStatus →
    List ConsoleCall
  | [], _ => []
  | (answers, lines) :: resets, status =>
      let result := resetCursor answers lines status
      result.1 ++ resetCursors resets result.2

end Windows

/-- `reset_cursor` on the other platforms. -/
def resetCursor (lines : BitVec 32) : List ConsoleCall :=
  if lines = 0 then [] else [.printf (previousLineText lines), .fflush]

/-! ## The row of the fallback -/

/-- For a row of the buffer the fallback counts right in 16 and 32 bits: it goes up
by as many rows as there are lines, or to the first row. -/
theorem fallbackRow_eq {y : BitVec 16} (hy : y.toNat < 2 ^ 15)
    (lines : BitVec 32) :
    fallbackRow lines y = BitVec.ofNat 16 (y.toNat - lines.toNat) := by
  have hwide : (y.signExtend 32).toNat = y.toNat :=
    toNat_signExtend_of_lt (by decide) hy
  have hbelow : lines > y.signExtend 32 ↔ y.toNat < lines.toNat := by
    rw [gt_iff_lt, BitVec.lt_def, hwide]
  rw [fallbackRow]
  split
  · rename_i habove
    rw [hbelow] at habove
    rw [Nat.sub_eq_zero_of_le habove.le]
    rfl
  · rename_i hwithin
    rw [hbelow, not_lt] at hwithin
    have hlines : (lines.setWidth 16).toNat = lines.toNat := by
      rw [BitVec.toNat_setWidth, Nat.mod_eq_of_lt (by omega)]
    apply BitVec.eq_of_toNat_eq
    rw [BitVec.toNat_sub_of_le (by rw [BitVec.le_def]; omega), hlines,
      BitVec.toNat_ofNat, Nat.mod_eq_of_lt (by omega)]

/-! ## Runs -/

namespace Windows

/-- The mode that the check sets, if the console tells its own. -/
def modeCalls (answers : ConsoleAnswers) : List ConsoleCall :=
  if answers.stdHandle then
    (answers.consoleMode.map fun mode => .setConsoleMode (mode ||| 4)).toList
  else
    []

/-- The check finds that the console accepts escape sequences. -/
def EnablesAnsi (answers : ConsoleAnswers) : Bool :=
  answers.stdHandle && answers.consoleMode.isSome && answers.setsMode

/-- The calls of the console API for one `reset_cursor`: to the start of the row
that many lines above the cursor, or of the first row. -/
def apiCalls (answers : ConsoleAnswers) (lines : BitVec 32) :
    List ConsoleCall :=
  match answers.fallbackHandle, answers.cursorPosition with
  | true, some pos =>
      if lines = 0 then []
      else
        [.setConsoleCursorPosition 0
          (BitVec.ofNat 16 (pos.2.toNat - lines.toNat)), .fflush]
  | _, _ => []

/-- The rows of the cursor are numbered from zero by a `SHORT`. -/
def OnBuffer (answers : ConsoleAnswers) : Prop :=
  ∀ pos ∈ answers.cursorPosition, pos.2.toNat < 2 ^ 15

theorem checkAnsi_unchecked (answers : ConsoleAnswers) :
    checkAnsi answers {} = (modeCalls answers, ⟨EnablesAnsi answers, true⟩) := by
  rw [checkAnsi, if_neg Bool.false_ne_true, modeCalls, EnablesAnsi]
  cases answers.stdHandle with
  | false => rfl
  | true =>
      cases answers.consoleMode with
      | none => rfl
      | some mode => simp

/-- After the check a call takes the way that was settled, and keeps it. -/
theorem resetCursor_of_ne_zero {answers : ConsoleAnswers}
    (hbuffer : OnBuffer answers) {lines : BitVec 32} (hlines : lines ≠ 0)
    {status checked : AnsiStatus} {calls : List ConsoleCall}
    (hcheck : checkAnsi answers status = (calls, checked)) :
    Windows.resetCursor answers lines status =
      (calls ++ (if checked.ansiEnabled then BenchBox.resetCursor lines
        else apiCalls answers lines), checked) := by
  rw [Windows.resetCursor, if_neg hlines, hcheck, BenchBox.resetCursor,
    if_neg hlines, apiCalls]
  dsimp only
  split
  · rfl
  · cases answers.fallbackHandle with
    | false => simp
    | true =>
        cases hpos : answers.cursorPosition with
        | none => simp
        | some pos =>
            have hrow := fallbackRow_eq (hbuffer pos hpos) lines
            simp [hrow]

/-- Without lines nothing is called and nothing is checked. -/
theorem resetCursor_zero (answers : ConsoleAnswers) (status : AnsiStatus) :
    Windows.resetCursor answers 0 status = ([], status) :=
  if_pos rfl

theorem apiCalls_zero (answers : ConsoleAnswers) : apiCalls answers 0 = [] := by
  rw [apiCalls]
  split
  · rfl
  · rfl

/-- Once checked, every call takes the same way. -/
theorem resetCursors_of_checked {resets : List (ConsoleAnswers × BitVec 32)}
    (hbuffer : ∀ reset ∈ resets, OnBuffer reset.1) (enabled : Bool) :
    resetCursors resets ⟨enabled, true⟩ =
      resets.flatMap fun reset =>
        if enabled then BenchBox.resetCursor reset.2
        else apiCalls reset.1 reset.2 := by
  induction resets with
  | nil => rfl
  | cons reset resets ih =>
      obtain ⟨answers, lines⟩ := reset
      rw [List.forall_mem_cons] at hbuffer
      rw [resetCursors, List.flatMap_cons, ← ih hbuffer.2]
      by_cases hlines : lines = 0
      · rw [hlines, resetCursor_zero, apiCalls_zero, BenchBox.resetCursor,
          if_pos rfl, ite_self]
      · have hcheck : checkAnsi answers ⟨enabled, true⟩ =
            ([], ⟨enabled, true⟩) := if_pos rfl
        rw [resetCursor_of_ne_zero hbuffer.1 hlines hcheck]
        rfl

/-- Whatever the platform answers, a run of calls sets the mode once at most, in the
first call with lines to go back.  If that enables escape sequences the run makes
the calls of the other platforms, and otherwise those of the console API. -/
theorem resetCursors_eq (resets : List (ConsoleAnswers × BitVec 32))
    (hbuffer : ∀ reset ∈ resets, OnBuffer reset.1) :
    let first := (resets.find? fun reset => reset.2 != 0).map Prod.fst
    resetCursors resets {} =
      first.toList.flatMap modeCalls ++
        resets.flatMap fun reset =>
          if first.any EnablesAnsi then BenchBox.resetCursor reset.2
          else apiCalls reset.1 reset.2 := by
  induction resets with
  | nil => rfl
  | cons reset resets ih =>
      obtain ⟨answers, lines⟩ := reset
      rw [List.forall_mem_cons] at hbuffer
      dsimp only
      rw [resetCursors, List.flatMap_cons]
      by_cases hlines : lines = 0
      · -- the check is still to come
        rw [hlines, resetCursor_zero, apiCalls_zero, BenchBox.resetCursor,
          if_pos rfl, ite_self, List.find?_cons_of_neg (by simp)]
        exact ih hbuffer.2
      · rw [List.find?_cons_of_pos (by simpa using hlines),
          resetCursor_of_ne_zero hbuffer.1 hlines (checkAnsi_unchecked answers)]
        dsimp only
        rw [resetCursors_of_checked hbuffer.2, Option.map_some, Option.any_some,
          Option.toList_some, List.flatMap_singleton, List.append_assoc]

/-- A console that refuses the mode: nothing to go back, three lines back from row
13, and more lines back than there are. -/
theorem resetCursors_eq_refused :
    let refuses : BitVec 16 → ConsoleAnswers := fun row =>
      ⟨true, some 3, false, true, some (7, row)⟩
    resetCursors [(refuses 13, 0), (refuses 13, 3), (refuses 12, 40)] {} =
      [.setConsoleMode 7, .setConsoleCursorPosition 0 10, .fflush,
        .setConsoleCursorPosition 0 0, .fflush] := by
  intro refuses
  have hbuffer : ∀ row : BitVec 16, row.toNat < 2 ^ 15 →
      OnBuffer (refuses row) := by
    rintro row hrow _ ⟨⟩
    exact hrow
  refine (resetCursors_eq _ ?_).trans (by decide)
  simp only [List.forall_mem_cons]
  exact ⟨hbuffer 13 (by decide), hbuffer 13 (by decide), hbuffer 12 (by decide),
    List.forall_mem_nil _⟩

end Windows

end BenchBox
