import BenchBox.Support.FixedWidth

/-!
# Timers

The conversion of tick counts to durations and the overflow check of
`timer.cpp`, in `int64_t` arithmetic.
-/

namespace BenchBox

open FixedWidth

/-- `timer_source`. -/
inductive TimerSource where
  | UNKNOWN
  | TSC
  | INVARIANT_TSC
  | HPET
  | ACPI_PM
  | PIT
  | RTC
deriving DecidableEq

/-- `timer`. -/
structure Timer where
  reportFrequency : Word .int64 := .ofInt .int64 0
  underlyingFrequency : Word .int64 := .ofInt .int64 0
  source : TimerSource := .UNKNOWN
deriving DecidableEq

/-- The types of `std::chrono` that `duration` is instantiated for. -/
inductive DurationType where
  | seconds
  | milliseconds
  | microseconds
  | nanoseconds
deriving DecidableEq

namespace DurationType

/-- `Duration::period::num`. -/
def num : DurationType → ℤ
  | _ => 1

/-- `Duration::period::den`. -/
def den : DurationType → ℤ
  | seconds => 1
  | milliseconds => 1000
  | microseconds => 1000000
  | nanoseconds => 1000000000

def unitsPerSecond (D : DurationType) : Word .int64 :=
  .ofInt .int64 (D.den / D.num)

theorem toInt_unitsPerSecond (D : DurationType) :
    D.unitsPerSecond.toInt = D.den := by
  cases D <;> decide

theorem den_pos (D : DurationType) : 0 < D.den := by
  cases D <;> decide

end DurationType

/-- `ticks_to_duration`. -/
def ticksToDuration (D : DurationType) (start stop frequency : Word .int64) :
    Eval (Word .int64) :=
  if frequency.toInt ≤ 0 then
    pure (.ofInt .int64 0)
  else do
    let delta ← stop.sub start
    let seconds ← delta.div frequency
    let whole ← seconds.mul D.unitsPerSecond
    let rest ← delta.mod frequency
    let scaled ← rest.mul D.unitsPerSecond
    let part ← scaled.div frequency
    whole.add part

/-- `duration`. -/
def duration (D : DurationType) (t : Timer) (start stop : Word .int64) :
    Eval (Word .int64) :=
  ticksToDuration D start stop t.reportFrequency

/-- `seconds_until_overflow`. -/
def secondsUntilOverflow (now frequency : Word .int64) : Eval (Word .int64) :=
  if frequency.toInt ≤ 0 then
    pure (Word.max .int64)
  else do
    let left ← (Word.max .int64).sub now
    left.div frequency

/-- `will_overflow_within`. -/
def willOverflowWithin (t : Timer) (now seconds : Word .int64) : Eval Bool := do
  let untilOverflow ← secondsUntilOverflow now t.reportFrequency
  pure (decide (untilOverflow.toInt ≤ seconds.toInt))

/-! ## Durations -/

theorem int64_inRange_iff {x : ℤ} :
    IntType.int64.InRange x ↔ -2 ^ 63 ≤ x ∧ x < 2 ^ 63 := by
  have hmin : IntType.int64.min = -2 ^ 63 := by decide
  have hmax : IntType.int64.max = 2 ^ 63 - 1 := by decide
  rw [IntType.InRange, hmin, hmax]
  omega

/-- Splitting off the whole seconds keeps every product in range, and the result
is the exact quotient rounded toward zero. -/
theorem duration_ensures (D : DurationType) (t : Timer)
    (start stop : Word .int64) (hfrequency : 0 < t.reportFrequency.toInt)
    (hscale : (t.reportFrequency.toInt - 1) * D.den < 2 ^ 63)
    (hdelta : IntType.int64.InRange (stop.toInt - start.toInt))
    (hexact : IntType.int64.InRange
      (((stop.toInt - start.toInt) * D.den).tdiv t.reportFrequency.toInt)) :
    (duration D t start stop).Ensures fun w =>
      w.toInt =
        ((stop.toInt - start.toInt) * D.den).tdiv t.reportFrequency.toInt := by
  have hunits := D.toInt_unitsPerSecond
  have hden := D.den_pos.le
  have hne := Int.ne_of_gt hfrequency
  have hquotient := hdelta.tdiv_of_pos hfrequency
  have hwhole := hexact.of_between
    (tdiv_mul_between hfrequency hden (stop.toInt - start.toInt))
  have hscaled : IntType.int64.InRange
      ((stop.toInt - start.toInt).tmod t.reportFrequency.toInt * D.den) := by
    have hbounds :=
      abs_tmod_mul_le hfrequency hden (stop.toInt - start.toInt)
    rw [int64_inRange_iff]
    omega
  rw [duration, ticksToDuration, if_neg (not_le.mpr hfrequency)]
  rw [mul_tdiv_eq hfrequency hden] at hexact ⊢
  refine (Word.sub_ensures rfl rfl hdelta).bind ?_
  intro delta hdeltaEq
  refine (Word.div_ensures hdeltaEq rfl hne hquotient).bind ?_
  intro seconds hsecondsEq
  refine (Word.mul_ensures hsecondsEq hunits hwhole).bind ?_
  intro whole hwholeEq
  refine (Word.mod_ensures hdeltaEq rfl hne hquotient).bind ?_
  intro rest hrestEq
  refine (Word.mul_ensures hrestEq hunits hscaled).bind ?_
  intro scaled hscaledEq
  refine (Word.div_ensures hscaledEq rfl hne
    (hscaled.tdiv_of_pos hfrequency)).bind ?_
  intro part hpartEq
  exact Word.add_ensures hwholeEq hpartEq hexact

/-- Ten ticks backwards at three ticks per second, in milliseconds. -/
theorem duration_ensures_backwards :
    (duration .milliseconds ⟨.ofInt .int64 3, .ofInt .int64 0, .UNKNOWN⟩
      (.ofInt .int64 10) (.ofInt .int64 0)).Ensures
        fun w => w.toInt = -3333 :=
  duration_ensures .milliseconds
    ⟨.ofInt .int64 3, .ofInt .int64 0, .UNKNOWN⟩
    (.ofInt .int64 10) (.ofInt .int64 0)
    (by decide) (by decide) (by decide) (by decide)

/-! ## Overflow of the clock -/

/-- The time left is rounded down to whole seconds. -/
theorem secondsUntilOverflow_ensures {now frequency : Word .int64}
    (hfrequency : 0 < frequency.toInt) (hnow : 0 ≤ now.toInt) :
    (secondsUntilOverflow now frequency).Ensures fun w =>
      w.toInt = (IntType.int64.max - now.toInt) / frequency.toInt := by
  have hmax := IntType.int64.max_inRange
  have hleft : 0 ≤ IntType.int64.max - now.toInt :=
    sub_nonneg.mpr now.inRange.2
  have hrange : IntType.int64.InRange (IntType.int64.max - now.toInt) :=
    hmax.of_between (by omega)
  rw [secondsUntilOverflow, if_neg (not_le.mpr hfrequency),
    ← Int.tdiv_eq_ediv_of_nonneg hleft]
  refine (Word.sub_ensures (Word.toInt_max _) rfl hrange).bind ?_
  intro left hleftEq
  exact Word.div_ensures hleftEq rfl (Int.ne_of_gt hfrequency)
    (hrange.tdiv_of_pos hfrequency)

/-- The check answers for the end of the last second, not for its beginning. -/
theorem willOverflowWithin_ensures (t : Timer) (now seconds : Word .int64)
    (hfrequency : 0 < t.reportFrequency.toInt) (hnow : 0 ≤ now.toInt) :
    (willOverflowWithin t now seconds).Ensures fun answer =>
      answer = true ↔
        IntType.int64.max <
          now.toInt + (seconds.toInt + 1) * t.reportFrequency.toInt := by
  refine (secondsUntilOverflow_ensures hfrequency hnow).bind ?_
  intro untilOverflow huntil
  rw [Eval.ensures_pure, decide_eq_true_eq, huntil,
    Int.ediv_le_iff_le_mul hfrequency, add_mul, one_mul]
  omega

/-- The check is right except in the second in which the counter overflows. -/
theorem willOverflowWithin_iff (t : Timer) (now seconds : Word .int64)
    (hfrequency : 0 < t.reportFrequency.toInt) (hnow : 0 ≤ now.toInt) :
    ((willOverflowWithin t now seconds).value = true ↔
        IntType.int64.max <
          now.toInt + seconds.toInt * t.reportFrequency.toInt) ↔
      ¬(now.toInt + seconds.toInt * t.reportFrequency.toInt ≤
          IntType.int64.max ∧
        IntType.int64.max <
          now.toInt + (seconds.toInt + 1) * t.reportFrequency.toInt) := by
  obtain ⟨hanswer, -⟩ :=
    willOverflowWithin_ensures t now seconds hfrequency hnow
  rw [hanswer, add_mul, one_mul]
  omega

/-- Within an hour of a clock in nanoseconds that has just started. -/
theorem willOverflowWithin_iff_hour :
    (willOverflowWithin
        ⟨.ofInt .int64 1000000000, .ofInt .int64 0, .UNKNOWN⟩
        (.ofInt .int64 0) (.ofInt .int64 3600)).value = true ↔
      IntType.int64.max < 0 + 3600 * 1000000000 :=
  (willOverflowWithin_iff
    ⟨.ofInt .int64 1000000000, .ofInt .int64 0, .UNKNOWN⟩
    (.ofInt .int64 0) (.ofInt .int64 3600) (by decide) (by decide)).mpr
    (by decide)

/-- At the last tick the check announces an overflow within no time. -/
theorem willOverflowWithin_zero_seconds :
    (willOverflowWithin
        ⟨.ofInt .int64 1000000000, .ofInt .int64 0, .UNKNOWN⟩
        (Word.max .int64) (.ofInt .int64 0)).value = true ∧
      ¬IntType.int64.max <
        (Word.max .int64).toInt + (Word.ofInt .int64 0).toInt * 1000000000 := by
  decide

end BenchBox
