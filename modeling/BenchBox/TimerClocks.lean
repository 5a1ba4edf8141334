import BenchBox.Parse
import BenchBox.Support.Intervals
import BenchBox.TimerDetection

/-!
# Clocks on Linux

The timers of `timer.cpp` on Linux with the clocks they read.  A reading of a
clock is a normalized `timespec`.  The laps of a stopwatch are exact, they add
up to the whole time within one unit each, and the overflow check guards all
readings of the announced time.
-/

namespace BenchBox

open FixedWidth Intervals

/-! ## The clocks -/

/-- A `timespec` that a clock returns: time does not start before zero, and the
nanoseconds are less than one second. -/
structure Timespec where
  tvSec : Word .int64
  tvNsec : Word .int64
  tvSec_nonneg : 0 ≤ tvSec.toInt
  tvNsec_nonneg : 0 ≤ tvNsec.toInt
  tvNsec_lt : tvNsec.toInt < 1000000000

namespace Timespec

/-- The time since the clock started. -/
def nanos (ts : Timespec) : ℤ :=
  ts.tvSec.toInt * 1000000000 + ts.tvNsec.toInt

theorem nanos_nonneg (ts : Timespec) : 0 ≤ ts.nanos := by
  have hsec := ts.tvSec_nonneg
  have hnsec := ts.tvNsec_nonneg
  unfold nanos
  omega

/-- The sum of seconds and nanoseconds, in nanoseconds. -/
def nanoseconds (ts : Timespec) : Eval (Word .int64) := do
  let whole ← ts.tvSec.mul (.ofInt .int64 1000000000)
  whole.add ts.tvNsec

end Timespec

/-- `fast_now`, with what `clock_gettime` reads from `CLOCK_MONOTONIC_RAW`. -/
def fastNow (ts : Timespec) : Eval (Word .int64) :=
  ts.nanoseconds

/-- `coarse_now`, with what `clock_gettime` reads from
`CLOCK_MONOTONIC_COARSE`. -/
def coarseNow (ts : Timespec) : Eval (Word .int64) := do
  let whole ← ts.tvSec.mul (.ofInt .int64 1000)
  let part ← ts.tvNsec.div (.ofInt .int64 1000000)
  whole.add part

/-- `detect_linux_underlying_clock` on x86, with the contents of
`current_clocksource` where the file opens. -/
def detectLinuxUnderlyingClock (clocksourceFile : Option StringView)
    (tscInfo : TscClockInfo) : TimerSource :=
  match clocksourceFile with
  | none => .UNKNOWN
  | some text =>
      let clocksource := text.takeWhile (· != '\n')
      if clocksource = "tsc".toList then invOrNotTsc tscInfo
      else if clocksource = "hpet".toList then .HPET
      else if clocksource = "acpi_pm".toList then .ACPI_PM
      else if clocksource = "pit".toList then .PIT
      else .UNKNOWN

/-- `get_linux_clk_frequency_for`, with the resolution that `clock_getres`
returns unless it fails. -/
def getLinuxClkFrequencyFor (res : Option Timespec) : Eval (Word .int64) :=
  match res with
  | none => pure (.ofInt .int64 1000)
  | some res => do
      let nanoseconds ← res.nanoseconds
      if 0 < nanoseconds.toInt then
        (Word.ofInt .int64 1000000000).div nanoseconds
      else
        pure (.ofInt .int64 1000)

/-- The function that initializes `underlying_frequency` in
`create_fast_timer`. -/
def fastUnderlyingFrequency (source : TimerSource) (tscInfo : TscClockInfo)
    (res : Option Timespec) : Eval (Word .int64) :=
  if (source = .INVARIANT_TSC ∨ source = .TSC) ∧
      tscInfo.tscFrequencyHz ≠ 0 then
    pure (.ofInt .int64 tscInfo.tscFrequencyHz.toNat)
  else
    getLinuxClkFrequencyFor res

/-- `create_fast_timer`. -/
def createFastTimer (clocksourceFile : Option StringView)
    (tscInfo : TscClockInfo) (res : Option Timespec) : Eval Timer := do
  let source := detectLinuxUnderlyingClock clocksourceFile tscInfo
  let underlyingFrequency ← fastUnderlyingFrequency source tscInfo res
  pure { reportFrequency := .ofInt .int64 1000000000
         underlyingFrequency := underlyingFrequency
         source := source }

/-- `create_coarse_timer`. -/
def createCoarseTimer (res : Option Timespec) : Eval Timer := do
  let underlyingFrequency ← getLinuxClkFrequencyFor res
  pure { reportFrequency := .ofInt .int64 1000
         underlyingFrequency := underlyingFrequency }

/-! ## What the clocks read -/

theorem int64_inRange_of_le {x : ℤ} (hnonneg : 0 ≤ x)
    (hle : x ≤ IntType.int64.max) : IntType.int64.InRange x :=
  ⟨IntType.int64.min_nonpos.trans hnonneg, hle⟩

/-- A clock counts ticks of its own since it started, and does not go back. -/
structure Counts (now : Timespec → Eval (Word .int64)) (ticks : Timespec → ℤ) :
    Prop where
  nonneg : ∀ ts, 0 ≤ ticks ts
  mono : ∀ ts us, ts.nanos ≤ us.nanos → ticks ts ≤ ticks us
  reads : ∀ ts, ticks ts ≤ IntType.int64.max →
    (now ts).Ensures fun w => w.toInt = ticks ts

theorem counts_fastNow : Counts fastNow Timespec.nanos where
  nonneg := Timespec.nanos_nonneg
  mono := fun _ _ h => h
  reads := by
    intro ts hle
    have hsec := ts.tvSec_nonneg
    have hnsec := ts.tvNsec_nonneg
    unfold Timespec.nanos at hle
    refine (Word.mul_ensures rfl (show _ = (1000000000 : ℤ) by decide)
      (int64_inRange_of_le (by omega) (by omega))).bind ?_
    intro whole hwhole
    exact Word.add_ensures hwhole rfl
      (int64_inRange_of_le (by omega) hle)

/-- The coarse clock cuts off what is less than a millisecond. -/
theorem counts_coarseNow : Counts coarseNow fun ts => ts.nanos / 1000000 where
  nonneg := fun ts => Int.ediv_nonneg ts.nanos_nonneg (by decide)
  mono := fun _ _ h => Int.ediv_le_ediv (by decide) h
  reads := by
    intro ts hle
    have hsec := ts.tvSec_nonneg
    have hnsec := ts.tvNsec_nonneg
    have hpart := Int.tdiv_eq_ediv_of_nonneg (b := 1000000) hnsec
    have hticks : ts.nanos / 1000000 =
        ts.tvSec.toInt * 1000 + ts.tvNsec.toInt.tdiv 1000000 := by
      rw [hpart, Timespec.nanos]
      omega
    rw [hticks] at hle ⊢
    have hpartNonneg : 0 ≤ ts.tvNsec.toInt.tdiv 1000000 :=
      Int.tdiv_nonneg hnsec (by decide)
    refine (Word.mul_ensures rfl (show _ = (1000 : ℤ) by decide)
      (int64_inRange_of_le (by omega) (by omega))).bind ?_
    intro whole hwhole
    refine (Word.div_ensures rfl (show _ = (1000000 : ℤ) by decide)
      (by decide) (ts.tvNsec.inRange.tdiv_of_pos (by decide))).bind ?_
    intro part hpartEq
    exact Word.add_ensures hwhole hpartEq
      (int64_inRange_of_le (by omega) hle)

/-! ## Durations of a clock that does not go back -/

/-- What an interval of ticks has to meet, at `f` ticks per second, so that its
duration is computed exactly. -/
structure Measures (D : DurationType) (f ticks : ℤ) : Prop where
  frequency : 0 < f
  scale : (f - 1) * D.den < 2 ^ 63
  nonneg : 0 ≤ ticks
  ticks_le : ticks ≤ IntType.int64.max
  units_le : ticks * D.den / f ≤ IntType.int64.max

theorem Measures.of_le {D : DurationType} {f ticks shorter : ℤ}
    (h : Measures D f ticks) (hnonneg : 0 ≤ shorter) (hle : shorter ≤ ticks) :
    Measures D f shorter where
  frequency := h.frequency
  scale := h.scale
  nonneg := hnonneg
  ticks_le := hle.trans h.ticks_le
  units_le := (Int.ediv_le_ediv h.frequency
    (mul_le_mul_of_nonneg_right hle D.den_pos.le)).trans h.units_le

/-- The duration is the exact quotient, rounded down. -/
theorem duration_of_measures {D : DurationType} {t : Timer} {f ticks : ℤ}
    (hf : t.reportFrequency.toInt = f) (h : Measures D f ticks)
    {start stop : Word .int64} (hticks : stop.toInt - start.toInt = ticks) :
    (duration D t start stop).Ensures fun w => w.toInt = ticks * D.den / f := by
  subst hf
  obtain ⟨hfrequency, hscale, hnonneg, hdelta, hunits⟩ := h
  have hden := D.den_pos.le
  have hne := Int.ne_of_gt hfrequency
  have hproduct := mul_nonneg hnonneg hden
  have hwhole := mul_nonneg (Int.tdiv_nonneg hnonneg hfrequency.le) hden
  have hrest := mul_nonneg
    (Int.tmod_nonneg t.reportFrequency.toInt hnonneg) hden
  have hpart := Int.tdiv_nonneg hrest hfrequency.le
  have hsplit := mul_tdiv_eq hfrequency hden ticks
  have hbound := (abs_tmod_mul_le hfrequency hden ticks).2
  have hmax : IntType.int64.max = 2 ^ 63 - 1 := by decide
  have hquotient := (int64_inRange_of_le hnonneg hdelta).tdiv_of_pos hfrequency
  have hscaled := int64_inRange_of_le hrest (by omega)
  rw [duration, ticksToDuration, if_neg (not_le.mpr hfrequency)]
  rw [← Int.tdiv_eq_ediv_of_nonneg hproduct] at hunits ⊢
  rw [hsplit] at hunits ⊢
  rw [← hticks] at *
  refine (Word.sub_ensures rfl rfl
    (int64_inRange_of_le hnonneg hdelta)).bind ?_
  intro delta hdeltaEq
  refine (Word.div_ensures hdeltaEq rfl hne hquotient).bind ?_
  intro seconds hsecondsEq
  refine (Word.mul_ensures hsecondsEq D.toInt_unitsPerSecond
    (int64_inRange_of_le hwhole (by omega))).bind ?_
  intro whole hwholeEq
  refine (Word.mod_ensures hdeltaEq rfl hne hquotient).bind ?_
  intro rest hrestEq
  refine (Word.mul_ensures hrestEq D.toInt_unitsPerSecond hscaled).bind ?_
  intro scaled hscaledEq
  refine (Word.div_ensures hscaledEq rfl hne
    (hscaled.tdiv_of_pos hfrequency)).bind ?_
  intro part hpartEq
  exact Word.add_ensures hwholeEq hpartEq
    (int64_inRange_of_le (by omega) hunits)

/-! ## A stopwatch -/

/-- The time between two readings. -/
def elapsed (D : DurationType) (t : Timer)
    (now : Timespec → Eval (Word .int64)) (start stop : Timespec) :
    Eval (Word .int64) := do
  let startTicks ← now start
  let stopTicks ← now stop
  duration D t startTicks stopTicks

/-- The times from each reading to the next one. -/
def lapTimes (D : DurationType) (t : Timer)
    (now : Timespec → Eval (Word .int64)) :
    Timespec → List Timespec → Eval (List (Word .int64))
  | _, [] => pure []
  | start, stop :: laps => do
      let lap ← elapsed D t now start stop
      let rest ← lapTimes D t now stop laps
      pure (lap :: rest)

section Stopwatch

variable {D : DurationType} {t : Timer} {now : Timespec → Eval (Word .int64)}
  {ticks : Timespec → ℤ} {f limit : ℤ}

theorem elapsed_ensures (hf : t.reportFrequency.toInt = f)
    (hcounts : Counts now ticks) (hmeasures : Measures D f limit) {start stop : Timespec}
    (hasc : start.nanos ≤ stop.nanos) (hle : ticks stop ≤ ticks start + limit)
    (hmax : ticks stop ≤ IntType.int64.max) :
    (elapsed D t now start stop).Ensures fun w =>
      w.toInt = (ticks stop - ticks start) * D.den / f := by
  have hmono := hcounts.mono start stop hasc
  refine (hcounts.reads start (hmono.trans hmax)).bind ?_
  intro startTicks hstart
  refine (hcounts.reads stop hmax).bind ?_
  intro stopTicks hstop
  refine duration_of_measures hf (hmeasures.of_le ?_ ?_) ?_
  · exact sub_nonneg.mpr hmono
  · omega
  · rw [hstart, hstop]

/-- Each lap is the gap between its readings, rounded down. -/
theorem lapTimes_ensures (hf : t.reportFrequency.toInt = f)
    (hcounts : Counts now ticks) (hmeasures : Measures D f limit)
    {start : Timespec} {laps : List Timespec}
    (hasc : (start :: laps).Pairwise fun ts us => ts.nanos ≤ us.nanos)
    (hle : ∀ ts ∈ laps, ticks ts ≤ ticks start + limit)
    (hmax : ∀ ts ∈ laps, ticks ts ≤ IntType.int64.max) :
    (lapTimes D t now start laps).Ensures fun times =>
      times.map Word.toInt =
        (gaps (ticks start) (laps.map ticks)).map (· * D.den / f) := by
  induction laps generalizing start with
  | nil => exact Eval.ensures_pure.mpr rfl
  | cons stop laps ih =>
      rw [List.pairwise_cons] at hasc
      have hstop := hasc.1 stop List.mem_cons_self
      have hmono := hcounts.mono start stop hstop
      refine (elapsed_ensures hf hcounts hmeasures hstop
        (hle stop List.mem_cons_self) (hmax stop List.mem_cons_self)).bind ?_
      intro lap hlap
      refine (ih hasc.2 ?_ ?_).bind ?_
      · intro ts hts
        have hstart := hle ts (List.mem_cons_of_mem _ hts)
        omega
      · intro ts hts
        exact hmax ts (List.mem_cons_of_mem _ hts)
      · intro rest hrest
        rw [Eval.ensures_pure, List.map_cons, List.map_cons, gaps,
          List.map_cons, hlap, hrest]

/-- What a caller does who starts a stopwatch, stops some laps and compares them
with the time that the last one ended at. -/
def stopwatch (D : DurationType) (t : Timer)
    (now : Timespec → Eval (Word .int64)) (start : Timespec)
    (laps : List Timespec) : Eval (List (Word .int64) × Word .int64) := do
  let times ← lapTimes D t now start laps
  let total ← elapsed D t now start (laps.getLastD start)
  pure (times, total)

/-- The whole time is `exact`, and the laps fall short of it by less than one
unit for each of them. -/
structure AddUp (exact : ℤ) (laps : ℕ)
    (r : List (Word .int64) × Word .int64) : Prop where
  length_eq : r.1.length = laps
  total_eq : r.2.toInt = exact
  sum_le : (r.1.map Word.toInt).sum ≤ r.2.toInt
  le_sum : r.2.toInt ≤ (r.1.map Word.toInt).sum + (laps - 1 : ℕ)

theorem stopwatch_ensures (hf : t.reportFrequency.toInt = f)
    (hcounts : Counts now ticks) (hmeasures : Measures D f limit)
    {start : Timespec} {laps : List Timespec}
    (hasc : (start :: laps).Pairwise fun ts us => ts.nanos ≤ us.nanos)
    (hle : ∀ ts ∈ laps, ticks ts ≤ ticks start + limit)
    (hmax : ∀ ts ∈ laps, ticks ts ≤ IntType.int64.max)
    (hstart : ticks start ≤ IntType.int64.max) :
    (stopwatch D t now start laps).Ensures
      (AddUp ((ticks (laps.getLastD start) - ticks start) * D.den / f)
        laps.length) := by
  have hnonneg := hmeasures.nonneg
  have hlast : start.nanos ≤ (laps.getLastD start).nanos ∧
      ticks (laps.getLastD start) ≤ ticks start + limit ∧
      ticks (laps.getLastD start) ≤ IntType.int64.max := by
    have hmem : laps.getLastD start ∈ start :: laps := List.getLastD_mem_cons
    rcases List.mem_cons.mp hmem with heq | hmem
    · rw [heq]
      exact ⟨le_rfl, by omega, hstart⟩
    · exact ⟨(List.pairwise_cons.mp hasc).1 _ hmem, hle _ hmem, hmax _ hmem⟩
  obtain ⟨hstop, hstopLe, hstopMax⟩ := hlast
  refine (lapTimes_ensures hf hcounts hmeasures hasc hle hmax).bind ?_
  intro times htimes
  refine (elapsed_ensures hf hcounts hmeasures hstop hstopLe hstopMax).bind ?_
  intro total htotal
  have hbounds := sum_gaps_ediv_bounds hmeasures.frequency D.den
    (ticks start) (laps.map ticks)
  rw [← htimes, List.getLastD_map, List.length_map, ← htotal] at hbounds
  rw [Eval.ensures_pure]
  refine ⟨?_, htotal, hbounds.1, hbounds.2⟩
  have hlength := congrArg List.length htimes
  simpa using hlength

/-- The overflow check leaves room for the last second that it announces. -/
theorem within_of_guard (hf : t.reportFrequency.toInt = f)
    (hfrequency : 0 < f) (hcounts : Counts now ticks) {start : Timespec}
    {seconds : Word .int64} (hstart : ticks start ≤ IntType.int64.max)
    (hguard : (do
      willOverflowWithin t (← now start) seconds).value = false) :
    ticks start + (seconds.toInt + 1) * f ≤ IntType.int64.max := by
  subst hf
  have hnonneg := hcounts.nonneg start
  have hread := (hcounts.reads start hstart).1
  have hanswer : (willOverflowWithin t (now start).value seconds).value =
      true ↔ IntType.int64.max < (now start).value.toInt +
        (seconds.toInt + 1) * t.reportFrequency.toInt :=
    (willOverflowWithin_ensures t (now start).value seconds hfrequency
      (hread ▸ hnonneg)).1
  rw [hread] at hanswer
  rw [← not_lt, ← hanswer, Bool.not_eq_true]
  exact hguard

/-- The overflow check answers for every reading of the announced time. -/
theorem stopwatch_of_guard (hf : t.reportFrequency.toInt = f)
    (hfrequency : 0 < f) (hscale : (f - 1) * D.den < 2 ^ 63)
    (hcounts : Counts now ticks) {start : Timespec} {seconds : Word .int64}
    (hseconds : 0 ≤ seconds.toInt)
    (hunits : (seconds.toInt + 1) * D.den ≤ IntType.int64.max)
    (hstart : ticks start ≤ IntType.int64.max)
    (hguard : (do
      willOverflowWithin t (← now start) seconds).value = false)
    {laps : List Timespec}
    (hasc : (start :: laps).Pairwise fun ts us => ts.nanos ≤ us.nanos)
    (hwithin : ∀ ts ∈ laps, ticks ts ≤ ticks start + (seconds.toInt + 1) * f) :
    (stopwatch D t now start laps).Ensures
      (AddUp ((ticks (laps.getLastD start) - ticks start) * D.den / f)
        laps.length) := by
  have hnonneg := hcounts.nonneg start
  have hsafe := within_of_guard hf hfrequency hcounts hstart hguard
  have hmeasures : Measures D f ((seconds.toInt + 1) * f) := by
    refine ⟨hfrequency, hscale, mul_nonneg (by omega) hfrequency.le,
      by omega, ?_⟩
    rw [mul_right_comm, Int.mul_ediv_cancel _ (Int.ne_of_gt hfrequency)]
    exact hunits
  exact stopwatch_ensures hf hcounts hmeasures hasc hwithin
    (fun ts hts => (hwithin ts hts).trans hsafe) hstart

end Stopwatch

/-! ## The timers of Linux -/

section Linux

variable (clocksourceFile : Option StringView) (tscInfo : TscClockInfo)
  (fastRes coarseRes : Option Timespec)

theorem reportFrequency_createFastTimer :
    (createFastTimer clocksourceFile tscInfo
      fastRes).value.reportFrequency.toInt = 1000000000 := by
  change (Word.ofInt .int64 1000000000).toInt = 1000000000
  decide

theorem reportFrequency_createCoarseTimer :
    (createCoarseTimer coarseRes).value.reportFrequency.toInt = 1000 := by
  change (Word.ofInt .int64 1000).toInt = 1000
  decide

/-- If the fast timer announces no overflow for some seconds, then a stopwatch
overflows nowhere in that time, and its laps add up. -/
theorem stopwatch_createFastTimer (D : DurationType)
    (seconds : Word .int64) {start : Timespec} (hseconds : 0 ≤ seconds.toInt)
    (hstart : start.nanos ≤ IntType.int64.max)
    (hguard : (do
      willOverflowWithin (createFastTimer clocksourceFile tscInfo fastRes).value
        (← fastNow start) seconds).value = false)
    {laps : List Timespec}
    (hasc : (start :: laps).Pairwise fun ts us => ts.nanos ≤ us.nanos)
    (hwithin : ∀ ts ∈ laps, ts.nanos ≤
      start.nanos + (seconds.toInt + 1) * 1000000000) :
    (stopwatch D (createFastTimer clocksourceFile tscInfo fastRes).value fastNow
      start laps).Ensures
      (AddUp (((laps.getLastD start).nanos - start.nanos) * D.den / 1000000000)
        laps.length) := by
  have hfrequency :=
    reportFrequency_createFastTimer clocksourceFile tscInfo fastRes
  have hsafe := within_of_guard hfrequency (by decide) counts_fastNow hstart
    hguard
  have hnonneg := start.nanos_nonneg
  have hscale : (1000000000 - 1) * D.den < 2 ^ 63 := by cases D <;> decide
  have hden : D.den ≤ 1000000000 := by cases D <;> decide
  have hunits : (seconds.toInt + 1) * D.den ≤
      (seconds.toInt + 1) * 1000000000 :=
    mul_le_mul_of_nonneg_left hden (by omega)
  exact stopwatch_of_guard hfrequency (by decide) hscale counts_fastNow
    hseconds (by omega) hstart hguard hasc hwithin

/-- On the same clock the milliseconds of the two timers differ by one at most,
and by the lag of the coarse clock where that is behind. -/
theorem createCoarseTimer_agrees (lag : ℤ)
    {start stop coarseStart coarseStop : Timespec}
    (hasc : start.nanos ≤ stop.nanos)
    (hcoarse : coarseStart.nanos ≤ coarseStop.nanos)
    (hstart : coarseStart.nanos ≤ start.nanos ∧
      start.nanos ≤ coarseStart.nanos + lag * 1000000)
    (hstop : coarseStop.nanos ≤ stop.nanos ∧
      stop.nanos ≤ coarseStop.nanos + lag * 1000000)
    (hmax : stop.nanos ≤ IntType.int64.max) :
    (do
      let fast ← elapsed .milliseconds
        (createFastTimer clocksourceFile tscInfo fastRes).value fastNow
        start stop
      let coarse ← elapsed .milliseconds (createCoarseTimer coarseRes).value
        coarseNow coarseStart coarseStop
      pure (fast, coarse)).Ensures fun r =>
        -lag ≤ r.2.toInt - r.1.toInt ∧ r.2.toInt - r.1.toInt ≤ lag + 1 := by
  have hmaxEq : IntType.int64.max = 2 ^ 63 - 1 := by decide
  have hden : DurationType.milliseconds.den = 1000 := rfl
  have hstartNonneg := start.nanos_nonneg
  have hcoarseNonneg := coarseStart.nanos_nonneg
  have hfastMeasures : Measures .milliseconds 1000000000
      (stop.nanos - start.nanos) :=
    ⟨by decide, by decide, by omega, by omega, by rw [hden]; omega⟩
  have hcoarseMeasures : Measures .milliseconds 1000
      (coarseStop.nanos / 1000000 - coarseStart.nanos / 1000000) :=
    ⟨by decide, by decide, by omega, by omega, by rw [hden]; omega⟩
  refine (elapsed_ensures
    (reportFrequency_createFastTimer clocksourceFile tscInfo fastRes)
    counts_fastNow hfastMeasures hasc (by omega) hmax).bind ?_
  intro fast hfast
  refine (elapsed_ensures (reportFrequency_createCoarseTimer coarseRes)
    counts_coarseNow hcoarseMeasures hcoarse (by omega) (by omega)).bind ?_
  intro coarse hcoarseEq
  rw [Eval.ensures_pure, hfast, hcoarseEq, hden]
  omega

end Linux

/-- Two laps of one and a half milliseconds are a millisecond each and three
milliseconds together. -/
theorem stopwatch_createFastTimer_two :
    (stopwatch .milliseconds
      (createFastTimer (some "tsc\n".toList) { isInvariantTsc := true }
        none).value fastNow
      ⟨.ofInt .int64 100, .ofInt .int64 0, by decide, by decide, by decide⟩
      [⟨.ofInt .int64 100, .ofInt .int64 1500000, by decide, by decide,
          by decide⟩,
        ⟨.ofInt .int64 100, .ofInt .int64 3000000, by decide, by decide,
          by decide⟩]).Ensures (AddUp 3 2) :=
  stopwatch_createFastTimer (some "tsc\n".toList) { isInvariantTsc := true }
    none .milliseconds (.ofInt .int64 3600) (by decide) (by decide) (by decide)
    (by decide) (by decide)

/-- Five milliseconds that the coarse clock, which is four milliseconds behind at
the start, takes for nine. -/
theorem createCoarseTimer_agrees_five :
    (do
      let fast ← elapsed .milliseconds
        (createFastTimer none {} none).value fastNow
        ⟨.ofInt .int64 7, .ofInt .int64 4000000, by decide, by decide,
          by decide⟩
        ⟨.ofInt .int64 7, .ofInt .int64 9000000, by decide, by decide,
          by decide⟩
      let coarse ← elapsed .milliseconds (createCoarseTimer none).value
        coarseNow
        ⟨.ofInt .int64 7, .ofInt .int64 0, by decide, by decide, by decide⟩
        ⟨.ofInt .int64 7, .ofInt .int64 9000000, by decide, by decide,
          by decide⟩
      pure (fast, coarse)).Ensures fun r =>
        -4 ≤ r.2.toInt - r.1.toInt ∧ r.2.toInt - r.1.toInt ≤ 4 + 1 :=
  createCoarseTimer_agrees none {} none none 4 (by decide) (by decide)
    (by decide) (by decide) (by decide)

end BenchBox
