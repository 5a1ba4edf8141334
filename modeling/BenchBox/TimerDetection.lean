import BenchBox.Isa.TscClock
import BenchBox.Timer

/-!
# The source of a timer

`detect_timer_source_from_freq` on Windows classifies the frequency of the
performance counter by a chain of tests, and asks CPUID where the frequency
alone does not decide.
-/

namespace BenchBox

open FixedWidth

/-! ## Thresholds -/

/-- `hpet_min_threshold`, about 10 MHz. -/
def hpetMinThreshold : ℤ := 10000000

/-- `typical_hpet_min`, which the source writes as `14'3100'000`. -/
def typicalHpetMin : ℤ := 143100000

/-- `typical_hpet_max`, which the source writes as `14'3300'000`. -/
def typicalHpetMax : ℤ := 143300000

/-- `hpet_max_threshold`, about 100 MHz. -/
def hpetMaxThreshold : ℤ := 100000000

/-- `acpi_khz`. -/
def acpiKhz : ℤ := 3579

/-- `pit_frequency`. -/
def pitFrequency : ℤ := 1193182

/-- `rtc_frequency`. -/
def rtcFrequency : ℤ := 32000000

/-- `inv_or_not_tsc`. -/
def invOrNotTsc (tscInfo : TscClockInfo) : TimerSource :=
  if tscInfo.isInvariantTsc then .INVARIANT_TSC else .TSC

/-- `detect_timer_source_from_freq`, with what `get_tsc_clock_info` returns. -/
def detectTimerSourceFromFreq (tscInfo : TscClockInfo)
    (frequency : Word .int64) : TimerSource :=
  if frequency.toInt = pitFrequency then .PIT
  else if frequency.toInt = rtcFrequency then .RTC
  else if frequency.toInt.tdiv 1000 = acpiKhz then .ACPI_PM
  else if frequency.toInt < typicalHpetMax ∧
      frequency.toInt > typicalHpetMin then .HPET
  else if frequency.toInt ≥ hpetMaxThreshold then .TSC
  else if frequency.toInt = hpetMinThreshold then invOrNotTsc tscInfo
  else if frequency.toInt > hpetMinThreshold then
    if tscInfo.tscFrequencyHz ≠ 0 then
      if tscInfo.tscFrequencyHz = BitVec.ofInt 64 frequency.toInt then
        invOrNotTsc tscInfo
      else .HPET
    else .UNKNOWN
  else .UNKNOWN

/-! ## Consistency -/

/-- `HPET` is answered between its thresholds only, and `TSC` for a counter that
is not invariant only. -/
structure Consistent (tscInfo : TscClockInfo) (frequency : Word .int64)
    (source : TimerSource) : Prop where
  hpet : source = .HPET → hpetMinThreshold < frequency.toInt ∧
    frequency.toInt < hpetMaxThreshold
  tsc : source = .TSC → tscInfo.isInvariantTsc = false

section Consistency

variable {tscInfo : TscClockInfo} {frequency : Word .int64}

theorem consistent_of_ne {source : TimerSource} (hhpet : source ≠ .HPET)
    (htsc : source ≠ .TSC) : Consistent tscInfo frequency source :=
  ⟨fun h => absurd h hhpet, fun h => absurd h htsc⟩

theorem consistent_invOrNotTsc :
    Consistent tscInfo frequency (invOrNotTsc tscInfo) := by
  unfold invOrNotTsc
  split
  · exact consistent_of_ne (by decide) (by decide)
  · rename_i hvariant
    rw [Bool.not_eq_true] at hvariant
    exact ⟨fun h => absurd h (by decide), fun _ => hvariant⟩

/-- Below the upper threshold every branch keeps to the thresholds. -/
theorem consistent_of_lt (h : frequency.toInt < hpetMaxThreshold) :
    Consistent tscInfo frequency
      (detectTimerSourceFromFreq tscInfo frequency) := by
  have htypical : ¬(frequency.toInt < typicalHpetMax ∧
      frequency.toInt > typicalHpetMin) := by
    unfold hpetMaxThreshold at h
    unfold typicalHpetMax typicalHpetMin
    omega
  rw [detectTimerSourceFromFreq, if_neg htypical, if_neg (not_le.mpr h)]
  split
  · exact consistent_of_ne (by decide) (by decide)
  · split
    · exact consistent_of_ne (by decide) (by decide)
    · split
      · exact consistent_of_ne (by decide) (by decide)
      · split
        · exact consistent_invOrNotTsc
        · split
          · rename_i habove
            split
            · split
              · exact consistent_invOrNotTsc
              · -- the answer that is left where CPUID has another frequency
                exact ⟨fun _ => ⟨habove, h⟩, fun htsc => absurd htsc (by decide)⟩
            · exact consistent_of_ne (by decide) (by decide)
          · exact consistent_of_ne (by decide) (by decide)

/-- From the upper threshold on CPUID is not asked any more. -/
theorem detectTimerSourceFromFreq_of_ge
    (h : hpetMaxThreshold ≤ frequency.toInt) :
    detectTimerSourceFromFreq tscInfo frequency =
      if frequency.toInt < typicalHpetMax ∧
        frequency.toInt > typicalHpetMin then .HPET else .TSC := by
  have hlarge : 100000000 ≤ frequency.toInt := h
  have hpit : frequency.toInt ≠ pitFrequency := by
    unfold pitFrequency
    omega
  have hrtc : frequency.toInt ≠ rtcFrequency := by
    unfold rtcFrequency
    omega
  have hacpi : frequency.toInt.tdiv 1000 ≠ acpiKhz := by
    rw [Int.tdiv_eq_ediv_of_nonneg (by omega), acpiKhz]
    omega
  rw [detectTimerSourceFromFreq, if_neg hpit, if_neg hrtc, if_neg hacpi,
    if_pos h]

/-- The answer keeps to the thresholds for every frequency below the upper one,
and from there on if the frequency is not taken for a typical one and the counter
is not invariant. -/
theorem detectTimerSourceFromFreq_consistent_iff (tscInfo : TscClockInfo)
    (frequency : Word .int64) :
    Consistent tscInfo frequency
        (detectTimerSourceFromFreq tscInfo frequency) ↔
      frequency.toInt < hpetMaxThreshold ∨
        (¬(typicalHpetMin < frequency.toInt ∧
            frequency.toInt < typicalHpetMax) ∧
          tscInfo.isInvariantTsc = false) := by
  rcases lt_or_ge frequency.toInt hpetMaxThreshold with hlt | hge
  · exact iff_of_true (consistent_of_lt hlt) (Or.inl hlt)
  rw [detectTimerSourceFromFreq_of_ge hge, or_iff_right hge.not_gt]
  by_cases htypical : frequency.toInt < typicalHpetMax ∧
      frequency.toInt > typicalHpetMin
  · rw [if_pos htypical]
    constructor
    · intro hconsistent
      exact absurd (hconsistent.hpet rfl).2 hge.not_gt
    · rintro ⟨hatypical, -⟩
      exact absurd htypical.symm hatypical
  · rw [if_neg htypical]
    constructor
    · intro hconsistent
      exact ⟨fun h => htypical h.symm, hconsistent.tsc rfl⟩
    · rintro ⟨-, hvariant⟩
      exact ⟨fun h => absurd h (by decide), fun _ => hvariant⟩

end Consistency

/-- A counter of 143.2 MHz is taken for a typical HPET, and an invariant counter
of 3 GHz for one that is not invariant. -/
theorem not_consistent_typical_and_invariant :
    ¬Consistent {} (.ofInt .int64 143200000)
        (detectTimerSourceFromFreq {} (.ofInt .int64 143200000)) ∧
      ¬Consistent { isInvariantTsc := true } (.ofInt .int64 3000000000)
        (detectTimerSourceFromFreq { isInvariantTsc := true }
          (.ofInt .int64 3000000000)) := by
  constructor
  · intro hconsistent
    exact absurd (hconsistent.hpet (by decide)).2 (by decide)
  · intro hconsistent
    exact absurd (hconsistent.tsc (by decide)) (by decide)

end BenchBox
