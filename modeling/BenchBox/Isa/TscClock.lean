import BenchBox.Isa.Cpuid
import BenchBox.Support.FixedWidth

/-!
# The frequency of the time-stamp counter

`get_tsc_clock_info` merges two sources: leaf 0x15, whose registers are the
crystal clock in hertz and a ratio, and leaf 0x16, which holds the base frequency
in megahertz.  Registers are signed numbers that are widened to 64 bits.
-/

namespace BenchBox

open FixedWidth

/-- The registers of leaf 0x15, after widening. -/
structure TscRatio where
  tscRatioDenominator : BitVec 64 := 0
  tscRatioNumerator : BitVec 64 := 0
  crystalClockHz : BitVec 64 := 0

/-- `tsc_clock_info`. -/
structure TscClockInfo where
  isInvariantTsc : Bool := false
  tscFrequencyHz : BitVec 64 := 0
  crystalClockHz : BitVec 64 := 0
deriving DecidableEq

/-- `static_cast<uint64_t>` of a signed register. -/
def widen (reg : BitVec 32) : BitVec 64 :=
  reg.signExtend 64

def TscRatio.ofRegs (r : Regs) : TscRatio where
  tscRatioDenominator := widen r.eax
  tscRatioNumerator := widen r.ebx
  crystalClockHz := widen r.ecx

/-- The frequency that leaf 0x15 gives, unless it is too small. -/
def ratioFrequencyHz (ratio : TscRatio) : Eval (BitVec 64) := do
  let product ← umul ratio.crystalClockHz ratio.tscRatioNumerator
  let hz := product / ratio.tscRatioDenominator
  pure (if 100000000#64 ≤ hz then hz else 0)

/-- `if (max_basic >= 0x15)`. -/
def readRatio (cpu : Cpu) : TscRatio :=
  if (0x15#32).sle (cpu.cpuid 0 0).eax then .ofRegs (cpu.cpuid 0x15 0) else {}

/-- `if (max_basic >= 0x16)`, of which only the base frequency is used. -/
def readBaseFrequencyMhz (cpu : Cpu) : BitVec 64 :=
  if (0x16#32).sle (cpu.cpuid 0 0).eax then
    widen ((cpu.cpuid 0x16 0).eax &&& 0xFFFF#32)
  else 0

/-- The ratio has precedence over the base frequency. -/
def frequencyHz (ratio : TscRatio) (baseFrequencyMhz : BitVec 64) :
    Eval (BitVec 64) :=
  if ratio.crystalClockHz ≠ 0 ∧ ratio.tscRatioNumerator ≠ 0 ∧
      ratio.tscRatioDenominator ≠ 0 then
    ratioFrequencyHz ratio
  else
    umul baseFrequencyMhz 1000#64

/-- `get_tsc_clock_info`. -/
def getTscClockInfo (cpu : Cpu) : Eval TscClockInfo := do
  let isInvariantTsc := bit (cpu.cpuid 0x80000007 0).edx 8
  let ratio := readRatio cpu
  let tscFrequencyHz ← frequencyHz ratio (readBaseFrequencyMhz cpu)
  pure { isInvariantTsc, tscFrequencyHz,
         crystalClockHz := ratio.crystalClockHz }

/-! ## The frequency in hertz -/

/-- Frequencies below 100 MHz count as unknown. -/
def plausibleHz (hz : ℕ) : ℕ :=
  if 100000000 ≤ hz then hz else 0

theorem plausibleHz_eq_zero_iff {hz : ℕ} :
    plausibleHz hz = 0 ↔ hz < 100000000 := by
  unfold plausibleHz
  split
  · omega
  · omega

theorem plausibleHz_le (hz : ℕ) : plausibleHz hz ≤ hz := by
  unfold plausibleHz
  split
  · omega
  · omega

/-- The leaves cover crystal clock, numerator and denominator. -/
def RatioAvailable (cpu : Cpu) : Prop :=
  0x15 ≤ (cpu.cpuid 0 0).eax.toNat ∧ (cpu.cpuid 0x15 0).ecx ≠ 0 ∧
    (cpu.cpuid 0x15 0).ebx ≠ 0 ∧ (cpu.cpuid 0x15 0).eax ≠ 0

instance (cpu : Cpu) : Decidable (RatioAvailable cpu) :=
  inferInstanceAs (Decidable (_ ∧ _))

/-- The base frequency in MHz, with registers read as unsigned numbers. -/
def baseMhz (cpu : Cpu) : ℕ :=
  if 0x16 ≤ (cpu.cpuid 0 0).eax.toNat then
    ((cpu.cpuid 0x16 0).eax &&& 0xFFFF#32).toNat
  else 0

/-- The frequency in Hz, with registers read as unsigned numbers. -/
def trueFrequencyHz (cpu : Cpu) : ℕ :=
  if RatioAvailable cpu then
    plausibleHz ((cpu.cpuid 0x15 0).ecx.toNat * (cpu.cpuid 0x15 0).ebx.toNat /
      (cpu.cpuid 0x15 0).eax.toNat)
  else baseMhz cpu * 1000000

/-! ## Widening -/

section Widening

variable {x y d : BitVec 32}

theorem widen_of_lt (hx : x.toNat < 2 ^ 31) : (widen x).toNat = x.toNat :=
  toNat_signExtend_of_lt (by decide) hx

theorem widen_of_le (hx : 2 ^ 31 ≤ x.toNat) :
    (widen x).toNat = x.toNat + (2 ^ 64 - 2 ^ 32) :=
  toNat_signExtend_of_le (by decide) hx

@[simp] theorem widen_eq_zero_iff : widen x = 0 ↔ x = 0 :=
  signExtend_eq_zero_iff (by decide)

theorem toNat_widen_eq_one_iff : (widen x).toNat = 1 ↔ x.toNat = 1 := by
  rcases lt_or_ge x.toNat (2 ^ 31) with hx | hx
  · rw [widen_of_lt hx]
  · rw [widen_of_le hx]
    omega

theorem toNat_widen_pos (hx : x ≠ 0) : 0 < (widen x).toNat :=
  BitVec.toNat_pos_of_ne_zero (fun hzero => hx (widen_eq_zero_iff.mp hzero))

/-- A register with the sign bit is so large after widening that no factor but 1
keeps the product below 2^64. -/
theorem widen_mul_lt_iff (hx : 2 ^ 31 ≤ x.toNat) (hy : y ≠ 0) :
    (widen x).toNat * (widen y).toNat < 2 ^ 64 ↔ y.toNat = 1 := by
  have hlarge : 2 ^ 63 ≤ (widen x).toNat := by
    rw [widen_of_le hx]
    omega
  have hpos := toNat_widen_pos hy
  rw [← toNat_widen_eq_one_iff]
  constructor
  · intro hlt
    by_contra hne
    have htwo : 2 ≤ (widen y).toNat := by omega
    have hmul := Nat.mul_le_mul hlarge htwo
    omega
  · intro hone
    rw [hone, mul_one]
    exact (widen x).isLt

/-- Such a register is divided correctly only by another one: the quotient is too
small to count either way. -/
theorem plausibleHz_widen_iff (hx : 2 ^ 31 ≤ x.toNat) (hd : d ≠ 0) :
    plausibleHz ((widen x).toNat / (widen d).toNat) =
        plausibleHz (x.toNat / d.toNat) ↔
      2 ^ 31 ≤ d.toNat := by
  have hpos := BitVec.toNat_pos_of_ne_zero hd
  have hwide := widen_of_le hx
  have hlt := x.isLt
  rcases lt_or_ge d.toNat (2 ^ 31) with hsmall | hlarge
  · rw [widen_of_lt hsmall]
    have hquot : 2 ^ 33 - 1 ≤ (widen x).toNat / d.toNat := by
      rw [Nat.le_div_iff_mul_le hpos]
      omega
    have hle := (plausibleHz_le _).trans (Nat.div_le_self x.toNat d.toNat)
    have hkept : plausibleHz ((widen x).toNat / d.toNat) =
        (widen x).toNat / d.toNat := if_pos (by omega)
    omega
  · have hwideD := widen_of_le hlarge
    have hquotWide : (widen x).toNat / (widen d).toNat < 2 := by
      rw [Nat.div_lt_iff_lt_mul (by omega)]
      have hlt64 := (widen x).isLt
      omega
    have hquot : x.toNat / d.toNat < 2 := by
      rw [Nat.div_lt_iff_lt_mul hpos]
      omega
    rw [plausibleHz_eq_zero_iff.mpr (by omega),
      plausibleHz_eq_zero_iff.mpr (by omega)]
    exact iff_of_true rfl hlarge

/-- The registers for which widening, multiplying and dividing give what they do as
unsigned numbers. -/
def RatioExact (c n d : BitVec 32) : Prop :=
  if d.toNat < 2 ^ 31 then c.toNat < 2 ^ 31 ∧ n.toNat < 2 ^ 31
  else c.toNat * n.toNat < 100000000 * d.toNat ∧
    ((c.toNat < 2 ^ 31 ∧ n.toNat < 2 ^ 31) ∨ c.toNat = 1 ∨ n.toNat = 1)

/-- The case of a factor with the sign bit. -/
theorem ratio_large_iff (hx : 2 ^ 31 ≤ x.toNat) (hy : y ≠ 0) (hd : d ≠ 0) :
    (widen x).toNat * (widen y).toNat < 2 ^ 64 ∧
        plausibleHz ((widen x).toNat * (widen y).toNat / (widen d).toNat) =
          plausibleHz (x.toNat * y.toNat / d.toNat) ↔
      y.toNat = 1 ∧ 2 ^ 31 ≤ d.toNat := by
  rw [widen_mul_lt_iff hx hy]
  refine and_congr_right ?_
  intro hone
  rw [toNat_widen_eq_one_iff.mpr hone, hone, mul_one, mul_one]
  exact plausibleHz_widen_iff hx hd

/-- The case of two factors without it. -/
theorem ratio_small_iff (hx : x.toNat < 2 ^ 31) (hy : y.toNat < 2 ^ 31)
    (hd : d ≠ 0) :
    (widen x).toNat * (widen y).toNat < 2 ^ 64 ∧
        plausibleHz ((widen x).toNat * (widen y).toNat / (widen d).toNat) =
          plausibleHz (x.toNat * y.toNat / d.toNat) ↔
      (2 ^ 31 ≤ d.toNat → x.toNat * y.toNat < 100000000 * d.toNat) := by
  have hprod : x.toNat * y.toNat < 2 ^ 62 := by
    calc x.toNat * y.toNat < 2 ^ 31 * 2 ^ 31 := Nat.mul_lt_mul'' hx hy
      _ = 2 ^ 62 := (pow_add 2 31 31).symm
  have hpos := BitVec.toNat_pos_of_ne_zero hd
  rw [widen_of_lt hx, widen_of_lt hy]
  rcases lt_or_ge d.toNat (2 ^ 31) with hsmall | hlarge
  · rw [widen_of_lt hsmall]
    refine iff_of_true ⟨by omega, rfl⟩ ?_
    intro hge
    omega
  · -- the widened denominator exceeds every product
    have hlt : x.toNat * y.toNat < (widen d).toNat := by
      rw [widen_of_le hlarge]
      omega
    have hzero := Nat.div_eq_of_lt hlt
    have hnone : plausibleHz 0 = 0 := Nat.le_zero.mp (plausibleHz_le 0)
    rw [hzero, hnone, eq_comm (a := 0), plausibleHz_eq_zero_iff,
      Nat.div_lt_iff_lt_mul hpos]
    constructor
    · rintro ⟨-, hbelow⟩ -
      exact hbelow
    · intro hbelow
      exact ⟨hlt.trans (widen d).isLt, hbelow hlarge⟩

theorem ratioExact_comm : RatioExact x y d ↔ RatioExact y x d := by
  unfold RatioExact
  rw [mul_comm x.toNat, and_comm (a := x.toNat < 2 ^ 31),
    or_comm (a := x.toNat = 1)]

theorem ratioExact_of_large (hx : 2 ^ 31 ≤ x.toNat) :
    RatioExact x y d ↔ y.toNat = 1 ∧ 2 ^ 31 ≤ d.toNat := by
  have hlt := x.isLt
  unfold RatioExact
  split
  · omega
  · constructor
    · rintro ⟨-, hsmall | hone⟩
      · omega
      · omega
    · rintro ⟨hone, hlarge⟩
      rw [hone, mul_one]
      omega

theorem ratioExact_of_small (hx : x.toNat < 2 ^ 31) (hy : y.toNat < 2 ^ 31) :
    RatioExact x y d ↔
      (2 ^ 31 ≤ d.toNat → x.toNat * y.toNat < 100000000 * d.toNat) := by
  unfold RatioExact
  split
  · rename_i hd
    exact iff_of_true ⟨hx, hy⟩ (fun hlarge => absurd hd hlarge.not_gt)
  · rename_i hd
    rw [not_lt] at hd
    rw [forall_prop_of_true hd, and_iff_left (Or.inl ⟨hx, hy⟩)]

theorem ratio_iff {c n d : BitVec 32} (hc : c ≠ 0) (hn : n ≠ 0)
    (hd : d ≠ 0) :
    (widen c).toNat * (widen n).toNat < 2 ^ 64 ∧
        plausibleHz ((widen c).toNat * (widen n).toNat / (widen d).toNat) =
          plausibleHz (c.toNat * n.toNat / d.toNat) ↔
      RatioExact c n d := by
  rcases lt_or_ge c.toNat (2 ^ 31) with hcSmall | hcLarge
  · rcases lt_or_ge n.toNat (2 ^ 31) with hnSmall | hnLarge
    · rw [ratio_small_iff hcSmall hnSmall hd,
        ratioExact_of_small hcSmall hnSmall]
    · rw [mul_comm (widen c).toNat, mul_comm c.toNat,
        ratio_large_iff hnLarge hc hd, ratioExact_comm,
        ratioExact_of_large hnLarge]
  · rw [ratio_large_iff hcLarge hn hd, ratioExact_of_large hcLarge]

end Widening

/-! ## The two sources -/

section Sources

variable {cpu : Cpu}

theorem leaf_sle_iff {leaf : ℕ} (reg : BitVec 32) (hleaf : leaf < 2 ^ 31) :
    (BitVec.ofNat 32 leaf).sle reg = true ↔
      leaf ≤ reg.toNat ∧ reg.toNat < 2 ^ 31 := by
  have hvalue : (BitVec.ofNat 32 leaf).toNat = leaf := by
    rw [BitVec.toNat_ofNat]
    omega
  have hsign : (BitVec.ofNat 32 leaf).toNat < 2 ^ (32 - 1) := by
    rw [hvalue]
    exact hleaf
  rw [sle_iff_toNat hsign, hvalue]

theorem readRatio_of_available (h : RatioAvailable cpu)
    (hleaf : (cpu.cpuid 0 0).eax.toNat < 2 ^ 31) :
    readRatio cpu = .ofRegs (cpu.cpuid 0x15 0) :=
  if_pos ((leaf_sle_iff _ (by decide)).mpr ⟨h.1, hleaf⟩)

/-- The code's test on the widened registers. -/
theorem readRatio_ne_zero_iff :
    (readRatio cpu).crystalClockHz ≠ 0 ∧
        (readRatio cpu).tscRatioNumerator ≠ 0 ∧
        (readRatio cpu).tscRatioDenominator ≠ 0 ↔
      RatioAvailable cpu ∧ (cpu.cpuid 0 0).eax.toNat < 2 ^ 31 := by
  constructor
  · intro hne
    by_cases hsle : (0x15#32).sle (cpu.cpuid 0 0).eax = true
    · obtain ⟨hge, hlt⟩ := (leaf_sle_iff _ (by decide)).mp hsle
      rw [readRatio, if_pos hsle] at hne
      simp only [TscRatio.ofRegs, ne_eq, widen_eq_zero_iff] at hne
      exact ⟨⟨hge, hne⟩, hlt⟩
    · rw [readRatio, if_neg hsle] at hne
      exact absurd rfl hne.1
  · rintro ⟨havailable, hlt⟩
    rw [readRatio_of_available havailable hlt]
    simp only [TscRatio.ofRegs, ne_eq, widen_eq_zero_iff]
    exact havailable.2

theorem toNat_hz_or_zero (hz : BitVec 64) :
    (if 100000000#64 ≤ hz then hz else 0).toNat = plausibleHz hz.toNat := by
  rw [apply_ite BitVec.toNat]
  exact if_congr BitVec.le_def rfl rfl

theorem ratioFrequencyHz_ensures_iff (ratio : TscRatio) (k : ℕ) :
    (ratioFrequencyHz ratio).Ensures (fun hz => hz.toNat = k) ↔
      ratio.crystalClockHz.toNat * ratio.tscRatioNumerator.toNat < 2 ^ 64 ∧
        plausibleHz (ratio.crystalClockHz.toNat *
          ratio.tscRatioNumerator.toNat /
            ratio.tscRatioDenominator.toNat) = k := by
  rw [ratioFrequencyHz, Eval.ensures_bind, Eval.ensures_pure,
    ← Bool.not_eq_true, overflow_umul, not_le]
  refine and_congr_right ?_
  intro hlt
  rw [toNat_hz_or_zero, BitVec.toNat_udiv, (umul_ensures hlt).1]

theorem baseMhz_lt (cpu : Cpu) : baseMhz cpu < 2 ^ 16 := by
  unfold baseMhz
  split
  · rw [BitVec.toNat_and]
    exact lt_of_le_of_lt Nat.and_le_right (by decide)
  · decide

/-- The code reads the base frequency or nothing. -/
theorem readBaseFrequencyMhz_le (cpu : Cpu) :
    (readBaseFrequencyMhz cpu).toNat ≤ baseMhz cpu := by
  unfold readBaseFrequencyMhz
  split
  · rename_i hsle
    have hge := ((leaf_sle_iff _ (by decide)).mp hsle).1
    have hsmall := baseMhz_lt cpu
    rw [baseMhz, if_pos hge] at hsmall ⊢
    rw [widen_of_lt (by omega)]
  · exact Nat.zero_le _

/-- Megahertz are multiplied by 1000, which is right only for none. -/
theorem baseFrequency_ensures_iff (cpu : Cpu) :
    (umul (readBaseFrequencyMhz cpu) 1000#64).Ensures
        (fun hz => hz.toNat = baseMhz cpu * 1000000) ↔
      baseMhz cpu = 0 := by
  have hread := readBaseFrequencyMhz_le cpu
  have hsmall := baseMhz_lt cpu
  have hvalue := umul_ensures (x := readBaseFrequencyMhz cpu) (y := 1000#64)
    (by rw [BitVec.toNat_ofNat]; omega)
  rw [Eval.Ensures, hvalue.1, and_iff_left hvalue.2, BitVec.toNat_ofNat]
  omega

end Sources

/-! ## The reported frequency -/

/-- The registers for which the reported frequency is right. -/
def FrequencyExact (cpu : Cpu) : Prop :=
  if RatioAvailable cpu then
    if (cpu.cpuid 0 0).eax.toNat < 2 ^ 31 then
      RatioExact (cpu.cpuid 0x15 0).ecx (cpu.cpuid 0x15 0).ebx
        (cpu.cpuid 0x15 0).eax
    else
      (cpu.cpuid 0x15 0).ecx.toNat * (cpu.cpuid 0x15 0).ebx.toNat <
        100000000 * (cpu.cpuid 0x15 0).eax.toNat
  else baseMhz cpu = 0

theorem getTscClockInfo_ensures_iff (cpu : Cpu) (k : ℕ) :
    (getTscClockInfo cpu).Ensures (fun info => info.tscFrequencyHz.toNat = k) ↔
      (frequencyHz (readRatio cpu) (readBaseFrequencyMhz cpu)).Ensures
        (fun hz => hz.toNat = k) := by
  rw [getTscClockInfo, Eval.ensures_bind, Eval.ensures_pure]
  exact and_comm

/-- The reported frequency is in hertz, and computed without overflow, exactly for
the registers of `FrequencyExact`. -/
theorem tscFrequencyHz_ensures_iff (cpu : Cpu) :
    (getTscClockInfo cpu).Ensures
        (fun info => info.tscFrequencyHz.toNat = trueFrequencyHz cpu) ↔
      FrequencyExact cpu := by
  rw [getTscClockInfo_ensures_iff, frequencyHz]
  by_cases hread : RatioAvailable cpu ∧ (cpu.cpuid 0 0).eax.toNat < 2 ^ 31
  · obtain ⟨havailable, hleaf⟩ := hread
    rw [if_pos (readRatio_ne_zero_iff.mpr ⟨havailable, hleaf⟩),
      ratioFrequencyHz_ensures_iff, readRatio_of_available havailable hleaf,
      trueFrequencyHz, if_pos havailable, FrequencyExact, if_pos havailable,
      if_pos hleaf]
    obtain ⟨-, hcrystal, hnumerator, hdenominator⟩ := havailable
    exact ratio_iff hcrystal hnumerator hdenominator
  · rw [if_neg (mt readRatio_ne_zero_iff.mp hread)]
    by_cases havailable : RatioAvailable cpu
    · -- a negative maximum leaf: neither source is read
      have hleaf : ¬ (cpu.cpuid 0 0).eax.toNat < 2 ^ 31 := by
        intro hleaf
        exact hread ⟨havailable, hleaf⟩
      have hbase : readBaseFrequencyMhz cpu = 0#64 := by
        refine if_neg ?_
        intro hsle
        exact hleaf ((leaf_sle_iff _ (by decide)).mp hsle).2
      have hzero : umul 0#64 1000#64 = pure 0#64 := by decide
      have hpos := BitVec.toNat_pos_of_ne_zero havailable.2.2.2
      rw [hbase, hzero, Eval.ensures_pure, trueFrequencyHz,
        if_pos havailable, FrequencyExact, if_pos havailable, if_neg hleaf,
        BitVec.toNat_zero, eq_comm (a := 0), plausibleHz_eq_zero_iff,
        Nat.div_lt_iff_lt_mul hpos]
    · rw [trueFrequencyHz, if_neg havailable, FrequencyExact,
        if_neg havailable]
      exact baseFrequency_ensures_iff cpu

/-- A processor with a base frequency of 3000 MHz whose crystal clock is not
enumerated. -/
theorem tscFrequencyHz_base_3000 :
    ∃ cpu : Cpu, trueFrequencyHz cpu = 3000000000 ∧
      (getTscClockInfo cpu).value.tscFrequencyHz = 3000000#64 ∧
      ¬ (getTscClockInfo cpu).Ensures
        (fun info => info.tscFrequencyHz.toNat = trueFrequencyHz cpu) := by
  refine ⟨⟨fun leaf _ => if leaf = 0 then ⟨0x16, 0, 0, 0⟩
    else if leaf = 0x15 then ⟨2, 250, 0, 0⟩
    else if leaf = 0x16 then ⟨3000, 4000, 100, 0⟩
    else ⟨0, 0, 0, 0⟩, fun _ => 0⟩, by decide, by decide, by decide⟩

end BenchBox
