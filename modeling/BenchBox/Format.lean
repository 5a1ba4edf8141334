import BenchBox.Parse
import BenchBox.Support.Decimal
import BenchBox.Support.Significand
import BenchBox.Support.Words
import Mathlib.Tactic.FieldSimp

/-!
# Formatting

The texts of `format.cpp`.  A number is made a `double`, which is scaled by
dividing it by the base as long as it reaches the base and there is a next unit,
and is rounded to two decimals when it is printed.  Seconds are printed as hours,
minutes and seconds without leading zero parts.
-/

namespace BenchBox

open Decimal Significand Words

/-! ## Scaled numbers -/

/-- The loop that scales, with the number of units that are left. -/
def scaleLoop (base : ℕ) : ℕ → ℚ → ℕ → ℚ × ℕ
  | 0, size, unit => (size, unit)
  | left + 1, size, unit =>
      if size ≥ base then scaleLoop base left (size / base) (unit + 1)
      else (size, unit)

/-- `static_cast<double>`, whose significand has 53 bits. -/
def toDouble (val : BitVec 64) : ℕ :=
  roundBits 53 val.toNat

/-- The common part of `format_uint64_t` and `format_bytes`. -/
def formatScaled (base : ℕ) (units : List StringView) (val : BitVec 64)
    (unitStr : StringView) : StringView :=
  let scaled := scaleLoop base (units.length - 1) (toDouble val) 0
  if scaled.2 = 0 then
    Nat.toDigits 10 val.toNat ++ ' ' :: (units.getD scaled.2 [] ++ unitStr)
  else
    fixed2 scaled.1 ++ ' ' :: (units.getD scaled.2 [] ++ unitStr)

/-- `units` of `format_uint64_t`. -/
def decimalUnits : List StringView :=
  [[], ['K'], ['M'], ['G'], ['T'], ['P'], ['E']]

/-- `units` of `format_bytes`. -/
def binaryUnits : List StringView :=
  ["B", "KiB", "MiB", "GiB", "TiB", "PiB", "EiB"].map String.toList

/-- `format_uint64_t`. -/
def formatUint64T (val : BitVec 64) (unitStr : StringView) : StringView :=
  formatScaled 1000 decimalUnits val unitStr

/-- `format_bytes`. -/
def formatBytes (bytes : BitVec 64) : StringView :=
  formatScaled 1024 binaryUnits bytes []

section Scaled

variable {base left unit : ℕ} {size : ℚ}

/-- The loop stops at the first power of the base that is large enough, or at the
last unit. -/
theorem scaleLoop_spec (hbase : 0 < base) (left : ℕ) (size : ℚ) (unit : ℕ) :
    ∃ k ≤ left, scaleLoop base left size unit = (size / base ^ k, unit + k) ∧
      (0 < k → (base : ℚ) ^ k ≤ size) ∧
      (k < left → size < (base : ℚ) ^ (k + 1)) := by
  have hpos : (0 : ℚ) < base := Nat.cast_pos.mpr hbase
  induction left generalizing size unit with
  | zero =>
      refine ⟨0, le_refl 0, ?_, ?_, ?_⟩
      · simp [scaleLoop]
      · intro h
        exact absurd h (lt_irrefl 0)
      · intro h
        exact absurd h (lt_irrefl 0)
  | succ left ih =>
      rw [scaleLoop]
      split
      · rename_i hge
        obtain ⟨k, hk, heq, hlower, hupper⟩ := ih (size / base) (unit + 1)
        refine ⟨k + 1, Nat.succ_le_succ hk, ?_, ?_, ?_⟩
        · rw [heq, div_div, pow_succ', Nat.add_right_comm, Nat.add_assoc]
        · intro _
          rcases Nat.eq_zero_or_pos k with rfl | hkpos
          · rw [Nat.zero_add, pow_one]
            exact hge
          · have hle := hlower hkpos
            rw [le_div_iff₀ hpos] at hle
            rw [pow_succ]
            exact hle
        · intro hlt
          have hbelow := hupper (Nat.lt_of_succ_lt_succ hlt)
          rw [div_lt_iff₀ hpos] at hbelow
          rw [pow_succ]
          exact hbelow
      · rename_i hlt
        refine ⟨0, Nat.zero_le _, ?_, ?_, ?_⟩
        · simp
        · intro h
          exact absurd h (lt_irrefl 0)
        · intro _
          rw [Nat.zero_add, pow_one]
          exact not_le.mp hlt

/-- The text of a number is that of a unit, the number itself in the first one and
its `double` rounded to two decimals in the others. -/
theorem formatScaled_spec (hbase : 0 < base) (units : List StringView)
    (val : BitVec 64) (unitStr : StringView) :
    ∃ k ≤ units.length - 1,
      formatScaled base units val unitStr =
        (if k = 0 then Nat.toDigits 10 val.toNat
          else twoDecimals (hundredths (toDouble val / base ^ k))) ++
          ' ' :: (units.getD k [] ++ unitStr) ∧
      (0 < k → base ^ k ≤ toDouble val) ∧
      (k < units.length - 1 → toDouble val < base ^ (k + 1)) := by
  obtain ⟨k, hk, heq, hlower, hupper⟩ :=
    scaleLoop_spec hbase (units.length - 1) (toDouble val) 0
  refine ⟨k, hk, ?_, ?_, ?_⟩
  · have hnonneg : (0 : ℚ) ≤ toDouble val / base ^ k := by positivity
    rw [formatScaled, heq, Nat.zero_add]
    simp only
    split
    · rfl
    · rw [fixed2_of_nonneg hnonneg]
  · intro hkpos
    exact_mod_cast hlower hkpos
  · intro hlt
    exact_mod_cast hupper hlt

/-- Whatever the text shows with two decimals and a unit after the first, it is at
least 1.00, and below the base unless the unit is the last. -/
def ShownInUnit (base : ℕ) (units : List StringView)
    (unitStr text : StringView) : Prop :=
  ∀ n k name, 0 < k → units[k]? = some name →
    text = twoDecimals n ++ ' ' :: (name ++ unitStr) →
      100 ≤ n ∧ (k < units.length - 1 → n < 100 * base)

/-- The number is below the next power of the base by no more than half a
hundredth of its unit, for a unit that is neither the first nor the last. -/
def InRoundingBand (base last val : ℕ) : Prop :=
  ∃ k, 0 < k ∧ k < last ∧ val < base ^ (k + 1) ∧
    200 * base ^ (k + 1) ≤ 200 * val + base ^ k

/-- The rounding reaches the base in the band only. -/
theorem base_le_hundredths_iff (hbase : 0 < base) (val k : ℕ) :
    100 * base ≤ hundredths (val / base ^ k) ↔
      200 * base ^ (k + 1) ≤ 200 * val + base ^ k := by
  have hnonneg : (0 : ℚ) ≤ val / base ^ k := by positivity
  have hpow : (0 : ℚ) < base ^ k := pow_pos (Nat.cast_pos.mpr hbase) k
  have hsize : (val : ℚ) / base ^ k * 100 = val * 100 / base ^ k :=
    div_mul_eq_mul_div _ _ _
  rw [le_hundredths_iff (by omega) hnonneg, hsize, le_div_iff₀ hpow,
    ← Nat.cast_le (α := ℚ)]
  push_cast
  rw [pow_succ]
  constructor
  · intro h
    linarith
  · intro h
    linarith

/-- The whole part of a number in its unit is not zero. -/
theorem one_le_hundredths {val k : ℕ} (hbase : 0 < base)
    (hval : base ^ k ≤ val) : 100 ≤ hundredths (val / base ^ k) := by
  have hpow : (0 : ℚ) < base ^ k := pow_pos (Nat.cast_pos.mpr hbase) k
  have hone : (1 : ℚ) ≤ val / base ^ k := by
    rw [le_div_iff₀ hpow, one_mul]
    exact_mod_cast hval
  rw [le_hundredths_iff (by decide) (zero_le_one.trans hone)]
  push_cast
  linarith

/-- There is one unit whose band a number can be in: its own. -/
theorem inRoundingBand_iff {last val k : ℕ} (hbase : 2 ≤ base)
    (hlower : 0 < k → base ^ k ≤ val)
    (hupper : k < last → val < base ^ (k + 1)) :
    InRoundingBand base last val ↔
      0 < k ∧ k < last ∧ 200 * base ^ (k + 1) ≤ 200 * val + base ^ k := by
  have hpos : 0 < base := by omega
  constructor
  · rintro ⟨j, hj, hjlast, hbelow, hband⟩
    have hjk : j = k := by
      rcases lt_trichotomy j k with hlt | heq | hgt
      · have hpow : base ^ (j + 1) ≤ base ^ k :=
          Nat.pow_le_pow_right hpos hlt
        have hle := hlower (hj.trans hlt)
        omega
      · exact heq
      · have hpow : base ^ (k + 1) ≤ base ^ j :=
          Nat.pow_le_pow_right hpos hgt
        have hlt := hupper (hgt.trans hjlast)
        have hdouble : base ^ j * 2 ≤ base ^ (j + 1) :=
          Nat.mul_le_mul_left _ hbase
        omega
    rw [← hjk]
    exact ⟨hj, hjlast, hband⟩
  · rintro ⟨hkpos, hklast, hband⟩
    exact ⟨k, hkpos, hklast, hupper hklast, hband⟩

theorem space_notMem_twoDecimals (n : ℕ) : ' ' ∉ twoDecimals n := by
  intro hmem
  rcases mem_twoDecimals hmem with hpoint | hdigit
  · exact absurd hpoint (by decide)
  · exact absurd hdigit (by decide)

theorem space_notMem_toDigits (n : ℕ) : ' ' ∉ Nat.toDigits 10 n :=
  fun hmem => absurd (isDigit_toDigits hmem) (by decide)

/-- A number without a point is not read as one with two decimals. -/
theorem toDigits_ne_twoDecimals (m n : ℕ) :
    Nat.toDigits 10 m ≠ twoDecimals n := by
  intro h
  have hpoint : '.' ∈ Nat.toDigits 10 m := h ▸ point_mem_twoDecimals n
  exact absurd (isDigit_toDigits hpoint) (by decide)

theorem getElem?_eq_some_getD {units : List StringView} {k : ℕ}
    (hk : k < units.length) : units[k]? = some (units.getD k []) := by
  rw [List.getD_eq_getElem?_getD, List.getElem?_eq_getElem hk]
  rfl

/-- A position is read off its name. -/
theorem eq_of_getD_eq {units : List StringView} (hunits : units.Nodup)
    {j k : ℕ} (hk : k < units.length) {name : StringView}
    (hname : units[j]? = some name) (h : units.getD k [] = name) : k = j := by
  apply (List.getElem?_inj hk hunits).mp
  rw [hname, ← h]
  exact getElem?_eq_some_getD hk

/-- A number is shown in the right unit exactly if its `double` is not in the
rounding band. -/
theorem formatScaled_shownInUnit_iff (hbase : 2 ≤ base)
    {units : List StringView} (hunits : units.Nodup) (hne : units ≠ [])
    (val : BitVec 64) (unitStr : StringView) :
    ShownInUnit base units unitStr (formatScaled base units val unitStr) ↔
      ¬InRoundingBand base (units.length - 1) (toDouble val) := by
  have hpos : 0 < base := by omega
  have hlength := List.length_pos_iff.mpr hne
  obtain ⟨k, hk, htext, hlower, hupper⟩ :=
    formatScaled_spec hpos units val unitStr
  rw [inRoundingBand_iff hbase hlower hupper, htext]
  rcases Nat.eq_zero_or_pos k with rfl | hkpos
  · refine iff_of_true ?_ (fun h => absurd h.1 (lt_irrefl 0))
    intro n j name hj hname hread
    rw [if_pos rfl, append_cons_inj (space_notMem_toDigits _)
      (space_notMem_twoDecimals n)] at hread
    exact absurd hread.1 (toDigits_ne_twoDecimals _ n)
  · rw [if_neg hkpos.ne']
    have hwhole := one_le_hundredths hpos (hlower hkpos)
    have hklt : k < units.length := by omega
    rw [← base_le_hundredths_iff hpos]
    constructor
    · rintro hshown ⟨-, hklast, hlarge⟩
      have hbelow :=
        (hshown _ k _ hkpos (getElem?_eq_some_getD hklt) rfl).2 hklast
      omega
    · intro hband n j name hj hname hread
      rw [append_cons_inj (space_notMem_twoDecimals _)
        (space_notMem_twoDecimals n)] at hread
      obtain ⟨hnumber, hunit⟩ := hread
      obtain rfl := twoDecimals_injective hnumber
      obtain rfl := eq_of_getD_eq hunits hklt hname
        (List.append_cancel_right hunit)
      refine ⟨hwhole, ?_⟩
      intro hklast
      by_contra hlarge
      exact hband ⟨hkpos, hklast, not_lt.mp hlarge⟩

/-- Both formats show a number in the right unit exactly if its `double` is not in
the rounding band of their base; below `2 ^ 53` the `double` is the number. -/
theorem format_shownInUnit_iff (val : BitVec 64) (unitStr : StringView) :
    (ShownInUnit 1000 decimalUnits unitStr (formatUint64T val unitStr) ↔
      ¬InRoundingBand 1000 6 (toDouble val)) ∧
    (ShownInUnit 1024 binaryUnits [] (formatBytes val) ↔
      ¬InRoundingBand 1024 6 (toDouble val)) ∧
    (val.toNat < 2 ^ 53 → toDouble val = val.toNat) :=
  ⟨formatScaled_shownInUnit_iff (by decide) (by decide) (by decide) val unitStr,
    formatScaled_shownInUnit_iff (by decide) (by decide) (by decide) val [],
    roundBits_of_lt⟩

-- the conversion reaches the next unit before the loop does
example : formatUint64T 999999999999999999 [] = "1.00 E".toList := by
  decide +kernel

/-- 999,999 is printed as 1000.00 K, and one byte less than a mebibyte as 1024.00
KiB. -/
theorem not_shownInUnit_below_million :
    ¬ShownInUnit 1000 decimalUnits [] (formatUint64T 999999 []) ∧
      ¬ShownInUnit 1024 binaryUnits [] (formatBytes 1048575) := by
  constructor
  · intro hshown
    have htext : formatUint64T 999999 [] =
        twoDecimals 100000 ++ ' ' :: (['K'] ++ []) := by decide +kernel
    have hbelow := (hshown 100000 1 ['K'] (by decide) rfl htext).2 (by decide)
    omega
  · intro hshown
    have htext : formatBytes 1048575 =
        twoDecimals 102400 ++ ' ' :: ("KiB".toList ++ []) := by decide +kernel
    have hbelow :=
      (hshown 102400 1 "KiB".toList (by decide) rfl htext).2 (by decide)
    omega

end Scaled

/-! ## Hours, minutes and seconds -/

/-- `format_hms_flex`. -/
def formatHmsFlex (totalSeconds : BitVec 64) : StringView :=
  let hours := totalSeconds / 3600#64
  let minutes := totalSeconds % 3600#64 / 60#64
  let seconds := totalSeconds % 60#64
  if hours > 0 then
    Nat.toDigits 10 hours.toNat ++ ['h', ' '] ++
      Nat.toDigits 10 minutes.toNat ++ ['m', ' '] ++
      Nat.toDigits 10 seconds.toNat ++ ['s']
  else if minutes > 0 then
    Nat.toDigits 10 minutes.toNat ++ ['m', ' '] ++
      Nat.toDigits 10 seconds.toNat ++ ['s']
  else
    Nat.toDigits 10 seconds.toNat ++ ['s']

/-- A number followed by its unit. -/
def readPart (unit : Char) (part : StringView) : Option ℕ :=
  let digits := part.dropLast
  if part.getLast? = some unit ∧ digits ≠ [] ∧ digits.all Char.isDigit then
    some (Nat.ofDigitChars 10 digits 0)
  else none

/-- A part that may be omitted, and stands for zero then. -/
def readOptional (unit : Char) : List StringView → ℕ × List StringView
  | [] => (0, [])
  | part :: parts =>
      match readPart unit part with
      | some n => (n, parts)
      | none => (0, part :: parts)

/-- Hours, minutes and seconds, of which the seconds are not omitted. -/
def readParts (parts : List StringView) : Option (ℕ × ℕ × ℕ) :=
  let hours := readOptional 'h' parts
  let minutes := readOptional 'm' hours.2
  match minutes.2 with
  | [part] => (readPart 's' part).map fun seconds => (hours.1, minutes.1, seconds)
  | _ => none

/-- Reads `[Hh ][Mm ]Ss`. -/
def readHms (text : StringView) : Option (ℕ × ℕ × ℕ) :=
  readParts (text.splitOn ' ')

/-- A part of the text. -/
def hmsPart (n : ℕ) (unit : Char) : StringView :=
  Nat.toDigits 10 n ++ [unit]

theorem readPart_hmsPart (n : ℕ) (unit other : Char) :
    readPart unit (hmsPart n other) = if other = unit then some n else none := by
  have hdigits : (Nat.toDigits 10 n).all Char.isDigit = true :=
    List.all_eq_true.mpr fun c hc => isDigit_toDigits hc
  have hdrop : (hmsPart n other).dropLast = Nat.toDigits 10 n :=
    List.dropLast_concat
  have hlast : (hmsPart n other).getLast? = some other :=
    List.getLast?_concat
  rw [readPart, hdrop, hlast, Nat.ofDigitChars_ten_toDigits]
  simp only [Option.some.injEq]
  exact if_congr (and_iff_left ⟨Nat.toDigits_ne_nil, hdigits⟩) rfl rfl

theorem readOptional_cons (n : ℕ) (unit other : Char)
    (parts : List StringView) :
    readOptional unit (hmsPart n other :: parts) =
      if other = unit then (n, parts) else (0, hmsPart n other :: parts) := by
  rw [readOptional, readPart_hmsPart]
  by_cases hunit : other = unit
  · rw [if_pos hunit, if_pos hunit]
  · rw [if_neg hunit, if_neg hunit]

/-- The parts that are printed of `t` seconds. -/
def hmsParts (t : ℕ) : List StringView :=
  if 0 < t / 3600 then
    [hmsPart (t / 3600) 'h', hmsPart (t % 3600 / 60) 'm', hmsPart (t % 60) 's']
  else if 0 < t % 3600 / 60 then
    [hmsPart (t % 3600 / 60) 'm', hmsPart (t % 60) 's']
  else [hmsPart (t % 60) 's']

theorem hmsPart_proper (n : ℕ) {unit : Char} (hunit : unit ≠ ' ') :
    hmsPart n unit ≠ [] ∧ ' ' ∉ hmsPart n unit := by
  constructor
  · exact List.append_ne_nil_of_right_ne_nil _ (List.cons_ne_nil unit [])
  · rw [hmsPart, List.mem_append, List.mem_singleton]
    rintro (hdigit | hspace)
    · exact space_notMem_toDigits n hdigit
    · exact hunit hspace.symm

theorem proper_hmsParts (t : ℕ) : Proper ' ' (hmsParts t) := by
  have hhours := hmsPart_proper (t / 3600) (by decide : 'h' ≠ ' ')
  have hminutes := hmsPart_proper (t % 3600 / 60) (by decide : 'm' ≠ ' ')
  have hseconds := hmsPart_proper (t % 60) (by decide : 's' ≠ ' ')
  unfold Proper hmsParts
  split
  · simp only [List.forall_mem_cons]
    exact ⟨hhours, hminutes, hseconds, List.forall_mem_nil _⟩
  · split
    · simp only [List.forall_mem_cons]
      exact ⟨hminutes, hseconds, List.forall_mem_nil _⟩
    · exact List.forall_mem_singleton.mpr hseconds

theorem hmsParts_ne_nil (t : ℕ) : hmsParts t ≠ [] := by
  unfold hmsParts
  split
  · exact List.cons_ne_nil _ _
  · split
    · exact List.cons_ne_nil _ _
    · exact List.cons_ne_nil _ _

/-- The text is its parts, separated by spaces. -/
theorem formatHmsFlex_eq_join (totalSeconds : BitVec 64) :
    formatHmsFlex totalSeconds = join ' ' (hmsParts totalSeconds.toNat) := by
  have hhours : totalSeconds / 3600#64 > 0 ↔ 0 < totalSeconds.toNat / 3600 := by
    rw [gt_iff_lt, BitVec.lt_def, BitVec.toNat_udiv]
    rfl
  have hminutes : totalSeconds % 3600#64 / 60#64 > 0 ↔
      0 < totalSeconds.toNat % 3600 / 60 := by
    rw [gt_iff_lt, BitVec.lt_def, BitVec.toNat_udiv, BitVec.toNat_umod]
    rfl
  simp only [formatHmsFlex, hmsParts, hhours, hminutes, BitVec.toNat_udiv,
    BitVec.toNat_umod]
  split
  · simp [join_cons_cons, hmsPart]
  · split
    · simp [join_cons_cons, hmsPart]
    · simp [hmsPart]

/-- The parts that are there are read, and the others are zero. -/
theorem readHms_join (t : ℕ) :
    readHms (join ' ' (hmsParts t)) =
      some (t / 3600, t % 3600 / 60, t % 60) := by
  rw [readHms, splitOn_join (proper_hmsParts t) (hmsParts_ne_nil t)]
  by_cases hhours : 0 < t / 3600
  · rw [hmsParts, if_pos hhours]
    simp [readParts, readOptional_cons, readPart_hmsPart]
  · rw [hmsParts, if_neg hhours, Nat.eq_zero_of_not_pos hhours]
    by_cases hminutes : 0 < t % 3600 / 60
    · rw [if_pos hminutes]
      simp [readParts, readOptional_cons, readPart_hmsPart]
    · rw [if_neg hminutes, Nat.eq_zero_of_not_pos hminutes]
      simp [readParts, readOptional_cons, readPart_hmsPart]

/-- The text is read back as the seconds it was printed for, so different numbers
of seconds have different texts. -/
theorem readHms_formatHmsFlex :
    (∀ totalSeconds : BitVec 64, ∃ hours minutes seconds,
      readHms (formatHmsFlex totalSeconds) = some (hours, minutes, seconds) ∧
        3600 * hours + 60 * minutes + seconds = totalSeconds.toNat ∧
        minutes < 60 ∧ seconds < 60) ∧
      Function.Injective formatHmsFlex := by
  have hread : ∀ totalSeconds : BitVec 64,
      readHms (formatHmsFlex totalSeconds) =
        some (totalSeconds.toNat / 3600, totalSeconds.toNat % 3600 / 60,
          totalSeconds.toNat % 60) := by
    intro totalSeconds
    rw [formatHmsFlex_eq_join, readHms_join]
  constructor
  · intro totalSeconds
    exact ⟨_, _, _, hread totalSeconds, by omega, by omega, by omega⟩
  · intro a b h
    have hparts := hread a
    rw [h, hread b] at hparts
    simp only [Option.some.injEq, Prod.mk.injEq] at hparts
    apply BitVec.eq_of_toNat_eq
    omega

end BenchBox
