import BenchBox.Support.FixedWidth

/-!
# Checked arithmetic

The operations of `math.h` that return `std::nullopt` where a result does not
fit.  Each compares against the largest value of the type and against nothing
else, so they are right for unsigned types, and for signed ones only where the
sign of the operands excludes a result below the smallest value.
-/

namespace BenchBox

open FixedWidth

variable {FROM TO T : IntType}

/-- `math::checked_narrow`. -/
def checkedNarrow (TO : IntType) (value : Word FROM) : Option (Word TO) :=
  if value.greater (Word.max TO) then none else some (value.convert TO)

/-- `a != 0 && b > std::numeric_limits<T>::max() / a`. -/
def mulExceeds (a b : Word T) : Eval Bool :=
  if a.toInt = 0 then
    pure false
  else do
    let quotient ← (Word.max T).promote.div a.promote
    pure (decide (b.promote.toInt > quotient.toInt))

/-- `math::checked_mul`. -/
def checkedMul (a b : Word T) : Eval (Option (Word T)) := do
  let exceeds ← mulExceeds a b
  if exceeds then
    pure none
  else do
    let product ← a.promote.mul b.promote
    pure (some (product.convert T))

/-- `math::checked_add`. -/
def checkedAdd (a b : Word T) : Eval (Option (Word T)) := do
  let room ← (Word.max T).promote.sub b.promote
  if a.promote.toInt > room.toInt then
    pure none
  else do
    let sum ← a.promote.add b.promote
    pure (some (sum.convert T))

/-! ## Narrowing -/

/-- Only a number above the largest one of the target type is refused: a
negative one passes, whether the comparison is signed or not. -/
theorem greater_max_iff (value : Word FROM) :
    value.greater (Word.max TO) = true ↔ TO.max < value.toInt := by
  have hTO := TO.max_nonneg
  have hFROM := FROM.min_nonpos
  obtain ⟨hmin, hmax⟩ := value.inRange
  simp only [Word.greater, decide_eq_true_eq, Word.toInt_convert,
    Word.toInt_max, gt_iff_lt]
  rcases FROM.common_cases TO with
    ⟨hleft, hright⟩ | ⟨hcommon, hunsigned, hle⟩ | ⟨hcommon, hunsigned, hle⟩
  · rw [IntType.wrap_of_inRange (value.inRange.of_embeds hleft),
      IntType.wrap_of_inRange (TO.max_inRange.of_embeds hright)]
  · -- compared in the unsigned target type, where nothing is above its maximum
    rw [hcommon, IntType.wrap_of_inRange TO.max_inRange]
    have hwrap := (TO.wrap_inRange value.toInt).2
    omega
  · have hzero := IntType.min_of_unsigned hunsigned
    have hfits : FROM.InRange TO.max := ⟨by omega, hle⟩
    rw [hcommon, IntType.wrap_of_inRange value.inRange,
      IntType.wrap_of_inRange hfits]

/-- A number that is not too small for the target type is narrowed exactly. -/
theorem checkedNarrow_isExact_iff (value : Word FROM) :
    IsExact TO value.toInt (checkedNarrow TO value) ↔
      TO.min ≤ value.toInt := by
  rw [checkedNarrow]
  by_cases habove : TO.max < value.toInt
  · rw [if_pos ((greater_max_iff value).mpr habove), isExact_none]
    have hrange := TO.min_nonpos.trans TO.max_nonneg
    constructor
    · intro _
      omega
    · intro _ hin
      exact absurd hin.2 (not_le.mpr habove)
  · rw [if_neg fun h => habove ((greater_max_iff value).mp h), isExact_some,
      Word.toInt_convert, IntType.wrap_eq_self_iff]
    constructor
    · exact fun hin => hin.1
    · exact fun hmin => ⟨hmin, not_lt.mp habove⟩

/-! ## Multiplication -/

/-- The guard of `checked_mul` divides exactly, and by zero never. -/
theorem max_div_ensures {a : Word T} (ha : a.toInt ≠ 0) :
    ((Word.max T).promote.div a.promote).Ensures
      fun w => w.toInt = T.max.tdiv a.toInt := by
  have hmax : (Word.max T).promote.toInt = T.max := by
    rw [Word.toInt_promote, Word.toInt_max]
  exact Word.div_ensures hmax a.toInt_promote ha
    (a.inRange.max_tdiv.of_embeds T.embeds_promoted)

/-- The guard compares with the exact quotient, and does not overflow. -/
theorem mulExceeds_ensures (a b : Word T) :
    (mulExceeds a b).Ensures fun exceeds =>
      exceeds = true ↔ a.toInt ≠ 0 ∧ T.max.tdiv a.toInt < b.toInt := by
  by_cases ha : a.toInt = 0
  · simp [mulExceeds, ha]
  · rw [mulExceeds, if_neg ha]
    refine (max_div_ensures ha).bind ?_
    intro quotient hquotient
    rw [Eval.ensures_pure, decide_eq_true_eq, hquotient, Word.toInt_promote]
    simp only [gt_iff_lt, ha, ne_eq, not_false_eq_true, true_and]

/-- A result computed in the promoted type is exact if it fits. -/
theorem computed_ensures_iff (x : ℤ) :
    (do
      let result ← Word.arith T.promoted x
      pure (some (result.convert T))).Ensures (IsExact T x) ↔
      T.InRange x := by
  rw [Eval.ensures_bind, Eval.ensures_pure, isExact_some, Word.overflow_arith]
  constructor
  · rintro ⟨-, hvalue⟩
    rw [← hvalue]
    exact Word.inRange _
  · intro hrange
    have hwide := hrange.of_embeds T.embeds_promoted
    refine ⟨hwide, ?_⟩
    rw [Word.toInt_convert, (Word.arith_ensures hwide).1,
      IntType.wrap_of_inRange hrange]

/-- `checked_mul` is right where its guard is. -/
theorem checkedMul_isExact_iff_guard (a b : Word T) :
    (checkedMul a b).Ensures (IsExact T (a.toInt * b.toInt)) ↔
      ((a.toInt ≠ 0 ∧ T.max.tdiv a.toInt < b.toInt) ↔
        ¬T.InRange (a.toInt * b.toInt)) := by
  obtain ⟨hguard, hsafe⟩ := mulExceeds_ensures a b
  have hproduct : a.promote.mul b.promote =
      Word.arith T.promoted (a.toInt * b.toInt) := by
    rw [Word.mul, Word.toInt_promote, Word.toInt_promote]
  rw [checkedMul, Eval.ensures_bind, hproduct, ← hguard,
    and_iff_right hsafe]
  by_cases hexceeds : (mulExceeds a b).value = true
  · rw [if_pos hexceeds, Eval.ensures_pure, isExact_none,
      iff_true_left hexceeds]
  · rw [if_neg hexceeds, computed_ensures_iff, iff_false_left hexceeds,
      not_not]

/-- The guard refuses the products that are too large by a positive factor. -/
theorem max_tdiv_lt_iff_of_pos {a b : ℤ} (ha : 0 < a) :
    T.max.tdiv a < b ↔ T.max < a * b := by
  rw [Int.tdiv_eq_ediv_of_nonneg T.max_nonneg, Int.ediv_lt_iff_lt_mul ha,
    mul_comm b a]

/-- By a negative factor it compares the wrong way round: it lets pass what is
too large, and refuses what is not. -/
theorem le_max_tdiv_iff_of_neg {a b : ℤ} (ha : a < 0) :
    T.max.tdiv a ≤ b ↔ a * b ≤ T.max := by
  have hneg : 0 < -a := neg_pos.mpr ha
  have hquotient : T.max.tdiv a = -(T.max / -a) := by
    rw [← Int.tdiv_eq_ediv_of_nonneg T.max_nonneg, Int.tdiv_neg, neg_neg]
  rw [hquotient, neg_le, Int.le_ediv_iff_mul_le hneg, neg_mul_neg, mul_comm b a]

/-- `checked_mul` is right unless a negative product is too small, or the first
factor is negative and the second is not exactly the limit it computes. -/
theorem checkedMul_isExact_iff (a b : Word T) :
    (checkedMul a b).Ensures (IsExact T (a.toInt * b.toInt)) ↔
      a.toInt = 0 ∨
      (0 < a.toInt ∧ T.min ≤ a.toInt * b.toInt) ∨
      (a.toInt < 0 ∧
        (b.toInt = T.max.tdiv a.toInt ∨ a.toInt * b.toInt < T.min)) := by
  rw [checkedMul_isExact_iff_guard]
  have hmax := T.max_nonneg
  have hmin := T.min_nonpos
  unfold IntType.InRange
  rcases lt_trichotomy a.toInt 0 with ha | ha | ha
  · have hlimit := le_max_tdiv_iff_of_neg (T := T) (b := b.toInt) ha
    by_cases heq : b.toInt = T.max.tdiv a.toInt
    · -- at the limit the product is positive and fits
      have hle := hlimit.mp heq.ge
      have hsign : b.toInt ≤ 0 := by
        rw [heq]
        exact Int.tdiv_nonpos_of_nonneg_of_nonpos hmax ha.le
      have hnonneg := mul_nonneg_of_nonpos_of_nonpos ha.le hsign
      constructor
      · intro _
        exact Or.inr (Or.inr ⟨ha, Or.inl heq⟩)
      · intro _
        omega
    · generalize a.toInt * b.toInt = product at *
      omega
  · have hproduct : a.toInt * b.toInt = 0 := by rw [ha, zero_mul]
    rw [hproduct]
    omega
  · rw [max_tdiv_lt_iff_of_pos ha]
    generalize a.toInt * b.toInt = product
    omega

/-! ## Addition -/

/-- Taking a negative number from the maximum needs a wider type. -/
theorem room_inRange_iff (b : Word T) :
    T.promoted.InRange (T.max - b.toInt) ↔ 0 ≤ b.toInt ∨ T.bits < 32 := by
  obtain ⟨hmin, hmax⟩ := b.inRange
  constructor
  · rintro ⟨-, hroom⟩
    by_cases hbits : T.bits < 32
    · exact Or.inr hbits
    · rw [IntType.promoted, if_neg hbits] at hroom
      left
      omega
  · rintro (hb | hbits)
    · have hroom : T.InRange (T.max - b.toInt) := by
        have hnonpos := T.min_nonpos
        constructor <;> omega
      exact hroom.of_embeds T.embeds_promoted
    · have hpow : (2 : ℤ) ^ T.bits ≤ 2 ^ 31 :=
        pow_le_pow_right₀ (by decide) (Nat.le_of_lt_succ hbits)
      have hwidth := T.max_eq
      rw [IntType.promoted, if_pos hbits]
      constructor
      · exact (show IntType.int32.min ≤ 0 by decide).trans (by omega)
      · refine le_trans ?_ (show (2 : ℤ) ^ 31 - 1 ≤ IntType.int32.max by decide)
        omega

/-- `checked_add` is right if there is room and the sum is not too small. -/
theorem checkedAdd_isExact_iff_room (a b : Word T) :
    (checkedAdd a b).Ensures (IsExact T (a.toInt + b.toInt)) ↔
      T.promoted.InRange (T.max - b.toInt) ∧ T.min ≤ a.toInt + b.toInt := by
  have hroom : (Word.max T).promote.sub b.promote =
      Word.arith T.promoted (T.max - b.toInt) := by
    rw [Word.sub, Word.toInt_promote, Word.toInt_promote, Word.toInt_max]
  have hsum : a.promote.add b.promote =
      Word.arith T.promoted (a.toInt + b.toInt) := by
    rw [Word.add, Word.toInt_promote, Word.toInt_promote]
  rw [checkedAdd, Eval.ensures_bind, hroom, hsum, Word.overflow_arith]
  refine and_congr_right ?_
  intro hrange
  have hsmall := T.min_nonpos.trans T.max_nonneg
  rw [(Word.arith_ensures hrange).1, Word.toInt_promote]
  by_cases habove : a.toInt > T.max - b.toInt
  · rw [if_pos habove, Eval.ensures_pure, isExact_none]
    unfold IntType.InRange
    omega
  · rw [if_neg habove, computed_ensures_iff]
    unfold IntType.InRange
    omega

/-- `checked_add` is right for a second operand that is not negative.  With a
negative one it overflows, unless the sum is computed in a wider type. -/
theorem checkedAdd_isExact_iff (a b : Word T) :
    (checkedAdd a b).Ensures (IsExact T (a.toInt + b.toInt)) ↔
      0 ≤ b.toInt ∨ (T.bits < 32 ∧ T.min ≤ a.toInt + b.toInt) := by
  rw [checkedAdd_isExact_iff_room, room_inRange_iff]
  have ha := a.inRange.1
  constructor
  · rintro ⟨hb | hbits, hmin⟩
    · exact Or.inl hb
    · exact Or.inr ⟨hbits, hmin⟩
  · rintro (hb | ⟨hbits, hmin⟩)
    · exact ⟨Or.inl hb, by omega⟩
    · exact ⟨Or.inr hbits, hmin⟩

/-! ## Exactness -/

/-- The operands for which the checked operations are exact and compute nothing
that overflows. -/
theorem checked_isExact_iff (FROM TO T : IntType) (value : Word FROM)
    (a b : Word T) :
    (IsExact TO value.toInt (checkedNarrow TO value) ↔
      TO.min ≤ value.toInt) ∧
    ((checkedMul a b).Ensures (IsExact T (a.toInt * b.toInt)) ↔
      a.toInt = 0 ∨
      (0 < a.toInt ∧ T.min ≤ a.toInt * b.toInt) ∨
      (a.toInt < 0 ∧
        (b.toInt = T.max.tdiv a.toInt ∨ a.toInt * b.toInt < T.min))) ∧
    ((checkedAdd a b).Ensures (IsExact T (a.toInt + b.toInt)) ↔
      0 ≤ b.toInt ∨ (T.bits < 32 ∧ T.min ≤ a.toInt + b.toInt)) :=
  ⟨checkedNarrow_isExact_iff value, checkedMul_isExact_iff a b,
    checkedAdd_isExact_iff a b⟩

/-- Narrowing -1 to `uint32_t`, multiplying -1 by 1 and adding -1 to 0 in
`int32_t`: a wrong number, a refused product and an overflow. -/
theorem checked_int32_neg_one :
    let minusOne := Word.ofInt .int32 (-1)
    let zero := Word.ofInt .int32 0
    let one := Word.ofInt .int32 1
    ¬IsExact .uint32 minusOne.toInt (checkedNarrow .uint32 minusOne) ∧
      ¬(checkedMul minusOne one).Ensures
        (IsExact .int32 (minusOne.toInt * one.toInt)) ∧
      ¬(checkedAdd zero minusOne).Ensures
        (IsExact .int32 (zero.toInt + minusOne.toInt)) := by
  intro minusOne zero one
  rw [checkedNarrow_isExact_iff, checkedMul_isExact_iff,
    checkedAdd_isExact_iff]
  decide

-- in `int8_t` the same sum is computed as `int`, and is right
example :
    let minusOne := Word.ofInt .int8 (-1)
    let zero := Word.ofInt .int8 0
    (checkedAdd zero minusOne).Ensures
      (IsExact .int8 (zero.toInt + minusOne.toInt)) := by
  intro minusOne zero
  rw [checkedAdd_isExact_iff]
  decide

/-- For an unsigned type the product is always exact. -/
theorem checkedMul_isExact_of_unsigned (hT : T.signed = false)
    (a b : Word T) :
    (checkedMul a b).Ensures (IsExact T (a.toInt * b.toInt)) := by
  have hmin := IntType.min_of_unsigned hT
  have ha : 0 ≤ a.toInt := hmin ▸ a.inRange.1
  have hb : 0 ≤ b.toInt := hmin ▸ b.inRange.1
  rw [checkedMul_isExact_iff, hmin]
  rcases ha.eq_or_lt with hzero | hpos
  · exact Or.inl hzero.symm
  · exact Or.inr (Or.inl ⟨hpos, mul_nonneg ha hb⟩)

end BenchBox
