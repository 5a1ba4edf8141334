import Mathlib.Algebra.Order.Ring.Int
import Mathlib.Data.Int.Notation
import Mathlib.Tactic.Ring

/-!
# Fixed-width integers

Integer types are given by signedness and width, and a value is an integer in
the range of its type.  A conversion keeps the value modulo the width.  An
evaluation records whether one of its steps left the type it computes in, so
that "the result is right" and "nothing overflowed" are two separate facts.
-/

namespace FixedWidth

/-- A value, and whether a step of its evaluation overflowed. -/
structure Eval (α : Type u) where
  value : α
  overflow : Bool
deriving DecidableEq

namespace Eval

variable {α : Type u} {β : Type v}

/-- Evaluation in sequence overflows if one of its parts does. -/
instance : Monad Eval where
  pure a := ⟨a, false⟩
  bind x f := ⟨(f x.value).value, x.overflow || (f x.value).overflow⟩

@[simp] theorem value_pure (a : α) : (pure a : Eval α).value = a := rfl

@[simp] theorem overflow_pure (a : α) :
    (pure a : Eval α).overflow = false := rfl

@[simp] theorem value_bind {α β : Type u} (x : Eval α) (f : α → Eval β) :
    (x >>= f).value = (f x.value).value := rfl

@[simp] theorem overflow_bind {α β : Type u} (x : Eval α) (f : α → Eval β) :
    (x >>= f).overflow = (x.overflow || (f x.value).overflow) := rfl

/-- The value satisfies `P`, and no step overflowed. -/
def Ensures (x : Eval α) (P : α → Prop) : Prop :=
  P x.value ∧ x.overflow = false

instance (x : Eval α) (P : α → Prop) [DecidablePred P] :
    Decidable (x.Ensures P) :=
  inferInstanceAs (Decidable (_ ∧ _))

@[simp] theorem ensures_pure {a : α} {P : α → Prop} :
    (pure a : Eval α).Ensures P ↔ P a := by
  simp [Ensures]

/-- A sequence ensures what its second part does from the result of a first part
that overflows nowhere. -/
theorem ensures_bind {α β : Type u} {x : Eval α} {f : α → Eval β}
    {P : β → Prop} :
    (x >>= f).Ensures P ↔ x.overflow = false ∧ (f x.value).Ensures P := by
  simp only [Ensures, value_bind, overflow_bind, Bool.or_eq_false_iff]
  exact and_left_comm

/-- The rule of sequencing. -/
theorem Ensures.bind {α β : Type u} {x : Eval α} {f : α → Eval β}
    {P : α → Prop} {Q : β → Prop} (hx : x.Ensures P)
    (hf : ∀ a, P a → (f a).Ensures Q) : (x >>= f).Ensures Q :=
  ensures_bind.mpr ⟨hx.2, hf x.value hx.1⟩

end Eval

/-! ## Unsigned words -/

section UnsignedWords

variable {w : ℕ} {x y : BitVec w}

/-- `x + y`, which overflows where it wraps around. -/
def uadd (x y : BitVec w) : Eval (BitVec w) :=
  ⟨x + y, BitVec.uaddOverflow x y⟩

/-- `x * y`, which overflows where it wraps around. -/
def umul (x y : BitVec w) : Eval (BitVec w) :=
  ⟨x * y, BitVec.umulOverflow x y⟩

theorem overflow_uadd : (uadd x y).overflow = true ↔ 2 ^ w ≤ x.toNat + y.toNat := by
  simp [uadd, BitVec.uaddOverflow]

theorem overflow_umul : (umul x y).overflow = true ↔ 2 ^ w ≤ x.toNat * y.toNat := by
  simp [umul, BitVec.umulOverflow]

theorem uadd_ensures (h : x.toNat + y.toNat < 2 ^ w) :
    (uadd x y).Ensures fun z => z.toNat = x.toNat + y.toNat := by
  constructor
  · exact BitVec.toNat_add_of_lt h
  · rw [Bool.eq_false_iff, ne_eq, overflow_uadd, not_le]
    exact h

theorem umul_ensures (h : x.toNat * y.toNat < 2 ^ w) :
    (umul x y).Ensures fun z => z.toNat = x.toNat * y.toNat := by
  constructor
  · exact BitVec.toNat_mul_of_lt h
  · rw [Bool.eq_false_iff, ne_eq, overflow_umul, not_le]
    exact h

end UnsignedWords

/-! ## Signed words -/

section SignedWords

variable {w v : ℕ} {x y : BitVec w}

/-- Widening keeps a number below the sign bit. -/
theorem toNat_signExtend_of_lt (hv : w ≤ v) (hx : x.toNat < 2 ^ (w - 1)) :
    (x.signExtend v).toNat = x.toNat := by
  have hmsb : x.msb = false := by
    rw [BitVec.msb_eq_decide, decide_eq_false_iff_not, not_le]
    exact hx
  rw [BitVec.toNat_signExtend, hmsb, BitVec.toNat_setWidth_of_le hv]
  rfl

/-- Widening moves the other numbers to the end of the wider range. -/
theorem toNat_signExtend_of_le (hv : w ≤ v) (hx : 2 ^ (w - 1) ≤ x.toNat) :
    (x.signExtend v).toNat = x.toNat + (2 ^ v - 2 ^ w) := by
  have hmsb : x.msb = true := by
    rw [BitVec.msb_eq_decide, decide_eq_true_eq]
    exact hx
  rw [BitVec.toNat_signExtend, hmsb, BitVec.toNat_setWidth_of_le hv]
  rfl

theorem signExtend_eq_zero_iff (hv : w ≤ v) :
    x.signExtend v = 0 ↔ x = 0 := by
  rw [← BitVec.toInt_inj, ← BitVec.toInt_inj,
    BitVec.toInt_signExtend_of_le hv]
  simp

/-- A signed comparison with a number below the sign bit. -/
theorem sle_iff_toNat (hy : y.toNat < 2 ^ (w - 1)) :
    y.sle x = true ↔ y.toNat ≤ x.toNat ∧ x.toNat < 2 ^ (w - 1) := by
  have hsign : ∀ z : BitVec w, 2 * z.toNat < 2 ^ w ↔ z.toNat < 2 ^ (w - 1) := by
    intro z
    rw [← BitVec.msb_eq_false_iff_two_mul_lt, BitVec.msb_eq_decide,
      decide_eq_false_iff_not, not_le]
  rw [BitVec.sle_iff_toInt_le, BitVec.toInt_eq_toNat_cond,
    BitVec.toInt_eq_toNat_cond, if_pos ((hsign y).mpr hy)]
  have hx := x.isLt
  split
  · rename_i hlt
    have hlt' := (hsign x).mp hlt
    omega
  · rename_i hlt
    rw [hsign] at hlt
    omega

end SignedWords

/-- An integer type. -/
structure IntType where
  signed : Bool
  bits : ℕ
  bits_pos : 0 < bits
deriving DecidableEq

namespace IntType

theorem sixtyFour_pos : 0 < 64 := by decide

def int8 : IntType := ⟨true, 8, by decide⟩
def int32 : IntType := ⟨true, 32, by decide⟩
def int64 : IntType := ⟨true, 64, sixtyFour_pos⟩
def uint32 : IntType := ⟨false, 32, by decide⟩
def uint64 : IntType := ⟨false, 64, sixtyFour_pos⟩

variable {S T U : IntType} {x y : ℤ}

/-- The smallest value. -/
def min (T : IntType) : ℤ :=
  if T.signed then -2 ^ (T.bits - 1) else 0

/-- The largest value. -/
def max (T : IntType) : ℤ :=
  if T.signed then 2 ^ (T.bits - 1) - 1 else 2 ^ T.bits - 1

/-- The integer is a value of the type. -/
def InRange (T : IntType) (x : ℤ) : Prop :=
  T.min ≤ x ∧ x ≤ T.max

instance (T : IntType) (x : ℤ) : Decidable (T.InRange x) :=
  inferInstanceAs (Decidable (_ ∧ _))

/-- The value of the type that agrees with `x` modulo the width. -/
def wrap (T : IntType) (x : ℤ) : ℤ :=
  T.min + (x - T.min) % 2 ^ T.bits

theorem two_pow_bits (T : IntType) :
    (2 : ℤ) ^ T.bits = 2 * 2 ^ (T.bits - 1) := by
  have hbits : T.bits - 1 + 1 = T.bits := Nat.sub_add_cancel T.bits_pos
  rw [← pow_succ', hbits]

theorem half_pos (T : IntType) : (0 : ℤ) < 2 ^ (T.bits - 1) :=
  pow_pos (by decide) _

theorem min_nonpos (T : IntType) : T.min ≤ 0 := by
  have hhalf := T.half_pos
  unfold min
  split <;> omega

theorem max_nonneg (T : IntType) : 0 ≤ T.max := by
  have hhalf := T.half_pos
  have hbits := T.two_pow_bits
  unfold max
  split <;> omega

/-- A type has as many values as its width allows. -/
theorem max_eq (T : IntType) : T.max = T.min + 2 ^ T.bits - 1 := by
  have hbits := T.two_pow_bits
  unfold min max
  split <;> omega

theorem min_of_unsigned (h : T.signed = false) : T.min = 0 := by
  simp [min, h]

/-- A type with a negative value has one more of them than positive ones. -/
theorem min_of_neg (h : T.min < 0) : T.min = -T.max - 1 := by
  have hsigned : T.signed = true := by
    cases hcase : T.signed with
    | true => rfl
    | false => exact absurd (min_of_unsigned hcase) (Int.ne_of_lt h)
  simp only [min, max, hsigned, if_true]
  omega

theorem max_inRange (T : IntType) : T.InRange T.max :=
  ⟨T.min_nonpos.trans T.max_nonneg, le_refl _⟩

theorem wrap_inRange (T : IntType) (x : ℤ) : T.InRange (T.wrap x) := by
  have hpos : (0 : ℤ) < 2 ^ T.bits := pow_pos (by decide) _
  have hnonneg := Int.emod_nonneg (x - T.min) (Int.ne_of_gt hpos)
  have hlt := Int.emod_lt_of_pos (x - T.min) hpos
  have hmax := T.max_eq
  unfold InRange wrap
  omega

/-- Conversion keeps what the type can represent. -/
theorem wrap_of_inRange (h : T.InRange x) : T.wrap x = x := by
  have hmax := T.max_eq
  obtain ⟨hmin, hle⟩ := h
  have hmod : (x - T.min) % 2 ^ T.bits = x - T.min :=
    Int.emod_eq_of_lt (by omega) (by omega)
  rw [wrap, hmod]
  omega

/-- Conversion changes every other integer. -/
theorem wrap_eq_self_iff : T.wrap x = x ↔ T.InRange x := by
  constructor
  · intro h
    rw [← h]
    exact T.wrap_inRange x
  · exact wrap_of_inRange

/-- What lies between zero and a value is a value. -/
theorem InRange.of_between (hy : T.InRange y)
    (h : (0 ≤ x ∧ x ≤ y) ∨ (y ≤ x ∧ x ≤ 0)) : T.InRange x := by
  have hmin := T.min_nonpos
  have hmax := T.max_nonneg
  obtain ⟨hlower, hupper⟩ := hy
  constructor <;> omega

/-- Division by a positive number brings a value closer to zero. -/
theorem InRange.tdiv_of_pos (hx : T.InRange x) (hy : 0 < y) :
    T.InRange (x.tdiv y) := by
  have habs := Int.natAbs_tdiv_le_natAbs x y
  refine hx.of_between ?_
  rcases le_total 0 x with hsign | hsign
  · have hquotient := Int.tdiv_nonneg hsign hy.le
    omega
  · have hquotient := Int.tdiv_nonneg (neg_nonneg.mpr hsign) hy.le
    rw [Int.neg_tdiv] at hquotient
    omega

/-- So does taking a remainder. -/
theorem InRange.tmod (hx : T.InRange x) (y : ℤ) : T.InRange (x.tmod y) := by
  have habs : (x.tmod y).natAbs ≤ x.natAbs := by
    rw [Int.natAbs_tmod]
    exact Nat.mod_le _ _
  refine hx.of_between ?_
  rcases le_total 0 x with hsign | hsign
  · have hrest := Int.tmod_nonneg y hsign
    omega
  · have hrest := Int.tmod_nonneg y (neg_nonneg.mpr hsign)
    rw [Int.neg_tmod] at hrest
    omega

/-- The largest value divided by any other is a value. -/
theorem InRange.max_tdiv (hy : T.InRange y) : T.InRange (T.max.tdiv y) := by
  have hnonneg := T.max_nonneg
  rcases lt_or_ge y 0 with hsign | hsign
  · -- a type with negative values has the opposite of its maximum
    have habs := Int.natAbs_tdiv_le_natAbs T.max y
    have hmin := min_of_neg (lt_of_le_of_lt hy.1 hsign)
    constructor <;> omega
  · have habs := Int.natAbs_tdiv_le_natAbs T.max y
    have hquotient := Int.tdiv_nonneg hnonneg hsign
    exact T.max_inRange.of_between (by omega)

/-- Every value of `S` is a value of `T`. -/
def Embeds (S T : IntType) : Prop :=
  T.min ≤ S.min ∧ S.max ≤ T.max

theorem InRange.of_embeds (h : S.Embeds T) (hx : S.InRange x) :
    T.InRange x :=
  ⟨h.1.trans hx.1, hx.2.trans h.2⟩

theorem Embeds.refl (T : IntType) : T.Embeds T :=
  ⟨le_refl _, le_refl _⟩

theorem Embeds.trans (hST : S.Embeds T) (hTU : T.Embeds U) : S.Embeds U :=
  ⟨hTU.1.trans hST.1, hST.2.trans hTU.2⟩

/-- A wider type of the same signedness. -/
theorem embeds_of_le (hsigned : S.signed = T.signed) (hbits : S.bits ≤ T.bits) :
    S.Embeds T := by
  have hhalf : (2 : ℤ) ^ (S.bits - 1) ≤ 2 ^ (T.bits - 1) :=
    pow_le_pow_right₀ (by decide) (Nat.sub_le_sub_right hbits 1)
  have hS := S.two_pow_bits
  have hT := T.two_pow_bits
  unfold Embeds min max
  rw [hsigned]
  split <;> omega

/-- A strictly wider signed type holds the values of an unsigned one. -/
theorem embeds_of_lt (hT : T.signed = true) (hbits : S.bits < T.bits) :
    S.Embeds T := by
  have hpow : (2 : ℤ) ^ S.bits ≤ 2 ^ (T.bits - 1) :=
    pow_le_pow_right₀ (by decide) (Nat.le_sub_one_of_lt hbits)
  have hhalf := S.half_pos
  have hS := S.two_pow_bits
  unfold Embeds min max
  simp only [hT, if_true]
  split <;> omega

/-! ## Promotion and common types -/

/-- Integer promotion: what is narrower than `int` is computed with as `int`. -/
def promoted (T : IntType) : IntType :=
  if T.bits < 32 then int32 else T

/-- The type two operands are converted to. -/
def common (S T : IntType) : IntType :=
  let S := S.promoted
  let T := T.promoted
  if S.signed = T.signed then
    if S.bits < T.bits then T else S
  else if S.signed then
    if T.bits < S.bits then S else T
  else
    if S.bits < T.bits then T else S

/-- Promotion keeps every value. -/
theorem embeds_promoted (T : IntType) : T.Embeds T.promoted := by
  unfold promoted
  split
  next hbits => exact embeds_of_lt rfl hbits
  next => exact Embeds.refl T

/-- `int` is signed, so an unsigned type is promoted to itself at most. -/
theorem promoted_of_unsigned (h : T.promoted.signed = false) :
    T.promoted = T := by
  unfold promoted at *
  split at h
  next => simp [int32] at h
  next hbits => rw [if_neg hbits]

/-- An unsigned type reaches further up than a signed one that is no wider. -/
theorem max_le_of_unsigned (hT : T.signed = false) (hbits : S.bits ≤ T.bits) :
    S.max ≤ T.max := by
  have hpow : (2 : ℤ) ^ S.bits ≤ 2 ^ T.bits :=
    pow_le_pow_right₀ (by decide) hbits
  have hmin := S.min_nonpos
  rw [S.max_eq, T.max_eq, min_of_unsigned hT]
  omega

/-- The common type holds both operand types, or it is the unsigned one of them
and takes the other up to its maximum. -/
theorem common_cases (S T : IntType) :
    (S.Embeds (S.common T) ∧ T.Embeds (S.common T)) ∨
      (S.common T = T ∧ T.signed = false ∧ S.max ≤ T.max) ∨
      (S.common T = S ∧ S.signed = false ∧ T.max ≤ S.max) := by
  have hS := S.embeds_promoted
  have hT := T.embeds_promoted
  by_cases hsame : S.promoted.signed = T.promoted.signed
  · left
    by_cases hbits : S.promoted.bits < T.promoted.bits
    · have hcommon : S.common T = T.promoted := by
        simp [common, hsame, hbits]
      rw [hcommon]
      exact ⟨hS.trans (embeds_of_le hsame hbits.le), hT⟩
    · have hcommon : S.common T = S.promoted := by
        simp [common, hsame, hbits]
      rw [hcommon]
      exact ⟨hS, hT.trans (embeds_of_le hsame.symm (not_lt.mp hbits))⟩
  by_cases hsigned : S.promoted.signed = true
  · have hunsigned : T.promoted.signed = false := by
      rw [hsigned] at hsame
      simpa using hsame
    by_cases hbits : T.promoted.bits < S.promoted.bits
    · have hcommon : S.common T = S.promoted := by
        simp [common, hsigned, hunsigned, hbits]
      rw [hcommon]
      exact Or.inl ⟨hS, hT.trans (embeds_of_lt hsigned hbits)⟩
    · have hcommon : S.common T = T.promoted := by
        simp [common, hsigned, hunsigned, hbits]
      have hmax := max_le_of_unsigned hunsigned (not_lt.mp hbits)
      have hself := promoted_of_unsigned hunsigned
      rw [hself] at hcommon hunsigned hmax
      exact Or.inr (Or.inl ⟨hcommon, hunsigned, hS.2.trans hmax⟩)
  · have hunsigned : S.promoted.signed = false := by simpa using hsigned
    have hsigned : T.promoted.signed = true := by
      rw [hunsigned] at hsame
      simpa using Ne.symm hsame
    by_cases hbits : S.promoted.bits < T.promoted.bits
    · have hcommon : S.common T = T.promoted := by
        simp [common, hsigned, hunsigned, hbits]
      rw [hcommon]
      exact Or.inl ⟨hS.trans (embeds_of_lt hsigned hbits), hT⟩
    · have hcommon : S.common T = S.promoted := by
        simp [common, hsigned, hunsigned, hbits]
      have hmax := max_le_of_unsigned hunsigned (not_lt.mp hbits)
      have hself := promoted_of_unsigned hunsigned
      rw [hself] at hcommon hunsigned hmax
      exact Or.inr (Or.inr ⟨hcommon, hunsigned, hT.2.trans hmax⟩)

end IntType

/-- The values of an integer type. -/
structure Word (T : IntType) where
  toInt : ℤ
  inRange : T.InRange toInt

namespace Word

variable {S T U : IntType}

@[ext] theorem ext {x y : Word T} (h : x.toInt = y.toInt) : x = y := by
  cases x
  cases y
  congr

instance : DecidableEq (Word T) := fun x y =>
  decidable_of_iff (x.toInt = y.toInt) ⟨Word.ext, fun h => h ▸ rfl⟩

/-- The value of the type that agrees with `x` modulo the width. -/
def ofInt (T : IntType) (x : ℤ) : Word T :=
  ⟨T.wrap x, T.wrap_inRange x⟩

/-- `std::numeric_limits<T>::max()`. -/
def max (T : IntType) : Word T :=
  ⟨T.max, T.max_inRange⟩

@[simp] theorem toInt_max (T : IntType) : (max T).toInt = T.max := rfl

/-- Conversion to another type. -/
def convert (U : IntType) (x : Word T) : Word U :=
  ofInt U x.toInt

@[simp] theorem toInt_convert (U : IntType) (x : Word T) :
    (x.convert U).toInt = U.wrap x.toInt := rfl

/-- An operand after integer promotion. -/
def promote (x : Word T) : Word T.promoted :=
  x.convert T.promoted

@[simp] theorem toInt_promote (x : Word T) : x.promote.toInt = x.toInt :=
  IntType.wrap_of_inRange (x.inRange.of_embeds T.embeds_promoted)

/-- `x > y`, compared in the common type. -/
def greater (x : Word S) (y : Word T) : Bool :=
  decide ((x.convert (S.common T)).toInt > (y.convert (S.common T)).toInt)

/-! ## Arithmetic -/

/-- An exact result, brought into the type it is computed in. -/
def arith (T : IntType) (x : ℤ) : Eval (Word T) :=
  ⟨ofInt T x, !decide (T.InRange x)⟩

def add (x y : Word T) : Eval (Word T) := arith T (x.toInt + y.toInt)
def sub (x y : Word T) : Eval (Word T) := arith T (x.toInt - y.toInt)
def mul (x y : Word T) : Eval (Word T) := arith T (x.toInt * y.toInt)

/-- `x / y`, rounded toward zero.  Division by zero counts as overflow. -/
def div (x y : Word T) : Eval (Word T) :=
  ⟨ofInt T (x.toInt.tdiv y.toInt),
    decide (y.toInt = 0) || !decide (T.InRange (x.toInt.tdiv y.toInt))⟩

/-- `x % y`, with the sign of `x`.  It overflows where `x / y` does. -/
def mod (x y : Word T) : Eval (Word T) :=
  ⟨ofInt T (x.toInt.tmod y.toInt), (div x y).overflow⟩

theorem overflow_arith (x : ℤ) :
    (arith T x).overflow = false ↔ T.InRange x := by
  simp [arith]

/-- A step is exact if its result fits. -/
theorem arith_ensures {x : ℤ} (h : T.InRange x) :
    (arith T x).Ensures fun w => w.toInt = x :=
  ⟨IntType.wrap_of_inRange h, (overflow_arith x).mpr h⟩

section Rules

variable {x y : Word T} {m n : ℤ}

/-! The rules for a step whose operands are known. -/

theorem add_ensures (hx : x.toInt = m) (hy : y.toInt = n)
    (h : T.InRange (m + n)) : (add x y).Ensures fun w => w.toInt = m + n := by
  subst hx hy
  exact arith_ensures h

theorem sub_ensures (hx : x.toInt = m) (hy : y.toInt = n)
    (h : T.InRange (m - n)) : (sub x y).Ensures fun w => w.toInt = m - n := by
  subst hx hy
  exact arith_ensures h

theorem mul_ensures (hx : x.toInt = m) (hy : y.toInt = n)
    (h : T.InRange (m * n)) : (mul x y).Ensures fun w => w.toInt = m * n := by
  subst hx hy
  exact arith_ensures h

/-- Division is exact if the divisor is not zero and the quotient fits. -/
theorem div_ensures (hx : x.toInt = m) (hy : y.toInt = n) (hn : n ≠ 0)
    (h : T.InRange (m.tdiv n)) :
    (div x y).Ensures fun w => w.toInt = m.tdiv n := by
  subst hx hy
  constructor
  · exact IntType.wrap_of_inRange h
  · simp [div, hn, h]

/-- The remainder is exact if the quotient is. -/
theorem mod_ensures (hx : x.toInt = m) (hy : y.toInt = n) (hn : n ≠ 0)
    (h : T.InRange (m.tdiv n)) :
    (mod x y).Ensures fun w => w.toInt = m.tmod n := by
  subst hx hy
  exact ⟨IntType.wrap_of_inRange (x.inRange.tmod y.toInt),
    (div_ensures rfl rfl hn h).2⟩

end Rules

end Word

/-! ## Exact results -/

/-- There is a result exactly if the type can represent the number, and then the
result is that number. -/
structure IsExact (T : IntType) (number : ℤ) (result : Option (Word T)) :
    Prop where
  isSome_iff : result.isSome = true ↔ T.InRange number
  toInt_eq : ∀ w, result = some w → w.toInt = number

theorem isExact_none {T : IntType} {number : ℤ} :
    IsExact T number none ↔ ¬T.InRange number := by
  constructor
  · intro h hrange
    simpa using h.isSome_iff.mpr hrange
  · intro h
    exact ⟨by simp [h], by simp⟩

theorem isExact_some {T : IntType} {number : ℤ} {w : Word T} :
    IsExact T number (some w) ↔ w.toInt = number := by
  constructor
  · intro h
    exact h.toInt_eq w rfl
  · rintro rfl
    refine ⟨by simp [w.inRange], ?_⟩
    intro v hv
    rw [Option.some.inj hv]

/-! ## Scaling a quotient -/

section Scaling

variable {f u : ℤ}

/-- A scaled quotient is the scaled whole part and the quotient of the scaled
remainder, with every division rounded toward zero. -/
theorem mul_tdiv_eq (hf : 0 < f) (hu : 0 ≤ u) (d : ℤ) :
    (d * u).tdiv f = d.tdiv f * u + (d.tmod f * u).tdiv f := by
  have hnonneg : ∀ e : ℤ, 0 ≤ e →
      (e * u).tdiv f = e.tdiv f * u + (e.tmod f * u).tdiv f := by
    intro e he
    have hrest := Int.emod_nonneg e (Int.ne_of_gt hf)
    have hsplit : e * u = e % f * u + f * (e / f * u) := by
      rw [← mul_assoc, ← add_mul, Int.emod_add_mul_ediv]
    rw [Int.tdiv_eq_ediv_of_nonneg (mul_nonneg he hu),
      Int.tdiv_eq_ediv_of_nonneg he, Int.tmod_eq_emod_of_nonneg he,
      Int.tdiv_eq_ediv_of_nonneg (mul_nonneg hrest hu), hsplit,
      Int.add_mul_ediv_left _ _ (Int.ne_of_gt hf), add_comm]
  rcases le_total 0 d with hd | hd
  · exact hnonneg d hd
  · -- both sides change sign with `d`
    have hneg := hnonneg (-d) (neg_nonneg.mpr hd)
    simp only [neg_mul, Int.neg_tdiv, Int.neg_tmod, ← neg_add] at hneg
    exact neg_inj.mp hneg

/-- The scaled whole part lies between zero and the scaled quotient. -/
theorem tdiv_mul_between (hf : 0 < f) (hu : 0 ≤ u) (d : ℤ) :
    (0 ≤ d.tdiv f * u ∧ d.tdiv f * u ≤ (d * u).tdiv f) ∨
      ((d * u).tdiv f ≤ d.tdiv f * u ∧ d.tdiv f * u ≤ 0) := by
  have hsplit := mul_tdiv_eq hf hu d
  rcases le_total 0 d with hd | hd
  · have hwhole := mul_nonneg (Int.tdiv_nonneg hd hf.le) hu
    have hpart := Int.tdiv_nonneg (mul_nonneg (Int.tmod_nonneg f hd) hu) hf.le
    left
    omega
  · have hneg := neg_nonneg.mpr hd
    have hwhole := mul_nonneg (Int.tdiv_nonneg hneg hf.le) hu
    have hpart :=
      Int.tdiv_nonneg (mul_nonneg (Int.tmod_nonneg f hneg) hu) hf.le
    simp only [Int.neg_tdiv, Int.neg_tmod, neg_mul] at hwhole hpart
    right
    omega

/-- The scaled remainder is less than the scaled divisor. -/
theorem abs_tmod_mul_le (hf : 0 < f) (hu : 0 ≤ u) (d : ℤ) :
    -((f - 1) * u) ≤ d.tmod f * u ∧ d.tmod f * u ≤ (f - 1) * u := by
  have hlt := Int.tmod_lt_of_pos d hf
  have hneg := Int.tmod_lt_of_pos (-d) hf
  rw [Int.neg_tmod] at hneg
  constructor
  · rw [← neg_mul]
    exact mul_le_mul_of_nonneg_right (by omega) hu
  · exact mul_le_mul_of_nonneg_right (by omega) hu

end Scaling

end FixedWidth
