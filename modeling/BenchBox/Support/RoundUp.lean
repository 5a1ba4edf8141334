import Mathlib.Algebra.Order.Ring.Nat
import Mathlib.Data.Nat.Notation

/-!
# Rounding up to a multiple

The smallest multiple of `a` that is not below `n`, and the usual computation of
it on words: add `a - 1` and clear the low bits with a mask.  The computation is
right for a power of two as long as the addition does not wrap around, and
yields zero otherwise.
-/

namespace RoundUp

/-- The smallest multiple of `a` from `n` on. -/
def roundUp (n a : ℕ) : ℕ :=
  (n + a - 1) / a * a

theorem dvd_roundUp (n a : ℕ) : a ∣ roundUp n a :=
  Nat.dvd_mul_left a _

theorem roundUp_le (n a : ℕ) : roundUp n a ≤ n + a - 1 :=
  Nat.div_mul_le_self _ a

theorem le_roundUp {a : ℕ} (ha : 0 < a) (n : ℕ) : n ≤ roundUp n a := by
  have hdiv := Nat.div_add_mod (n + a - 1) a
  have hmod := Nat.mod_lt (n + a - 1) ha
  rw [roundUp, Nat.mul_comm]
  omega

variable {w : ℕ}

/-- Clearing the low bits leaves a multiple of the power of two. -/
theorem toNat_and_not_low (x : BitVec w) {low : BitVec w} {k : ℕ}
    (hlow : low.toNat = 2 ^ k - 1) :
    (x &&& ~~~low).toNat = x.toNat / 2 ^ k * 2 ^ k := by
  apply Nat.eq_of_testBit_eq
  intro i
  have hbit : low.getLsbD i = decide (i < k) := by
    rw [← BitVec.testBit_toNat, hlow, Nat.testBit_two_pow_sub_one]
  rw [BitVec.testBit_toNat, BitVec.getLsbD_and, BitVec.getLsbD_not, hbit,
    Nat.testBit_mul_two_pow, Nat.testBit_div_two_pow]
  by_cases hi : i < k
  · simp [hi]
  · rw [Nat.sub_add_cancel (not_lt.mp hi), BitVec.testBit_toNat]
    by_cases hw : i < w
    · simp [hi, hw, not_lt.mp hi]
    · simp [hw, BitVec.getLsbD_of_ge x i (not_lt.mp hw)]

/-- `(size + align - 1) & ~(align - 1)`. -/
def mask (size align : BitVec w) : BitVec w :=
  (size + align - 1#w) &&& ~~~(align - 1#w)

/-- Without an alignment the mask clears everything. -/
theorem mask_zero (size : BitVec w) : mask size 0#w = 0#w := by
  have hones : 0#w - 1#w = BitVec.allOnes w := by
    rw [BitVec.zero_sub, BitVec.neg_one_eq_allOnes]
  rw [mask, hones, BitVec.not_allOnes, BitVec.and_zero]

/-- The word is rounded up, or it is zero where the sum wraps around. -/
theorem toNat_mask (size : BitVec w) {align : BitVec w} {k : ℕ}
    (halign : align.toNat = 2 ^ k) :
    (mask size align).toNat =
      if size.toNat + 2 ^ k - 1 < 2 ^ w then roundUp size.toNat (2 ^ k)
      else 0 := by
  have hsize := size.isLt
  have hlt := align.isLt
  have hpow : 0 < 2 ^ k := Nat.two_pow_pos k
  have hw : 0 < w := by
    by_contra hzero
    obtain rfl : w = 0 := Nat.eq_zero_of_not_pos hzero
    rw [halign] at hlt
    omega
  have hone : (1#w).toNat = 1 := BitVec.toNat_one hw
  have hlow : (align - 1#w).toNat = 2 ^ k - 1 := by
    have hle : 1#w ≤ align := by
      rw [BitVec.le_def, hone]
      omega
    rw [BitVec.toNat_sub_of_le hle, hone, halign]
  have hsum : (size + align - 1#w).toNat = (size.toNat + 2 ^ k - 1) % 2 ^ w := by
    have hassoc : size + align - 1#w = size + (align - 1#w) := by
      rw [BitVec.sub_eq_add_neg, BitVec.sub_eq_add_neg, BitVec.add_assoc]
    rw [hassoc, BitVec.toNat_add, hlow, Nat.add_sub_assoc hpow]
  rw [mask, toNat_and_not_low _ hlow, hsum]
  split
  next hfits => rw [Nat.mod_eq_of_lt hfits, roundUp]
  next hwraps =>
    -- what is left after the wrap is below the power of two
    have hmod : (size.toNat + 2 ^ k - 1) % 2 ^ w =
        size.toNat + 2 ^ k - 1 - 2 ^ w := by
      rw [Nat.mod_eq_sub_mod (not_lt.mp hwraps)]
      exact Nat.mod_eq_of_lt (by omega)
    rw [hmod, Nat.div_eq_of_lt (by omega), zero_mul]

end RoundUp
