import BenchBox.Support.Decimal
import Mathlib.Data.Nat.Size

/-!
# Rounding to a number of bits

A natural number with more bits than a significand has is rounded to the nearest
one that has not, and to the one with the even significand if there are two.  The
numbers that fit are kept.
-/

namespace Significand

open Decimal

variable {bits n : ℕ}

/-- The bits of a number that a significand of `bits` bits has no place for. -/
def excess (bits n : ℕ) : ℕ :=
  n.size - bits

/-- The nearest number with a significand of `bits` bits. -/
def roundBits (bits n : ℕ) : ℕ :=
  (roundHalfEven (n / 2 ^ excess bits n)).toNat * 2 ^ excess bits n

theorem excess_of_lt (h : n < 2 ^ bits) : excess bits n = 0 :=
  Nat.sub_eq_zero_of_le (Nat.size_le.mpr h)

/-- A number that fits is kept. -/
theorem roundBits_of_lt (h : n < 2 ^ bits) : roundBits bits n = n := by
  rw [roundBits, excess_of_lt h, pow_zero, pow_zero, div_one, Nat.mul_one,
    ← Int.cast_natCast, roundHalfEven_intCast, Int.toNat_natCast]

end Significand
