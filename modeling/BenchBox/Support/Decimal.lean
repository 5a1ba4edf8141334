import Mathlib.Algebra.Order.Round
import Mathlib.Data.Int.Notation
import Mathlib.Data.Rat.Floor
import Mathlib.Tactic.Linarith

/-!
# Decimal fixed-point texts

Rounding to the nearest integer, ties to even, and the texts with two decimals
that are printed after it.  Such a text determines the number of hundredths.
-/

namespace Decimal

/-- The nearest integer, and of two the even one. -/
def roundHalfEven (x : ℚ) : ℤ :=
  if x - ⌊x⌋ < 1 / 2 then ⌊x⌋
  else if x - ⌊x⌋ = 1 / 2 ∧ ⌊x⌋ % 2 = 0 then ⌊x⌋
  else ⌊x⌋ + 1

/-- An even number is reached from one half below it on. -/
theorem le_roundHalfEven_iff {m : ℤ} (hm : m % 2 = 0) (x : ℚ) :
    m ≤ roundHalfEven x ↔ (m : ℚ) - 1 / 2 ≤ x := by
  have hfloor := Int.floor_le x
  have hceil := Int.lt_floor_add_one x
  unfold roundHalfEven
  split
  · rename_i hbelow
    constructor
    · intro hle
      have hcast : (m : ℚ) ≤ ⌊x⌋ := by exact_mod_cast hle
      linarith
    · intro hle
      have hlt : (m : ℚ) < ⌊x⌋ + 1 := by linarith
      exact Int.lt_add_one_iff.mp (by exact_mod_cast hlt)
  · rename_i hhalf
    split
    · rename_i htie
      constructor
      · intro hle
        have hcast : (m : ℚ) ≤ ⌊x⌋ := by exact_mod_cast hle
        linarith
      · intro hle
        have hcast : (m : ℚ) ≤ ⌊x⌋ + 1 := by linarith [htie.1]
        have hsucc : m ≤ ⌊x⌋ + 1 := by exact_mod_cast hcast
        omega
    · constructor
      · intro hle
        have hcast : (m : ℚ) ≤ ⌊x⌋ + 1 := by exact_mod_cast hle
        linarith
      · intro hle
        have hlt : (m : ℚ) < ⌊x⌋ + 2 := by linarith
        have hsucc : m < ⌊x⌋ + 2 := by exact_mod_cast hlt
        omega

theorem roundHalfEven_nonneg {x : ℚ} (hx : 0 ≤ x) : 0 ≤ roundHalfEven x := by
  rw [le_roundHalfEven_iff (by decide)]
  push_cast
  linarith

theorem roundHalfEven_intCast (m : ℤ) : roundHalfEven m = m := by
  rw [roundHalfEven, Int.floor_intCast, sub_self, if_pos (by norm_num)]

/-- The hundredths that are printed of a number that is not negative. -/
def hundredths (x : ℚ) : ℕ :=
  (roundHalfEven (x * 100)).toNat

theorem le_hundredths_iff {m : ℕ} (hm : m % 2 = 0) {x : ℚ} (hx : 0 ≤ x) :
    m ≤ hundredths x ↔ (m : ℚ) - 1 / 2 ≤ x * 100 := by
  have hnonneg : 0 ≤ roundHalfEven (x * 100) :=
    roundHalfEven_nonneg (mul_nonneg hx (by norm_num))
  have heven : (m : ℤ) % 2 = 0 := by omega
  rw [hundredths, Int.le_toNat hnonneg, le_roundHalfEven_iff heven]
  push_cast
  rfl

/-- The text of `n` hundredths. -/
def twoDecimals (n : ℕ) : List Char :=
  Nat.toDigits 10 (n / 100) ++
    ['.', Nat.digitChar (n / 10 % 10), Nat.digitChar (n % 10)]

/-- `{:.2f}`. -/
def fixed2 (x : ℚ) : List Char :=
  (if x < 0 then ['-'] else []) ++ twoDecimals (hundredths |x|)

theorem fixed2_of_nonneg {x : ℚ} (hx : 0 ≤ x) :
    fixed2 x = twoDecimals (hundredths x) := by
  rw [fixed2, if_neg hx.not_gt, List.nil_append, abs_of_nonneg hx]

theorem isDigit_toDigits {n : ℕ} {c : Char} (hc : c ∈ Nat.toDigits 10 n) :
    c.isDigit = true :=
  Nat.isDigit_of_mem_toDigits (by decide) (by decide) hc

/-- A number is read whole, whatever follows it that is not a digit. -/
theorem takeWhile_isDigit_toDigits {n : ℕ} {rest : List Char}
    (h : ∀ c ∈ rest.head?, c.isDigit = false) :
    (Nat.toDigits 10 n ++ rest).takeWhile Char.isDigit = Nat.toDigits 10 n := by
  rw [List.takeWhile_append_of_pos fun c hc => isDigit_toDigits hc]
  cases rest with
  | nil => simp
  | cons c rest =>
      have hc := h c rfl
      rw [List.takeWhile_cons_of_neg (by simp [hc]), List.append_nil]

theorem dropWhile_isDigit_toDigits {n : ℕ} {rest : List Char}
    (h : ∀ c ∈ rest.head?, c.isDigit = false) :
    (Nat.toDigits 10 n ++ rest).dropWhile Char.isDigit = rest := by
  rw [List.dropWhile_append_of_pos fun c hc => isDigit_toDigits hc]
  cases rest with
  | nil => rfl
  | cons c rest =>
      have hc := h c rfl
      exact List.dropWhile_cons_of_neg (by simp [hc])

/-- Nothing but digits and the point is printed. -/
theorem mem_twoDecimals {n : ℕ} {c : Char} (hc : c ∈ twoDecimals n) :
    c = '.' ∨ c.isDigit = true := by
  rw [twoDecimals, List.mem_append, List.mem_cons, List.mem_cons,
    List.mem_singleton] at hc
  rcases hc with hwhole | rfl | rfl | rfl
  · exact Or.inr (isDigit_toDigits hwhole)
  · exact Or.inl rfl
  · right
    rw [Nat.isDigit_digitChar, decide_eq_true_eq]
    omega
  · right
    rw [Nat.isDigit_digitChar, decide_eq_true_eq]
    omega

theorem point_mem_twoDecimals (n : ℕ) : '.' ∈ twoDecimals n :=
  List.mem_append_right _ List.mem_cons_self

/-- The digits of the text give the hundredths back. -/
theorem ofDigitChars_twoDecimals (n : ℕ) :
    Nat.ofDigitChars 10 ((twoDecimals n).filter Char.isDigit) 0 = n := by
  have hwhole : (Nat.toDigits 10 (n / 100)).filter Char.isDigit =
      Nat.toDigits 10 (n / 100) :=
    List.filter_eq_self.mpr fun c hc => isDigit_toDigits hc
  have htenths : n / 10 % 10 < 10 := by omega
  have hlast : n % 10 < 10 := by omega
  have hpoint : ¬Char.isDigit '.' = true := by decide
  have hdigits : (twoDecimals n).filter Char.isDigit =
      Nat.toDigits 10 (n / 100) ++
        [Nat.digitChar (n / 10 % 10), Nat.digitChar (n % 10)] := by
    rw [twoDecimals, List.filter_append, hwhole, List.filter_cons_of_neg hpoint,
      List.filter_eq_self.mpr]
    simp [htenths, hlast]
  rw [hdigits, Nat.ofDigitChars_append, Nat.ofDigitChars_ten_toDigits,
    Nat.ofDigitChars_cons_digitChar_of_lt_ten htenths,
    Nat.ofDigitChars_cons_digitChar_of_lt_ten hlast, Nat.ofDigitChars_nil]
  omega

theorem twoDecimals_injective : Function.Injective twoDecimals := by
  intro m n h
  rw [← ofDigitChars_twoDecimals m, h, ofDigitChars_twoDecimals]

/-! ## Reading a text back -/

theorem abs_roundHalfEven_sub_le (x : ℚ) : |(roundHalfEven x : ℚ) - x| ≤ 1 / 2 := by
  have hfloor := Int.floor_le x
  have hceil := Int.lt_floor_add_one x
  rw [abs_le]
  unfold roundHalfEven
  split
  · constructor <;> linarith
  · rename_i hhalf
    split
    · rename_i htie
      constructor <;> linarith [htie.1]
    · push_cast
      constructor <;> linarith

/-- The printed hundredths are at most half of one away. -/
theorem abs_hundredths_sub_le {x : ℚ} (hx : 0 ≤ x) :
    |(hundredths x : ℚ) / 100 - x| ≤ 1 / 200 := by
  have hnonneg : 0 ≤ roundHalfEven (x * 100) :=
    roundHalfEven_nonneg (mul_nonneg hx (by norm_num))
  have hcast : (hundredths x : ℚ) = roundHalfEven (x * 100) := by
    rw [hundredths, ← Int.cast_natCast, Int.toNat_of_nonneg hnonneg]
  have hround := abs_le.mp (abs_roundHalfEven_sub_le (x * 100))
  rw [hcast, abs_le]
  constructor <;> linarith [hround.1, hround.2]

/-- The number of a text with a point and two decimals. -/
def readFixed2 (text : List Char) : Option ℚ :=
  if '.' ∈ text then
    let magnitude : ℚ :=
      Nat.ofDigitChars 10 (text.filter Char.isDigit) 0 / 100
    some (if text.head? = some '-' then -magnitude else magnitude)
  else
    none

theorem head?_twoDecimals_ne (n : ℕ) : (twoDecimals n).head? ≠ some '-' := by
  intro hhead
  have hmem := List.mem_of_head? hhead
  rcases mem_twoDecimals hmem with h | h
  · exact absurd h (by decide)
  · exact absurd h (by decide)

/-- What is read is the printed number up to half a hundredth. -/
theorem readFixed2_fixed2 (x : ℚ) :
    ∃ y, readFixed2 (fixed2 x) = some y ∧ |y - x| ≤ 1 / 200 := by
  have hpoint : '.' ∈ fixed2 x :=
    List.mem_append_right _ (point_mem_twoDecimals _)
  have hround := abs_hundredths_sub_le (abs_nonneg x)
  rw [readFixed2, if_pos hpoint]
  refine ⟨_, rfl, ?_⟩
  rw [fixed2]
  by_cases hx : x < 0
  · rw [if_pos hx, List.singleton_append,
      List.filter_cons_of_neg (by decide), ofDigitChars_twoDecimals,
      if_pos List.head?_cons]
    rw [abs_of_neg hx] at hround ⊢
    rw [← abs_neg]
    convert hround using 2
    ring
  · rw [if_neg hx, List.nil_append, ofDigitChars_twoDecimals,
      if_neg (head?_twoDecimals_ne _)]
    rwa [abs_of_nonneg (not_lt.mp hx)] at hround ⊢

end Decimal
