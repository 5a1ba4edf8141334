import Mathlib.Algebra.Ring.Nat
import Mathlib.Data.List.Basic
import Mathlib.Data.List.TakeWhile
import Mathlib.Data.Nat.Notation

/-!
# Parsing numbers and comma-separated lists

The functions of `parse.h` and what they use of the standard library:
`find` and `substr` on string views and `std::from_chars`.  A string is the list
of its characters, and the position `npos` is `none`.
-/

namespace BenchBox

/-- A type satisfying `std::unsigned_integral`. -/
structure UnsignedIntegral where
  bits : ℕ
  bits_pos : 0 < bits

/-- The values of an unsigned integer type. -/
abbrev UnsignedIntegral.Val (T : UnsignedIntegral) := BitVec T.bits

@[simp] theorem UnsignedIntegral.toNat_one (T : UnsignedIntegral) :
    (1 : T.Val).toNat = 1 :=
  BitVec.toNat_one T.bits_pos

theorem UnsignedIntegral.one_ne_zero (T : UnsignedIntegral) :
    (1 : T.Val) ≠ 0 := by
  intro h
  have hnat := congrArg BitVec.toNat h
  rw [T.toNat_one] at hnat
  exact absurd hnat (by simp)

/-- `uint64_t`. -/
def uint64 : UnsignedIntegral := ⟨64, by decide⟩

abbrev StringView := List Char

/-- `sv.find(c, start)`. -/
def find (sv : StringView) (c : Char) (start : ℕ) : Option ℕ :=
  ((sv.drop start).idxOf? c).map (start + ·)

/-- `sv.substr(pos, count)`. -/
def substr (sv : StringView) (pos : ℕ) (count : Option ℕ) : StringView :=
  match count with
  | none => sv.drop pos
  | some n => (sv.drop pos).take n

/-- A match splits the searched part at its first occurrence. -/
theorem find_eq_some {sv : StringView} {c : Char} {start pos : ℕ}
    (h : find sv c start = some pos) :
    c ∉ substr sv start (some (pos - start)) ∧
      sv.drop start =
        substr sv start (some (pos - start)) ++ c :: sv.drop (pos + 1) := by
  rw [find, Option.map_eq_some_iff] at h
  obtain ⟨i, hi, rfl⟩ := h
  obtain ⟨hlt, hget, hfirst⟩ := List.idxOf?_eq_some_iff.mp hi
  rw [substr, Nat.add_sub_cancel_left]
  constructor
  · intro hmem
    obtain ⟨j, hj, hcj⟩ := List.mem_take_iff_getElem.mp hmem
    exact hfirst j (by omega) hcj
  · have hdrop : sv.drop (start + i + 1) = (sv.drop start).drop (i + 1) := by
      rw [List.drop_drop, Nat.add_assoc]
    rw [hdrop]
    conv_lhs => rw [← List.take_append_drop i (sv.drop start)]
    rw [List.drop_eq_getElem_cons hlt, hget]

theorem find_eq_none {sv : StringView} {c : Char} {start : ℕ}
    (h : find sv c start = none) : c ∉ sv.drop start := by
  rw [find, Option.map_eq_none_iff] at h
  exact List.idxOf?_eq_none_iff.mp h

theorem find_bounds {sv : StringView} {c : Char} {start pos : ℕ}
    (h : find sv c start = some pos) : start ≤ pos ∧ pos < sv.length := by
  rw [find, Option.map_eq_some_iff] at h
  obtain ⟨i, hi, rfl⟩ := h
  have hlt := (List.idxOf?_eq_some_iff.mp hi).1
  rw [List.length_drop] at hlt
  omega

/-! ## Numbers -/

inductive Errc where
  | ok
  | invalidArgument
  | resultOutOfRange
deriving DecidableEq, Repr

/-- What `std::from_chars` leaves behind: the unread rest, the error code and
the value of the output argument. -/
structure FromCharsResult where
  ptr : StringView
  ec : Errc
  value : ℕ
deriving DecidableEq, Repr

/-- `std::from_chars` in base 10 into an unsigned integer of `bits` bits that
holds `value`. -/
def fromChars (bits : ℕ) (sv : StringView) (value : ℕ) : FromCharsResult :=
  let digits := sv.takeWhile Char.isDigit
  let rest := sv.dropWhile Char.isDigit
  if digits.isEmpty then
    ⟨sv, .invalidArgument, value⟩
  else if Nat.ofDigitChars 10 digits 0 < 2 ^ bits then
    ⟨rest, .ok, Nat.ofDigitChars 10 digits 0⟩
  else
    ⟨rest, .resultOutOfRange, value⟩

/-- `parse_int`. -/
def parseInt (T : UnsignedIntegral) (sv : StringView) : Option T.Val :=
  if sv.isEmpty then
    none
  else
    let result := fromChars T.bits sv 0
    if result.ec ≠ .ok ∨ result.ptr ≠ [] then
      none
    else
      some (BitVec.ofNat T.bits result.value)

/-- A decimal numeral that fits in `bits` bits. -/
def IsNumeral (bits : ℕ) (sv : StringView) : Prop :=
  sv ≠ [] ∧ (∀ c ∈ sv, c.isDigit) ∧ Nat.ofDigitChars 10 sv 0 < 2 ^ bits

instance (bits : ℕ) (sv : StringView) : Decidable (IsNumeral bits sv) :=
  inferInstanceAs (Decidable (_ ∧ _ ∧ _))

/-- `parse_int` accepts the numerals of the type and yields their values. -/
theorem parseInt_eq (T : UnsignedIntegral) (sv : StringView) :
    parseInt T sv =
      if IsNumeral T.bits sv then
        some (BitVec.ofNat T.bits (Nat.ofDigitChars 10 sv 0))
      else none := by
  by_cases hdigits : ∀ c ∈ sv, c.isDigit
  · have htake : sv.takeWhile Char.isDigit = sv :=
      List.takeWhile_eq_self_iff.mpr hdigits
    have hdrop : sv.dropWhile Char.isDigit = [] :=
      List.dropWhile_eq_nil_iff.mpr hdigits
    rw [parseInt, fromChars, htake, hdrop]
    by_cases hempty : sv = []
    · simp [hempty, IsNumeral]
    by_cases hfits : Nat.ofDigitChars 10 sv 0 < 2 ^ T.bits
    · rw [if_pos (show IsNumeral T.bits sv from ⟨hempty, hdigits, hfits⟩)]
      simp [hempty, hfits]
    · rw [if_neg fun h : IsNumeral T.bits sv => hfits h.2.2]
      simp [hempty, hfits]
  · -- a character is left unread, whatever the digits before it say
    have hrest : sv.dropWhile Char.isDigit ≠ [] :=
      fun h => hdigits (List.dropWhile_eq_nil_iff.mp h)
    have hptr : (fromChars T.bits sv 0).ec ≠ .ok ∨
        (fromChars T.bits sv 0).ptr ≠ [] := by
      rw [fromChars]
      split
      · simp
      · split <;> simp [hrest]
    rw [if_neg fun h : IsNumeral T.bits sv => hdigits h.2.1, parseInt]
    split
    · rfl
    · exact if_pos hptr

/-- A decimal numeral that fits is read back. -/
theorem fromChars_toDigits {bits n : ℕ} (h : n < 2 ^ bits) (value : ℕ) :
    fromChars bits (Nat.toDigits 10 n) value = ⟨[], .ok, n⟩ := by
  have hdigits : ∀ c ∈ Nat.toDigits 10 n, c.isDigit := fun c hc =>
    Nat.isDigit_of_mem_toDigits (by decide) (by decide) hc
  rw [fromChars, List.takeWhile_eq_self_iff.mpr hdigits,
    List.dropWhile_eq_nil_iff.mpr hdigits]
  simp [Nat.toDigits_ne_nil, Nat.ofDigitChars_ten_toDigits, h]

/-! ## Comma-separated lists -/

/-- The text `auto`. -/
def autoText : StringView := "auto".toList

/-- The scan of `parse_list` from `start`, on the tokens found so far. -/
def parseListLoop (sv : StringView) (start : ℕ) (result : List StringView) :
    List StringView :=
  match _h : find sv ',' start with
  | none => result ++ [substr sv start none]
  | some comma =>
      parseListLoop sv (comma + 1)
        (result ++ [substr sv start (some (comma - start))])
termination_by sv.length - start
decreasing_by
  have hbounds := find_bounds _h
  omega

/-- `parse_list`. -/
def parseList (listSv : StringView) : Option (List StringView) :=
  if listSv = autoText then none else some (parseListLoop listSv 0 [])

theorem parseListLoop_of_none {sv : StringView} {start : ℕ}
    (h : find sv ',' start = none) (result : List StringView) :
    parseListLoop sv start result = result ++ [substr sv start none] := by
  rw [parseListLoop]
  split
  next => rfl
  next comma hsome => simp [h] at hsome

theorem parseListLoop_of_some {sv : StringView} {start comma : ℕ}
    (h : find sv ',' start = some comma) (result : List StringView) :
    parseListLoop sv start result =
      parseListLoop sv (comma + 1)
        (result ++ [substr sv start (some (comma - start))]) := by
  rw [parseListLoop]
  split
  next hnone => simp [h] at hnone
  next comma' hsome =>
    obtain rfl : comma = comma' := Option.some.inj (h.symm.trans hsome)
    rfl

/-- The scan appends the comma-separated tokens of what lies ahead. -/
theorem parseListLoop_eq (sv : StringView) (start : ℕ)
    (result : List StringView) :
    parseListLoop sv start result = result ++ (sv.drop start).splitOn ',' := by
  induction start, result using parseListLoop.induct sv with
  | case1 start result hnone =>
      rw [parseListLoop_of_none hnone, substr,
        List.splitOn_eq_singleton (find_eq_none hnone)]
  | case2 start result comma hsome ih =>
      obtain ⟨hfresh, hdrop⟩ := find_eq_some hsome
      rw [parseListLoop_of_some hsome, ih, hdrop,
        List.splitOn_append_cons_self_of_not_mem hfresh, List.append_assoc]
      rfl

/-- `parse_list` splits at the commas. -/
theorem parseList_eq (listSv : StringView) :
    parseList listSv =
      if listSv = autoText then none else some (listSv.splitOn ',') := by
  rw [parseList, parseListLoop_eq]
  rfl

end BenchBox
