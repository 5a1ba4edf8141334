import Mathlib.Data.List.TakeWhile
import Mathlib.Data.Nat.Notation

/-!
# Bytes

The bytes of a word, the lowest first, and the word of some bytes.  A text in an
array of bytes ends at the first zero byte.
-/

namespace Bytes

variable {w n : ℕ} {bytes text : List (BitVec 8)}

/-- The bytes of a word, the lowest first. -/
def ofWord (n : ℕ) (x : BitVec w) : List (BitVec 8) :=
  (List.range n).map fun i => x.extractLsb' (8 * i) 8

/-- The word of some bytes, the lowest first. -/
def toWord (w : ℕ) : List (BitVec 8) → BitVec w
  | [] => 0#w
  | b :: bytes => b.setWidth w ||| toWord w bytes <<< 8

/-- The part of an array before its first zero byte. -/
def cString (bytes : List (BitVec 8)) : List (BitVec 8) :=
  bytes.takeWhile (· != 0#8)

/-! ## Words -/

@[simp] theorem length_ofWord (x : BitVec w) : (ofWord n x).length = n := by
  rw [ofWord, List.length_map, List.length_range]

theorem getElem?_ofWord (x : BitVec w) {k : ℕ} (hk : k < n) :
    (ofWord n x)[k]? = some (x.extractLsb' (8 * k) 8) := by
  rw [ofWord, List.getElem?_map, List.getElem?_range hk]
  rfl

/-- The bits of a word are those of its bytes. -/
theorem getLsbD_toWord (bytes : List (BitVec 8)) {i : ℕ} (hi : i < w) :
    (toWord w bytes).getLsbD i =
      (bytes[i / 8]?.getD 0#8).getLsbD (i % 8) := by
  induction bytes generalizing i with
  | nil => simp [toWord]
  | cons b bytes ih =>
      rw [toWord, BitVec.getLsbD_or, BitVec.getLsbD_setWidth,
        BitVec.getLsbD_shiftLeft]
      by_cases hlow : i < 8
      · rw [Nat.div_eq_of_lt hlow, Nat.mod_eq_of_lt hlow]
        simp [hi, hlow]
      · have hrest := ih (i := i - 8) (by omega)
        have hdiv : i / 8 = (i - 8) / 8 + 1 := by omega
        have hmod : i % 8 = (i - 8) % 8 := by omega
        have hhigh : b.getLsbD i = false := BitVec.getLsbD_of_ge b i (by omega)
        rw [hrest, hhigh, hdiv, hmod, List.getElem?_cons_succ]
        simp [hi, hlow]

/-- The bytes of a word are those that it is made of. -/
theorem ofWord_toWord (h : 8 * bytes.length ≤ w) :
    ofWord bytes.length (toWord w bytes) = bytes := by
  apply List.ext_getElem?
  intro k
  by_cases hk : k < bytes.length
  · rw [getElem?_ofWord _ hk, List.getElem?_eq_getElem hk]
    congr 1
    apply BitVec.eq_of_getLsbD_eq
    intro j hj
    have hdiv : (8 * k + j) / 8 = k := by omega
    have hmod : (8 * k + j) % 8 = j := by omega
    rw [BitVec.getLsbD_extractLsb', getLsbD_toWord bytes (by omega), hdiv, hmod,
      List.getElem?_eq_getElem hk]
    simp [hj]
  · rw [List.getElem?_eq_none (by rw [length_ofWord]; omega),
      List.getElem?_eq_none (by omega)]

/-- A word is made of its bytes. -/
theorem toWord_ofWord (x : BitVec w) (h : w ≤ 8 * n) :
    toWord w (ofWord n x) = x := by
  apply BitVec.eq_of_getLsbD_eq
  intro i hi
  have hbit : 8 * (i / 8) + i % 8 = i := Nat.div_add_mod i 8
  rw [getLsbD_toWord _ hi, getElem?_ofWord x (by omega), Option.getD_some,
    BitVec.getLsbD_extractLsb', hbit]
  simp [Nat.mod_lt]

/-! ## Texts -/

/-- The text before the first zero byte, whatever is after it. -/
theorem cString_eq_iff :
    cString bytes = text ↔
      0#8 ∉ text ∧ ∃ rest, bytes = text ++ rest ∧ ∀ b ∈ rest.head?, b = 0#8 := by
  constructor
  · rintro rfl
    refine ⟨?_, bytes.dropWhile (· != 0#8),
      List.takeWhile_append_dropWhile.symm, ?_⟩
    · intro hzero
      exact absurd (List.mem_takeWhile_imp hzero) (by simp)
    · intro b hb
      have hstop := List.head?_dropWhile_not (· != 0#8) bytes
      rw [Option.mem_def.mp hb] at hstop
      simpa using hstop
  · rintro ⟨hzero, rest, rfl, hrest⟩
    rw [cString, List.takeWhile_append_of_pos]
    · cases rest with
      | nil => exact List.append_nil _
      | cons b rest =>
          rw [hrest b rfl, List.takeWhile_cons_of_neg (by simp),
            List.append_nil]
    · intro b hb
      simpa using fun hb0 : b = 0#8 => hzero (hb0 ▸ hb)

/-- One more zero byte ends the array itself. -/
@[simp] theorem cString_append_zero (bytes : List (BitVec 8)) :
    cString (bytes ++ [0#8]) = cString bytes := by
  rw [cString, cString, List.takeWhile_append,
    List.takeWhile_cons_of_neg (by simp), List.append_nil]
  split
  · rename_i hlength
    exact ((List.takeWhile_prefix _).eq_of_length hlength).symm
  · rfl

/-- An array of zero bytes is the empty text. -/
@[simp] theorem cString_replicate (n : ℕ) :
    cString (List.replicate n 0#8) = [] := by
  cases n with
  | zero => rfl
  | succ n => rw [cString, List.replicate_succ, List.takeWhile_cons_of_neg (by simp)]

end Bytes
