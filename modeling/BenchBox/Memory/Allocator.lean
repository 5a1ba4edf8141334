import BenchBox.Math
import BenchBox.Memory.Ownership

/-!
# The large-page allocator

`lp_flex_allocator_t` for elements of `sizeOfT` bytes.  The platform functions
are parameters: what they answer to a request in bytes.  `deallocate` asks to free
the number of bytes that `allocate` asked for.
-/

namespace BenchBox

open FixedWidth

variable {Block : Type*}

/-- `math::checked_mul` at `std::size_t`, which has no product of other numbers. -/
def checkedMulSize (a b : ℕ) : Option ℕ :=
  if a < 2 ^ 64 ∧ b < 2 ^ 64 then
    (checkedMul (Word.ofInt .uint64 a) (Word.ofInt .uint64 b)).value.map
      fun product => product.toInt.toNat
  else
    none

theorem toInt_ofInt_uint64 {a : ℕ} (ha : a < 2 ^ 64) :
    (Word.ofInt .uint64 a).toInt = a := by
  apply IntType.wrap_of_inRange
  have hmax : IntType.uint64.max = 2 ^ 64 - 1 := by decide
  rw [IntType.InRange, hmax, IntType.min_of_unsigned rfl]
  omega

/-- A product of sizes is exact, and there is one exactly if it is a size. -/
theorem checkedMulSize_eq_some_iff {a b bytes : ℕ} :
    checkedMulSize a b = some bytes ↔
      (a < 2 ^ 64 ∧ b < 2 ^ 64) ∧ bytes = a * b ∧ a * b < 2 ^ 64 := by
  rw [checkedMulSize, Option.ite_none_right_eq_some]
  refine and_congr_right ?_
  rintro ⟨ha, hb⟩
  have hexact := (checkedMul_isExact_of_unsigned rfl
    (Word.ofInt .uint64 a) (Word.ofInt .uint64 b)).1
  have hmax : IntType.uint64.max = 2 ^ 64 - 1 := by decide
  have hfits : IntType.uint64.InRange ((a * b : ℕ) : ℤ) ↔ a * b < 2 ^ 64 := by
    rw [IntType.InRange, hmax, IntType.min_of_unsigned rfl]
    omega
  rw [toInt_ofInt_uint64 ha, toInt_ofInt_uint64 hb, ← Nat.cast_mul] at hexact
  cases hresult : (checkedMul (Word.ofInt .uint64 a)
      (Word.ofInt .uint64 b)).value with
  | none =>
      rw [hresult, isExact_none, hfits] at hexact
      simp only [Option.map_none, reduceCtorEq, hexact, and_false]
  | some w =>
      have hlt := hfits.mp (hexact.isSome_iff.mp (by rw [hresult]; rfl))
      rw [hresult, isExact_some] at hexact
      rw [Option.map_some, hexact, Int.toNat_natCast, Option.some.injEq]
      omega

/-- `lp_flex_allocator_t`. -/
structure LpFlexAllocator where
  useLargePages : Bool := false
deriving DecidableEq, Repr

/-- A call to `free_large_page` or `free_aligned_64`. -/
structure FreeCall (Block : Type*) where
  largePages : Bool
  ptr : Block
  bytes : ℕ
deriving DecidableEq, Repr

namespace LpFlexAllocator

/-- `try_malloc_large_page` or `try_malloc_aligned_64`. -/
def tryMalloc (alloc : LpFlexAllocator)
    (tryMallocLargePage tryMallocAligned64 : ℕ → Option Block) :
    ℕ → Option Block :=
  if alloc.useLargePages then tryMallocLargePage else tryMallocAligned64

/-- `allocate`; `none` is a thrown `std::bad_alloc`. -/
def allocate (alloc : LpFlexAllocator)
    (tryMallocLargePage tryMallocAligned64 : ℕ → Option Block)
    (sizeOfT n : ℕ) : Option (Option Block) :=
  if n = 0 then
    some none
  else
    match checkedMulSize n sizeOfT with
    | none => none
    | some bytes =>
        match alloc.tryMalloc tryMallocLargePage tryMallocAligned64 bytes with
        | none => none
        | some ptr => some (some ptr)

/-- `deallocate`: the call it makes, if any. -/
def deallocate (alloc : LpFlexAllocator) (sizeOfT : ℕ) (ptr : Option Block)
    (n : ℕ) : Option (FreeCall Block) :=
  match ptr with
  | none => none
  | some ptr =>
      match checkedMulSize n sizeOfT with
      | none => none
      | some bytes => some ⟨alloc.useLargePages, ptr, bytes⟩

variable {tryMallocLargePage tryMallocAligned64 : ℕ → Option Block}

/-- A null pointer comes from a request for no elements, a block from the
platform, asked for the exact number of bytes. -/
theorem allocate_eq_some_iff {alloc : LpFlexAllocator} {sizeOfT n : ℕ}
    {ptr : Option Block} :
    alloc.allocate tryMallocLargePage tryMallocAligned64 sizeOfT n = some ptr ↔
      (n = 0 ∧ ptr = none) ∨
      (n ≠ 0 ∧ (n < 2 ^ 64 ∧ sizeOfT < 2 ^ 64) ∧ n * sizeOfT < 2 ^ 64 ∧
        ∃ b, ptr = some b ∧
        alloc.tryMalloc tryMallocLargePage tryMallocAligned64 (n * sizeOfT) =
          some b) := by
  rw [allocate]
  by_cases hn : n = 0
  · simp [hn, eq_comm]
  · rw [if_neg hn]
    cases hbytes : checkedMulSize n sizeOfT with
    | none =>
        refine iff_of_false (by simp) ?_
        rintro (⟨hzero, -⟩ | ⟨-, hsizes, hlt, -⟩)
        · exact hn hzero
        · rw [checkedMulSize_eq_some_iff.mpr ⟨hsizes, rfl, hlt⟩] at hbytes
          contradiction
    | some bytes =>
        obtain ⟨hsizes, rfl, hlt⟩ := checkedMulSize_eq_some_iff.mp hbytes
        simp only [hn, hsizes, hlt, false_and, false_or, ne_eq,
          not_false_eq_true, true_and, and_self]
        cases alloc.tryMalloc tryMallocLargePage tryMallocAligned64
            (n * sizeOfT) with
        | none => simp
        | some b => simp [eq_comm]

/-- What `allocate` comes to, as an outcome for a buffer. -/
def outcome (result : Option (Option Block)) (constructed : Bool) :
    Allocation Block :=
  match result with
  | none => .badAlloc
  | some ptr => .pointer ptr constructed

/-- `deallocate` passes a block to the function that frees what it was taken
from, with the number of bytes that was asked for. -/
theorem deallocate_of_allocate {alloc : LpFlexAllocator} {sizeOfT n : ℕ}
    {b : Block}
    (h : alloc.allocate tryMallocLargePage tryMallocAligned64 sizeOfT n =
      some (some b)) :
    alloc.deallocate sizeOfT (some b) n =
        some ⟨alloc.useLargePages, b, n * sizeOfT⟩ ∧
      alloc.tryMalloc tryMallocLargePage tryMallocAligned64 (n * sizeOfT) =
        some b := by
  rcases allocate_eq_some_iff.mp h with
    ⟨-, hnone⟩ | ⟨-, hsizes, hlt, c, hsome, hmalloc⟩
  · simp at hnone
  · obtain rfl := Option.some.inj hsome
    refine ⟨?_, hmalloc⟩
    rw [deallocate, checkedMulSize_eq_some_iff.mpr ⟨hsizes, rfl, hlt⟩]

end LpFlexAllocator

end BenchBox
