import BenchBox.Memory.Allocator
import BenchBox.Support.RoundUp

/-!
# Large pages

`try_malloc_large_page` and `free_large_page` on Linux, under the large-page
allocator.  The length of a mapping is rounded up to whole pages by an addition
that can wrap around and a mask that an unknown page size degenerates.  Either
gives the length zero, which `mmap` refuses.
-/

namespace BenchBox

open RoundUp

variable {Address : Type*}

/-- A mapping: where it is and the length that was asked for. -/
structure Mapping (Address : Type*) where
  address : Address
  length : ℕ
deriving DecidableEq

/-- `bytes_rounded_up`. -/
def bytesRoundedUp (largePageSize : BitVec 64) (bytes : ℕ) : ℕ :=
  ((BitVec.ofNat 64 bytes + largePageSize - 1#64) &&&
    ~~~(largePageSize - 1#64)).toNat

/-- `try_malloc_large_page`.  `mmap` answers to a length; no answer is
`MAP_FAILED`. -/
def tryMallocLargePage (largePageSize : BitVec 64) (mmap : ℕ → Option Address)
    (bytes : ℕ) : Option (Mapping Address) :=
  let length := bytesRoundedUp largePageSize bytes
  (mmap length).map fun address => ⟨address, length⟩

/-- `free_large_page`: the call to `munmap` it makes, if any. -/
def freeLargePage (largePageSize : BitVec 64) (ptr : Option (Mapping Address))
    (bytes : ℕ) : Option (Mapping Address) :=
  ptr.map fun m => ⟨m.address, bytesRoundedUp largePageSize bytes⟩

/-- The call to `munmap` that a deallocation comes to, if any. -/
def FreeCall.munmap (largePageSize : BitVec 64)
    (call : FreeCall (Mapping Address)) : Option (Mapping Address) :=
  if call.largePages then
    freeLargePage largePageSize (some call.ptr) call.bytes
  else
    none

theorem bytesRoundedUp_zero (bytes : ℕ) : bytesRoundedUp 0#64 bytes = 0 := by
  have hmask := mask_zero (BitVec.ofNat 64 bytes)
  rw [mask] at hmask
  rw [bytesRoundedUp, hmask, BitVec.toNat_zero]

theorem bytesRoundedUp_eq {largePageSize : BitVec 64} {bytes k : ℕ}
    (hpage : largePageSize.toNat = 2 ^ k) (hbytes : bytes < 2 ^ 64) :
    bytesRoundedUp largePageSize bytes =
      if bytes + 2 ^ k - 1 < 2 ^ 64 then roundUp bytes (2 ^ k) else 0 := by
  have hmask := toNat_mask (BitVec.ofNat 64 bytes) hpage
  rw [BitVec.toNat_ofNat, Nat.mod_eq_of_lt hbytes] at hmask
  exact hmask

/-- A length that is not zero is a whole number of pages that holds the request:
the sum that wraps around and the page size zero both leave nothing. -/
theorem bytesRoundedUp_spec {largePageSize : BitVec 64} {bytes : ℕ}
    (hpage : largePageSize = 0#64 ∨ ∃ k, largePageSize.toNat = 2 ^ k)
    (hbytes : bytes < 2 ^ 64) (hne : bytesRoundedUp largePageSize bytes ≠ 0) :
    largePageSize.toNat ∣ bytesRoundedUp largePageSize bytes ∧
      bytes ≤ bytesRoundedUp largePageSize bytes := by
  rcases hpage with rfl | ⟨k, hk⟩
  · exact absurd (bytesRoundedUp_zero bytes) hne
  · rw [bytesRoundedUp_eq hk hbytes] at *
    by_cases hfits : bytes + 2 ^ k - 1 < 2 ^ 64
    · rw [if_pos hfits, hk]
      exact ⟨dvd_roundUp _ _, le_roundUp (Nat.two_pow_pos k) _⟩
    · rw [if_neg hfits] at hne
      exact absurd rfl hne

/-- Every block is mapped with a whole number of pages that holds its elements,
and unmapped with the same length. -/
theorem largePages_allocate (largePageSize : BitVec 64)
    (hpage : largePageSize = 0#64 ∨ ∃ k, largePageSize.toNat = 2 ^ k)
    (mmap : ℕ → Option Address) (extent : Address → ℕ)
    (hzero : mmap 0 = none)
    (hextent : ∀ length a, mmap length = some a → length ≤ extent a)
    (tryMallocAligned64 : ℕ → Option (Mapping Address)) (sizeOfT n : ℕ) :
    let alloc : LpFlexAllocator := ⟨true⟩
    let result := alloc.allocate (tryMallocLargePage largePageSize mmap)
      tryMallocAligned64 sizeOfT n
    (∀ m, result = some (some m) →
      mmap m.length = some m.address ∧
        largePageSize.toNat ∣ m.length ∧ n * sizeOfT ≤ m.length ∧
        n * sizeOfT ≤ extent m.address ∧
        (alloc.deallocate sizeOfT (some m) n).bind
            (FreeCall.munmap largePageSize) = some m) ∧
      (result = some none ↔ n = 0) := by
  intro alloc result
  constructor
  · intro m hresult
    obtain ⟨hfree, hmalloc⟩ :=
      LpFlexAllocator.deallocate_of_allocate hresult
    rcases LpFlexAllocator.allocate_eq_some_iff.mp hresult with
      ⟨-, hnull⟩ | ⟨-, -, hbytes, -⟩
    · simp at hnull
    have hmap : tryMallocLargePage largePageSize mmap (n * sizeOfT) = some m :=
      hmalloc
    obtain ⟨a, ha, rfl⟩ := Option.map_eq_some_iff.mp hmap
    have hne : bytesRoundedUp largePageSize (n * sizeOfT) ≠ 0 := by
      intro hlength
      rw [hlength, hzero] at ha
      simp at ha
    obtain ⟨hdvd, hle⟩ := bytesRoundedUp_spec hpage hbytes hne
    refine ⟨ha, hdvd, hle, hle.trans (hextent _ _ ha), ?_⟩
    rw [hfree]
    rfl
  · constructor
    · intro hresult
      rcases LpFlexAllocator.allocate_eq_some_iff.mp hresult with
        ⟨hn, -⟩ | ⟨-, -, -, m, hnull, -⟩
      · exact hn
      · simp at hnull
    · intro hn
      exact LpFlexAllocator.allocate_eq_some_iff.mpr (Or.inl ⟨hn, rfl⟩)

/-- Three elements of 1000 bytes take one page of 2 MiB, and give it back. -/
theorem largePages_allocate_page :
    let alloc : LpFlexAllocator := ⟨true⟩
    let mmap := fun length => if length = 2097152 then some 4096 else none
    alloc.allocate (tryMallocLargePage 2097152#64 mmap) (fun _ => none)
        1000 3 = some (some ⟨4096, 2097152⟩) ∧
      (alloc.deallocate 1000 (some (Mapping.mk 4096 2097152)) 3).bind
        (FreeCall.munmap 2097152#64) = some ⟨4096, 2097152⟩ := by
  intro alloc mmap
  have hextent : ∀ length a, mmap length = some a → length ≤ 2097152 := by
    intro length a ha
    by_contra hlarge
    have hnone : mmap length = none := if_neg fun h => hlarge h.le
    simp [hnone] at ha
  have hresult : alloc.allocate (tryMallocLargePage 2097152#64 mmap)
      (fun _ => none) 1000 3 = some (some ⟨4096, 2097152⟩) := by decide
  obtain ⟨hblock, -⟩ :=
    largePages_allocate 2097152#64 (Or.inr ⟨21, by decide⟩) mmap
      (fun _ => 2097152) (by decide) hextent (fun _ => none) 1000 3
  obtain ⟨-, -, -, -, hfree⟩ := hblock _ hresult
  exact ⟨hresult, hfree⟩

end BenchBox
