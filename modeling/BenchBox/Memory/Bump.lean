import BenchBox.Support.FixedWidth
import BenchBox.Support.RoundUp

/-!
# The bump allocator

`unsafe_bump_allocator` hands out consecutive blocks of one heap and checks
nothing.  Pointers and sizes are 64-bit words, and the evaluation records the
additions that wrap around.
-/

namespace BenchBox

open FixedWidth RoundUp

/-- `align_up` for an unsigned type. -/
def alignUp {w : ℕ} (size align : BitVec w) : Eval (BitVec w) := do
  let sum ← uadd size align
  pure ((sum - 1#w) &&& ~~~(align - 1#w))

/-- `unsafe_bump_allocator`. -/
structure UnsafeBumpAllocator where
  useLargePages : Bool := false
  heapSize : BitVec 64 := 0
  heap : BitVec 64 := 0
  current : BitVec 64 := 0
deriving DecidableEq

namespace UnsafeBumpAllocator

/-- The constructor. -/
def create (tryMallocLargePage tryMallocAligned64 : BitVec 64 → BitVec 64)
    (useLp : Bool) (sizeBytes : BitVec 64) : UnsafeBumpAllocator :=
  let heap :=
    if useLp then tryMallocLargePage sizeBytes
    else tryMallocAligned64 sizeBytes
  { useLargePages := useLp, heapSize := sizeBytes, heap, current := heap }

/-- `allocate`. -/
def allocate (alloc : UnsafeBumpAllocator) (bytes align : BitVec 64) :
    Eval (BitVec 64 × UnsafeBumpAllocator) := do
  let aligned ← alignUp alloc.current align
  let next ← uadd aligned bytes
  pure (aligned, { alloc with current := next })

/-- The arguments of a call to `allocate`. -/
structure Request where
  bytes : BitVec 64
  align : BitVec 64
deriving DecidableEq

/-- What a request takes from the heap at most. -/
def Request.cost (r : Request) : ℕ :=
  r.bytes.toNat + r.align.toNat - 1

/-- The alignment is a power of two. -/
def Request.Valid (r : Request) : Prop :=
  ∃ k, r.align.toNat = 2 ^ k

/-- A sequence of calls to `allocate`, with the addresses returned. -/
def allocateAll (alloc : UnsafeBumpAllocator) :
    List Request → Eval (List (BitVec 64) × UnsafeBumpAllocator)
  | [] => pure ([], alloc)
  | r :: rs => do
      let first ← alloc.allocate r.bytes r.align
      let rest ← first.2.allocateAll rs
      pure (first.1 :: rest.1, rest.2)

section Step

variable {alloc : UnsafeBumpAllocator} {r : Request} {limit : ℕ}

/-- Below the limit, alignment rounds the pointer up. -/
theorem toNat_alignUp (hvalid : r.Valid)
    (hfit : alloc.current.toNat + r.cost ≤ limit) (hlimit : limit < 2 ^ 64) :
    (alignUp alloc.current r.align).value.toNat =
      roundUp alloc.current.toNat r.align.toNat := by
  obtain ⟨k, hk⟩ := hvalid
  unfold Request.cost at hfit
  have hsum : alloc.current.toNat + 2 ^ k - 1 < 2 ^ 64 := by omega
  have hmask := toNat_mask alloc.current hk
  rw [if_pos hsum, ← hk] at hmask
  exact hmask

theorem Request.Valid.align_pos (hvalid : r.Valid) : 0 < r.align.toNat := by
  obtain ⟨k, hk⟩ := hvalid
  rw [hk]
  exact Nat.two_pow_pos k

/-- Below the limit, the end of the block does not wrap around. -/
theorem next_lt (hvalid : r.Valid)
    (hfit : alloc.current.toNat + r.cost ≤ limit) (hlimit : limit < 2 ^ 64) :
    (alignUp alloc.current r.align).value.toNat + r.bytes.toNat < 2 ^ 64 := by
  have hbelow := roundUp_le alloc.current.toNat r.align.toNat
  have hpos := hvalid.align_pos
  rw [toNat_alignUp hvalid hfit hlimit]
  unfold Request.cost at hfit
  omega

/-- A call moves the pointer past the block it returns, by no more than its
cost. -/
theorem allocate_step (hvalid : r.Valid)
    (hfit : alloc.current.toNat + r.cost ≤ limit) (hlimit : limit < 2 ^ 64) :
    let result := (alloc.allocate r.bytes r.align).value
    r.align.toNat ∣ result.1.toNat ∧
      alloc.current.toNat ≤ result.1.toNat ∧
      result.1.toNat + r.bytes.toNat = result.2.current.toNat ∧
      result.2.current.toNat ≤ alloc.current.toNat + r.cost := by
  intro result
  have haligned := toNat_alignUp hvalid hfit hlimit
  have hpos := hvalid.align_pos
  have hbelow := roundUp_le alloc.current.toNat r.align.toNat
  have habove := le_roundUp hpos alloc.current.toNat
  have hsum := next_lt hvalid hfit hlimit
  have hnext := (uadd_ensures hsum).1
  refine ⟨?_, ?_, hnext.symm, ?_⟩
  · exact haligned ▸ dvd_roundUp _ _
  · exact haligned ▸ habove
  · refine hnext.le.trans ?_
    unfold Request.cost
    rw [haligned]
    omega

/-- Of the two additions of a call only the first can wrap around: where a
request for no bytes ends at the last address. -/
theorem allocate_overflow (hvalid : r.Valid)
    (hfit : alloc.current.toNat + r.cost ≤ limit) (hlimit : limit < 2 ^ 64) :
    (alloc.allocate r.bytes r.align).overflow =
        (alignUp alloc.current r.align).overflow ∧
      ((alignUp alloc.current r.align).overflow = true ↔
        alloc.current.toNat + r.align.toNat = 2 ^ 64) ∧
      (alloc.current.toNat + r.align.toNat = 2 ^ 64 →
        r.bytes.toNat = 0 ∧ limit = 2 ^ 64 - 1) := by
  have hnext := (uadd_ensures (next_lt hvalid hfit hlimit)).2
  have hpos := hvalid.align_pos
  unfold Request.cost at hfit
  refine ⟨?_, ?_, ?_⟩
  · rw [allocate, Eval.overflow_bind, Eval.overflow_bind, hnext]
    simp
  · rw [alignUp, Eval.overflow_bind, Eval.overflow_pure, Bool.or_false,
      overflow_uadd]
    omega
  · intro _
    omega

end Step

/-- The requests are well formed and do not take the pointer past the limit. -/
structure Fits (alloc : UnsafeBumpAllocator) (rs : List Request) (limit : ℕ) :
    Prop where
  valid : ∀ r ∈ rs, r.Valid
  bound : alloc.current.toNat + (rs.map Request.cost).sum ≤ limit

section Run

variable {alloc : UnsafeBumpAllocator} {r : Request} {rs : List Request}
  {limit : ℕ}

theorem Fits.head_valid (h : Fits alloc (r :: rs) limit) : r.Valid :=
  h.valid r List.mem_cons_self

theorem Fits.head (h : Fits alloc (r :: rs) limit) :
    alloc.current.toNat + r.cost ≤ limit := by
  have hbound := h.bound
  rw [List.map_cons, List.sum_cons] at hbound
  omega

/-- What fits still fits after the first call. -/
theorem Fits.tail (h : Fits alloc (r :: rs) limit) (hlimit : limit < 2 ^ 64) :
    Fits (alloc.allocate r.bytes r.align).value.2 rs limit := by
  obtain ⟨-, -, -, hcurrent⟩ := allocate_step h.head_valid h.head hlimit
  have hbound := h.bound
  rw [List.map_cons, List.sum_cons] at hbound
  exact ⟨fun x hx => h.valid x (List.mem_cons_of_mem r hx), by omega⟩

/-- What fits still fits after a part of the calls. -/
theorem Fits.append {before after : List Request}
    (h : Fits alloc (before ++ after) limit) (hlimit : limit < 2 ^ 64) :
    Fits (alloc.allocateAll before).value.2 after limit := by
  induction before generalizing alloc with
  | nil => exact h
  | cons r before ih => exact ih (h.tail hlimit)

/-- A run of calls that fits returns aligned blocks below the limit, one after
the other. -/
theorem allocateAll_run (h : Fits alloc rs limit) (hlimit : limit < 2 ^ 64) :
    let addresses := (alloc.allocateAll rs).value.1
    addresses.length = rs.length ∧
      (∀ x ∈ rs.zip addresses,
        x.1.align.toNat ∣ x.2.toNat ∧ alloc.current.toNat ≤ x.2.toNat ∧
          x.2.toNat + x.1.bytes.toNat ≤ limit) ∧
      (rs.zip addresses).Pairwise fun x y =>
        x.2.toNat + x.1.bytes.toNat ≤ y.2.toNat := by
  induction rs generalizing alloc with
  | nil => simp [allocateAll]
  | cons r rs ih =>
      obtain ⟨hdvd, hle, hend, -⟩ :=
        allocate_step h.head_valid h.head hlimit
      have hrest := h.tail hlimit
      obtain ⟨hlength, hblocks, hpairwise⟩ := ih hrest
      have hbound := hrest.bound
      intro addresses
      have haddresses : addresses =
          (alloc.allocate r.bytes r.align).value.1 ::
            ((alloc.allocate r.bytes r.align).value.2.allocateAll rs).value.1 :=
        rfl
      rw [haddresses, List.zip_cons_cons]
      refine ⟨by rw [List.length_cons, List.length_cons, hlength], ?_, ?_⟩
      · rw [List.forall_mem_cons]
        refine ⟨⟨hdvd, hle, hend.le.trans (by omega)⟩, ?_⟩
        intro x hx
        obtain ⟨halign, hlower, hupper⟩ := hblocks x hx
        exact ⟨halign, by omega, hupper⟩
      · rw [List.pairwise_cons]
        refine ⟨?_, hpairwise⟩
        intro x hx
        exact hend.le.trans (hblocks x hx).2.1

/-- Nothing wraps around in a run that ends before the last address. -/
theorem allocateAll_overflow (h : Fits alloc rs limit)
    (hlimit : limit < 2 ^ 64 - 1) :
    (alloc.allocateAll rs).overflow = false := by
  have hword : limit < 2 ^ 64 := by omega
  induction rs generalizing alloc with
  | nil => simp [allocateAll]
  | cons r rs ih =>
      obtain ⟨hcall, hwraps, hlast⟩ :=
        allocate_overflow h.head_valid h.head hword
      have hsafe : (alignUp alloc.current r.align).overflow = false := by
        rw [Bool.eq_false_iff, ne_eq, hwraps]
        intro heq
        have hend := (hlast heq).2
        omega
      rw [allocateAll, Eval.overflow_bind, Eval.overflow_bind, hcall, hsafe,
        ih (h.tail hword)]
      rfl

/-- Every sequence of requests whose costs add up to no more than the size of the
heap gets aligned, disjoint and ascending blocks inside it.  The only addition
that can wrap around is the first one of `align_up`, for a request of no bytes
that ends at the last address there is, and it wraps to zero exactly. -/
theorem allocateAll_create
    (tryMallocLargePage tryMallocAligned64 : BitVec 64 → BitVec 64)
    (useLp : Bool) (sizeBytes : BitVec 64) (rs : List Request) :
    let alloc :=
      create tryMallocLargePage tryMallocAligned64 useLp sizeBytes
    let b := alloc.heap.toNat
    let H := alloc.heapSize.toNat
    b + H < 2 ^ 64 → (∀ r ∈ rs, ∃ k, r.align.toNat = 2 ^ k) →
      (rs.map fun r => r.bytes.toNat + r.align.toNat - 1).sum ≤ H →
      let addresses := (alloc.allocateAll rs).value.1
      addresses.length = rs.length ∧
        (∀ x ∈ rs.zip addresses,
          x.1.align.toNat ∣ x.2.toNat ∧ b ≤ x.2.toNat ∧
            x.2.toNat + x.1.bytes.toNat ≤ b + H) ∧
        (rs.zip addresses).Pairwise (fun x y =>
          x.2.toNat + x.1.bytes.toNat ≤ y.2.toNat) ∧
        (∀ before r after, rs = before ++ r :: after →
          let current := (alloc.allocateAll before).value.2.current
          let aligned := alignUp current r.align
          (uadd aligned.value r.bytes).overflow = false ∧
            (aligned.overflow = true →
              current.toNat + r.align.toNat = 2 ^ 64 ∧ r.bytes.toNat = 0 ∧
                b + H = 2 ^ 64 - 1)) ∧
        (b + H < 2 ^ 64 - 1 → (alloc.allocateAll rs).overflow = false) := by
  intro alloc b H hheap hvalid hcost addresses
  have hfits : Fits alloc rs (b + H) :=
    ⟨hvalid, Nat.add_le_add_left hcost b⟩
  obtain ⟨hlength, hblocks, hpairwise⟩ := allocateAll_run hfits hheap
  refine ⟨hlength, hblocks, hpairwise, ?_, allocateAll_overflow hfits⟩
  rintro before r after rfl current aligned
  have hcall := hfits.append hheap
  obtain ⟨-, hwraps, hlast⟩ :=
    allocate_overflow hcall.head_valid hcall.head hheap
  refine ⟨(uadd_ensures (next_lt hcall.head_valid hcall.head hheap)).2, ?_⟩
  intro hoverflow
  have heq := hwraps.mp hoverflow
  exact ⟨heq, hlast heq⟩

end Run

/-- Two requests with different alignments to a heap of 100 bytes. -/
theorem allocateAll_create_two :
    let alloc := create (fun _ => 64) (fun _ => 64) false 100
    let rs : List Request := [⟨10, 8⟩, ⟨3, 16⟩]
    (alloc.allocateAll rs).value.1.length = 2 ∧
      (alloc.allocateAll rs).overflow = false := by
  have hvalid : ∀ r ∈ ([⟨10, 8⟩, ⟨3, 16⟩] : List Request),
      ∃ k, r.align.toNat = 2 ^ k := by
    rw [List.forall_mem_cons, List.forall_mem_singleton]
    exact ⟨⟨3, by decide⟩, ⟨4, by decide⟩⟩
  obtain ⟨hlength, -, -, -, hsafe⟩ :=
    allocateAll_create (fun _ => 64) (fun _ => 64) false 100
      [⟨10, 8⟩, ⟨3, 16⟩] (by decide) hvalid (by decide)
  exact ⟨hlength, hsafe (by decide)⟩

/-- A heap of no bytes at the last address, and a request for none of them: the
requirements are met, and `size + align` wraps around. -/
theorem allocateAll_last_address :
    let alloc := create (fun _ => -1) (fun _ => -1) false 0
    let rs : List Request := [⟨0, 1⟩]
    alloc.heap.toNat + alloc.heapSize.toNat < 2 ^ 64 ∧
      (∀ r ∈ rs, r.align.toNat = 2 ^ 0) ∧
      (rs.map fun r => r.bytes.toNat + r.align.toNat - 1).sum ≤
        alloc.heapSize.toNat ∧
      (alloc.allocateAll rs).overflow = true := by
  decide

end UnsafeBumpAllocator

end BenchBox
