import BenchBox.Memory.Bump
import BenchBox.Support.PartialLoop
import BenchBox.Support.Regions

/-!
# The heaps of bump allocators

Bump allocators are created, moved, destroyed and asked for blocks in any order.
The platform's calls are recorded in a ledger, each with the kind and the size of
the heap.  A move takes the heap and the pointer into it to another allocator and
leaves a null heap behind, which is not given back.
-/

namespace BenchBox

open FixedWidth Ledger PartialLoop Regions UnsafeBumpAllocator

namespace UnsafeBumpAllocator

/-- The move constructor: the new allocator and the source. -/
def moveConstruct (other : UnsafeBumpAllocator) :
    UnsafeBumpAllocator × UnsafeBumpAllocator :=
  (⟨other.useLargePages, other.heapSize, other.heap, other.current⟩,
    { other with heap := 0#64, current := 0#64 })

/-- `heap_valid`. -/
def heapValid (alloc : UnsafeBumpAllocator) : Bool :=
  alloc.heap != 0#64

/-- The heap, with what it would be given back with. -/
def holding (alloc : UnsafeBumpAllocator) :
    Option (BitVec 64 × (Bool × BitVec 64)) :=
  if alloc.heapValid then
    some (alloc.heap, (alloc.useLargePages, alloc.heapSize))
  else
    none

/-- The destructor: the call to `free_large_page` or `free_aligned_64`, if
any. -/
def destroy (alloc : UnsafeBumpAllocator) :
    List (Event (BitVec 64) (Bool × BitVec 64)) :=
  if alloc.heap ≠ 0#64 then
    [.release alloc.heap (alloc.useLargePages, alloc.heapSize)]
  else
    []

/-- The addresses of the heap. -/
def region (alloc : UnsafeBumpAllocator) : Region :=
  ⟨alloc.heap.toNat, alloc.heapSize.toNat⟩

end UnsafeBumpAllocator

/-- `unsafe_bump_alloc_t<T>::allocate`, with `sizeof(T)` and `alignof(T)`.  The
product is not checked. -/
def UnsafeBumpAllocator.allocateTyped (alloc : UnsafeBumpAllocator)
    (sizeOfT alignOfT n : BitVec 64) : Eval (BitVec 64 × UnsafeBumpAllocator) :=
  alloc.allocate (sizeOfT * n) alignOfT

/-- A live allocator, and the blocks handed out of its heap. -/
structure HeapOwner where
  alloc : UnsafeBumpAllocator
  blocks : List Block := []
deriving DecidableEq

/-- The arena that an owner of a heap carves. -/
def HeapOwner.arena (owner : HeapOwner) : Option Arena :=
  if owner.alloc.heapValid then
    some ⟨owner.alloc.region, owner.alloc.current.toNat, owner.blocks⟩
  else
    none

/-- The allocators by number, `none` after the destructor, and the calls to the
platform. -/
structure Heaps where
  owners : List (Option HeapOwner) := []
  ledger : List (Event (BitVec 64) (Bool × BitVec 64)) := []
deriving DecidableEq

/-- An operation on numbered allocators.  The pointer is what the platform
returns for the heap, zero where it refuses. -/
inductive HeapOperation where
  | construct (useLp : Bool) (sizeBytes ptr : BitVec 64)
  | moveConstruct (source : ℕ)
  | destroy (target : ℕ)
  | allocate (target : ℕ) (bytes align : BitVec 64)
  | allocateTyped (target : ℕ) (sizeOfT alignOfT n : BitVec 64)
deriving DecidableEq

namespace Heaps

/-- What the platform may return for a heap: nothing, or a new address such that
the heap ends below the last address and overlaps no other heap. -/
def admissible (heaps : Heaps) (sizeBytes ptr : BitVec 64) : Bool :=
  ptr == 0#64 ||
    (decide (ptr.toNat + sizeBytes.toNat < 2 ^ 64) &&
      (outstanding heaps.ledger).all fun x =>
        x.1 != ptr &&
          decide (Apart ⟨ptr.toNat, sizeBytes.toNat⟩
            ⟨x.1.toNat, x.2.2.toNat⟩))

/-- The owner after a call to `allocate`, with the block that was asked for. -/
def grant (owner : HeapOwner) (bytes align : ℕ)
    (result : BitVec 64 × UnsafeBumpAllocator) : HeapOwner :=
  ⟨result.2, ⟨⟨result.1.toNat, bytes⟩, align⟩ :: owner.blocks⟩

/-- One operation; `none` if it names no live allocator or the platform does not
return such a heap. -/
def step (heaps : Heaps) : HeapOperation → Option Heaps
  | .construct useLp sizeBytes ptr =>
      let alloc := create (fun _ => ptr) (fun _ => ptr) useLp sizeBytes
      if heaps.admissible sizeBytes ptr then
        some ⟨heaps.owners ++ [some ⟨alloc, []⟩],
          heaps.ledger ++
            alloc.holding.toList.map fun x => .acquire x.1 x.2⟩
      else
        none
  | .moveConstruct source =>
      heaps.owners[source]?.join.map fun owner =>
        let moved := owner.alloc.moveConstruct
        { heaps with
          owners := heaps.owners.set source (some ⟨moved.2, []⟩) ++
            [some ⟨moved.1, owner.blocks⟩] }
  | .destroy target =>
      heaps.owners[target]?.join.map fun owner =>
        ⟨heaps.owners.set target none, heaps.ledger ++ owner.alloc.destroy⟩
  | .allocate target bytes align =>
      heaps.owners[target]?.join.map fun owner =>
        { heaps with
          owners := heaps.owners.set target (some (grant owner bytes.toNat
            align.toNat (owner.alloc.allocate bytes align).value)) }
  | .allocateTyped target sizeOfT alignOfT n =>
      heaps.owners[target]?.join.map fun owner =>
        { heaps with
          owners := heaps.owners.set target (some (grant owner
            (sizeOfT.toNat * n.toNat) alignOfT.toNat
            (owner.alloc.allocateTyped sizeOfT alignOfT n).value)) }

/-- A sequence of operations. -/
def run (heaps : Heaps) (operations : List HeapOperation) : Option Heaps :=
  operations.foldlM step heaps

end Heaps

/-! ## Ownership -/

theorem heap_create (useLp : Bool) (sizeBytes ptr : BitVec 64) :
    create (fun _ => ptr) (fun _ => ptr) useLp sizeBytes =
      ⟨useLp, sizeBytes, ptr, ptr⟩ := by
  simp [create]

theorem UnsafeBumpAllocator.holding_of_null {alloc : UnsafeBumpAllocator}
    (h : alloc.heap = 0#64) : alloc.holding = none := by
  simp [holding, heapValid, h]

theorem UnsafeBumpAllocator.holding_of_ne {alloc : UnsafeBumpAllocator}
    (h : alloc.heap ≠ 0#64) :
    alloc.holding =
      some (alloc.heap, (alloc.useLargePages, alloc.heapSize)) :=
  if_pos (bne_iff_ne.mpr h)

theorem UnsafeBumpAllocator.destroy_eq (alloc : UnsafeBumpAllocator) :
    alloc.destroy = alloc.holding.toList.map fun x => .release x.1 x.2 := by
  by_cases hheap : alloc.heap = 0#64
  · rw [holding_of_null hheap, destroy, if_neg (not_not.mpr hheap)]
    rfl
  · rw [holding_of_ne hheap, destroy, if_pos hheap]
    rfl

theorem UnsafeBumpAllocator.holding_allocate (alloc : UnsafeBumpAllocator)
    (bytes align : BitVec 64) :
    (alloc.allocate bytes align).value.2.holding = alloc.holding := rfl

/-- What the owner of a slot holds. -/
def holdingOf (slot : Option HeapOwner) :
    Option (BitVec 64 × (Bool × BitVec 64)) :=
  slot.bind fun owner => owner.alloc.holding

/-- The slots are the heaps of the live allocators, the ledger is that of the
platform, and nothing is dropped. -/
structure HeapSimulates (custody : Custody (BitVec 64) (Bool × BitVec 64))
    (heaps : Heaps) : Prop where
  slots : custody.slots = heaps.owners.map holdingOf
  ledger : custody.ledger = heaps.ledger
  lost : custody.lost = []

theorem HeapSimulates.getElem?_slots
    {custody : Custody (BitVec 64) (Bool × BitVec 64)} {heaps : Heaps}
    (h : HeapSimulates custody heaps) {i : ℕ} {owner : HeapOwner}
    (howner : heaps.owners[i]? = some (some owner)) :
    custody.slots[i]? = some owner.alloc.holding := by
  rw [h.slots, List.getElem?_map, howner]
  rfl

/-- Replacing an owner by one with the same heap leaves the slots as they are. -/
theorem map_holdingOf_set {owners : List (Option HeapOwner)} {i : ℕ}
    {owner : HeapOwner} (howner : owners[i]? = some (some owner))
    {alloc : UnsafeBumpAllocator} {blocks : List Block}
    (hsame : alloc.holding = owner.alloc.holding) :
    (owners.set i (some ⟨alloc, blocks⟩)).map holdingOf =
      owners.map holdingOf := by
  rw [List.map_set]
  apply Custody.set_getElem?_self
  rw [List.getElem?_map, howner]
  exact congrArg some hsame.symm

/-- Each operation is a run of custody steps that drops nothing. -/
theorem HeapSimulates.step {custody : Custody (BitVec 64) (Bool × BitVec 64)}
    {heaps heaps' : Heaps} (h : HeapSimulates custody heaps)
    {operation : HeapOperation} (hstep : heaps.step operation = some heaps') :
    ∃ custody', Relation.ReflTransGen Custody.Step custody custody' ∧
      HeapSimulates custody' heaps' := by
  cases operation with
  | construct useLp sizeBytes ptr =>
      simp only [Heaps.step, heap_create, Option.ite_none_right_eq_some,
        Option.some.injEq] at hstep
      obtain ⟨hadmissible, rfl⟩ := hstep
      have hadd := Relation.ReflTransGen.single (Custody.Step.add custody)
      by_cases hptr : ptr = 0#64
      · have hnone : holding ⟨useLp, sizeBytes, ptr, ptr⟩ = none :=
          holding_of_null hptr
        refine ⟨_, hadd, ?_, ?_, h.lost⟩
        · simp [h.slots, holdingOf, hnone]
        · simp [h.ledger, hnone]
      · have hheld : holding ⟨useLp, sizeBytes, ptr, ptr⟩ =
            some (ptr, (useLp, sizeBytes)) := holding_of_ne hptr
        have hslot : (custody.slots ++ [none])[custody.slots.length]? =
            some none := by simp
        have hfresh : ∀ u, (ptr, u) ∉ outstanding custody.ledger := by
          intro u hmem
          rw [Heaps.admissible, ← h.ledger] at hadmissible
          simp only [Bool.or_eq_true, beq_iff_eq, hptr, false_or,
            Bool.and_eq_true, List.all_eq_true, bne_iff_ne] at hadmissible
          exact (hadmissible.2 _ hmem).1 rfl
        refine ⟨_, hadd.tail (Custody.Step.acquire (useLp, sizeBytes) hslot
          hfresh), ?_, ?_, h.lost⟩
        · simp [h.slots, holdingOf, hheld]
        · simp [h.ledger, hheld]
  | moveConstruct source =>
      simp only [Heaps.step, Option.map_eq_some_iff,
        Option.join_eq_some_iff] at hstep
      obtain ⟨owner, howner, rfl⟩ := hstep
      have hsource := h.getElem?_slots howner
      have hj := (List.getElem?_eq_some_iff.mp hsource).1
      have hslot : (custody.slots ++ [none])[custody.slots.length]? =
          some none := by simp
      have hsource' : (custody.slots ++ [none])[source]? =
          some owner.alloc.holding := by
        rw [List.getElem?_append_left hj, hsource]
      refine ⟨_, Relation.ReflTransGen.head (Custody.Step.add custody)
        (Custody.run_move hslot hsource'), ?_, h.ledger, h.lost⟩
      rw [List.set_append_right _ _ (Nat.le_refl _), Nat.sub_self,
        List.set_cons_zero, List.set_append_left _ _ hj]
      simp [h.slots, List.map_set, holdingOf, moveConstruct, holding,
        heapValid]
  | destroy target =>
      simp only [Heaps.step, Option.map_eq_some_iff,
        Option.join_eq_some_iff] at hstep
      obtain ⟨owner, howner, rfl⟩ := hstep
      refine ⟨_, Custody.run_release (h.getElem?_slots howner), ?_, ?_, h.lost⟩
      · simp [h.slots, List.map_set, holdingOf]
      · simp [h.ledger, destroy_eq]
  | allocate target bytes align =>
      simp only [Heaps.step, Option.map_eq_some_iff,
        Option.join_eq_some_iff] at hstep
      obtain ⟨owner, howner, rfl⟩ := hstep
      refine ⟨custody, Relation.ReflTransGen.refl, ?_, h.ledger, h.lost⟩
      rw [h.slots]
      exact (map_holdingOf_set howner
        (owner.alloc.holding_allocate bytes align)).symm
  | allocateTyped target sizeOfT alignOfT n =>
      simp only [Heaps.step, Option.map_eq_some_iff,
        Option.join_eq_some_iff] at hstep
      obtain ⟨owner, howner, rfl⟩ := hstep
      refine ⟨custody, Relation.ReflTransGen.refl, ?_, h.ledger, h.lost⟩
      rw [h.slots]
      exact (map_holdingOf_set howner
        (owner.alloc.holding_allocate (sizeOfT * n) alignOfT)).symm

theorem HeapSimulates.run {custody : Custody (BitVec 64) (Bool × BitVec 64)}
    {heaps heaps' : Heaps} (h : HeapSimulates custody heaps)
    {operations : List HeapOperation}
    (hrun : heaps.run operations = some heaps') :
    ∃ custody', Relation.ReflTransGen Custody.Step custody custody' ∧
      HeapSimulates custody' heaps' := by
  refine foldlM_induction (P := fun reached => ∃ custody',
    Relation.ReflTransGen Custody.Step custody custody' ∧
      HeapSimulates custody' reached) ?_
    ⟨custody, Relation.ReflTransGen.refl, h⟩ hrun
  rintro reached operation next ⟨custody₁, hrun₁, hsim₁⟩ hstep
  obtain ⟨custody₂, hrun₂, hsim₂⟩ := hsim₁.step hstep
  exact ⟨custody₂, hrun₁.trans hrun₂, hsim₂⟩

theorem heapSimulates_nil :
    HeapSimulates ({} : Custody (BitVec 64) (Bool × BitVec 64)) {} :=
  ⟨rfl, rfl, rfl⟩

/-- What holds of the allocators and the platform wherever a run ends. -/
structure Heaps.Owned (heaps : Heaps) : Prop where
  /-- No two live allocators have the same heap. -/
  distinct : ∀ (i j : ℕ) (owner other : HeapOwner),
    heaps.owners[i]? = some (some owner) →
      heaps.owners[j]? = some (some other) → owner.alloc.heapValid = true →
        owner.alloc.heap = other.alloc.heap → i = j
  /-- The heaps not given back are those of the live allocators, with the kind and
  the size that they would be given back with. -/
  held : ∀ x, x ∈ outstanding heaps.ledger ↔
    ∃ owner, some owner ∈ heaps.owners ∧ owner.alloc.holding = some x
  /-- A heap is given back in the way it was taken, and as large. -/
  paired : ∀ before ptr tag after,
    heaps.ledger = before ++ .release ptr tag :: after →
      ∃ earlier later, before = earlier ++ .acquire ptr tag :: later ∧
        ∀ e ∈ later, e.token ≠ ptr
  /-- A heap given back twice was taken again in between. -/
  once : ∀ before between after ptr tag tag',
    heaps.ledger = before ++ .release ptr tag :: between ++
        .release ptr tag' :: after →
      .acquire ptr tag' ∈ between

/-- The simulation and the conservation of custody together own the heaps. -/
theorem HeapSimulates.owned {custody : Custody (BitVec 64) (Bool × BitVec 64)}
    {heaps : Heaps} (h : HeapSimulates custody heaps)
    (hconserved : custody.Conserved) : heaps.Owned := by
  have hsound : Sound heaps.ledger := h.ledger ▸ hconserved.sound
  refine ⟨?_, ?_, ?_, ?_⟩
  · intro i j owner other howner hother hvalid heap
    have hi := h.getElem?_slots howner
    have hj := h.getElem?_slots hother
    have hne : owner.alloc.heap ≠ 0#64 := bne_iff_ne.mp hvalid
    rw [holding_of_ne hne] at hi
    rw [holding_of_ne (heap ▸ hne), ← heap] at hj
    exact hconserved.eq_of_slots hi hj
  · intro x
    rw [← h.ledger, hconserved.balance.mem_iff, h.lost, List.append_nil,
      Custody.tokens, List.reduceOption_mem_iff, h.slots, List.mem_map]
    constructor
    · rintro ⟨slot, hslot, hholding⟩
      obtain ⟨owner, rfl, howner⟩ := Option.bind_eq_some_iff.mp hholding
      exact ⟨owner, hslot, howner⟩
    · rintro ⟨owner, howner, hholding⟩
      exact ⟨some owner, howner, hholding⟩
  · intro before ptr tag after heq
    rw [heq] at hsound
    exact hsound.of_append.exists_acquire hsound.allows
  · intro before between after ptr tag tag' heq
    rw [heq] at hsound
    exact hsound.exists_acquire_between

/-- Whatever the platform returns and however the allocators are moved, every
heap has one owner at most and is given back once, as it was taken. -/
theorem Heaps.heapsOwned_of_run (operations : List HeapOperation) (heaps : Heaps)
    (hrun : Heaps.run {} operations = some heaps) : heaps.Owned := by
  obtain ⟨custody, hsteps, hsim⟩ := heapSimulates_nil.run hrun
  exact hsim.owned (Custody.conserved_nil.run hsteps)

/-- A heap of 256 bytes moves to a second allocator, both are destroyed, and the
platform returns the same address for the next one. -/
theorem Heaps.heapsOwned_of_run_moved :
    (⟨[none, none, some ⟨⟨true, 64, 4096, 4096⟩, []⟩],
      [.acquire 4096 (false, 256), .release 4096 (false, 256),
        .acquire 4096 (true, 64)]⟩ : Heaps).Owned :=
  Heaps.heapsOwned_of_run
    [.construct false 256 4096, .moveConstruct 0, .destroy 0, .destroy 1,
      .construct true 64 4096] _ (by decide)

/-! ## Blocks -/

namespace Heaps

/-- The arenas of the live allocators. -/
def pool (heaps : Heaps) : Pool :=
  heaps.owners.map fun slot => slot.bind HeapOwner.arena

/-- The blocks handed out of the heaps that are not given back. -/
def blocks (heaps : Heaps) : List Block := Pool.blocks heaps.pool

/-- A call to an allocator is for a valid heap and an alignment that is a power of
two, and what it takes at most is left in the heap.  The code checks none of
it. -/
def Fits (heaps : Heaps) (target bytes align : ℕ) : Prop :=
  ∀ owner, heaps.owners[target]? = some (some owner) →
    owner.alloc.heapValid = true ∧ (∃ k, align = 2 ^ k) ∧
      owner.alloc.current.toNat + (bytes + align - 1) ≤
        owner.alloc.region.stop

/-- The caller respects what the allocators rely on. -/
def Respects (heaps : Heaps) : HeapOperation → Prop
  | .allocate target bytes align =>
      heaps.Fits target bytes.toNat align.toNat
  | .allocateTyped target sizeOfT alignOfT n =>
      heaps.Fits target (sizeOfT.toNat * n.toNat) alignOfT.toNat
  | _ => True

/-- Every operation of a run respects it where it is executed. -/
def RespectsAll (heaps : Heaps) : List HeapOperation → Prop
  | [] => True
  | operation :: operations =>
      heaps.Respects operation ∧
        ∀ heaps', heaps.step operation = some heaps' →
          heaps'.RespectsAll operations

/-- The arenas are sound, and no heap reaches the last address. -/
structure Carved (heaps : Heaps) : Prop where
  sound : Pool.Sound heaps.pool
  bounded : ∀ owner, some owner ∈ heaps.owners →
    owner.alloc.heapValid = true → owner.alloc.region.stop < 2 ^ 64

end Heaps

theorem HeapOwner.arena_of_valid {owner : HeapOwner}
    (h : owner.alloc.heapValid = true) :
    owner.arena =
      some ⟨owner.alloc.region, owner.alloc.current.toNat, owner.blocks⟩ :=
  if_pos h

theorem HeapOwner.arena_of_not_valid {owner : HeapOwner}
    (h : ¬owner.alloc.heapValid = true) : owner.arena = none :=
  if_neg h

theorem Heaps.getElem?_pool {heaps : Heaps} {i : ℕ} {owner : HeapOwner}
    (howner : heaps.owners[i]? = some (some owner)) :
    heaps.pool[i]? = some owner.arena := by
  rw [pool, List.getElem?_map, howner]
  rfl

/-- Replacing one owner keeps the other heaps below the last address. -/
theorem Heaps.Carved.bounded_set {heaps : Heaps} (h : heaps.Carved) (i : ℕ)
    {owner : HeapOwner} (howner : owner.alloc.heapValid = true →
      owner.alloc.region.stop < 2 ^ 64) :
    ∀ other, some other ∈ heaps.owners.set i (some owner) →
      other.alloc.heapValid = true → other.alloc.region.stop < 2 ^ 64 := by
  intro other hother
  rcases List.mem_or_eq_of_mem_set hother with hother | heq
  · exact h.bounded other hother
  · obtain rfl := Option.some.inj heq
    exact howner

theorem Heaps.pool_set (owners : List (Option HeapOwner))
    (ledger : List (Event (BitVec 64) (Bool × BitVec 64))) (i : ℕ)
    (slot : Option HeapOwner) :
    pool ⟨owners.set i slot, ledger⟩ =
      (pool ⟨owners, ledger⟩).set i (slot.bind HeapOwner.arena) :=
  List.map_set

theorem Heaps.pool_append (owners : List (Option HeapOwner))
    (ledger : List (Event (BitVec 64) (Bool × BitVec 64)))
    (slot : Option HeapOwner) :
    pool ⟨owners ++ [slot], ledger⟩ =
      pool ⟨owners, ledger⟩ ++ [slot.bind HeapOwner.arena] :=
  List.map_append

/-- Granting a block carves it from the arena of the owner. -/
theorem Heaps.arena_grant {owner : HeapOwner}
    (hvalid : owner.alloc.heapValid = true) {bytes align : BitVec 64} {size : ℕ}
    {b : Block} (hb : b = ⟨⟨(owner.alloc.allocate bytes align).value.1.toNat,
      size⟩, align.toNat⟩)
    (hstop : b.stop =
      (owner.alloc.allocate bytes align).value.2.current.toNat) :
    (grant owner size align.toNat
        (owner.alloc.allocate bytes align).value).arena =
      some (Arena.carve ⟨owner.alloc.region, owner.alloc.current.toNat,
        owner.blocks⟩ b) := by
  have hgranted : (grant owner size align.toNat
      (owner.alloc.allocate bytes align).value).alloc.heapValid = true := hvalid
  rw [HeapOwner.arena_of_valid hgranted, Arena.carve, hstop, hb]
  rfl

/-- A call that fits carves a block behind the front of its arena. -/
theorem Heaps.Carved.grant {heaps : Heaps} (h : heaps.Carved) {target : ℕ}
    {owner : HeapOwner} (howner : heaps.owners[target]? = some (some owner))
    {bytes align : BitVec 64} {size : ℕ} (hsize : bytes.toNat = size)
    (hfits : heaps.Fits target size align.toNat) :
    Carved { heaps with
      owners := heaps.owners.set target (some (Heaps.grant owner size
        align.toNat (owner.alloc.allocate bytes align).value)) } := by
  subst hsize
  obtain ⟨hvalid, ⟨k, hk⟩, hroom⟩ := hfits owner howner
  have hlimit := h.bounded owner (List.mem_of_getElem? howner) hvalid
  have hrequest : (⟨bytes, align⟩ : Request).Valid := ⟨k, hk⟩
  have hcost : owner.alloc.current.toNat + (⟨bytes, align⟩ : Request).cost ≤
      owner.alloc.region.stop := by
    unfold Request.cost
    omega
  obtain ⟨halign, hfront, hstop, hle⟩ :=
    allocate_step hrequest hcost hlimit
  let b : Block := ⟨⟨(owner.alloc.allocate bytes align).value.1.toNat,
    bytes.toNat⟩, align.toNat⟩
  have hend : b.stop =
      (owner.alloc.allocate bytes align).value.2.current.toNat := hstop
  have hslot := Heaps.getElem?_pool howner
  rw [HeapOwner.arena_of_valid hvalid] at hslot
  refine ⟨?_, h.bounded_set target fun _ => hlimit⟩
  rw [Heaps.pool_set, Option.bind_some, Heaps.arena_grant hvalid rfl hend]
  exact h.sound.carve hslot hfront (hend.le.trans (hle.trans hcost)) halign

/-- The platform keeps a new heap apart from those of the live allocators. -/
theorem Heaps.apart_of_admissible {heaps : Heaps} (howned : heaps.Owned)
    {sizeBytes ptr : BitVec 64} (hptr : ptr ≠ 0#64)
    (h : heaps.admissible sizeBytes ptr = true) :
    ptr.toNat + sizeBytes.toNat < 2 ^ 64 ∧
      ∀ a ∈ heaps.pool.reduceOption,
        Apart ⟨ptr.toNat, sizeBytes.toNat⟩ a.region := by
  simp only [admissible, Bool.or_eq_true, beq_iff_eq, hptr, false_or,
    Bool.and_eq_true, decide_eq_true_eq, List.all_eq_true] at h
  refine ⟨h.1, ?_⟩
  intro a ha
  rw [List.reduceOption_mem_iff, pool, List.mem_map] at ha
  obtain ⟨slot, hslot, harena⟩ := ha
  obtain ⟨owner, rfl, howner⟩ := Option.bind_eq_some_iff.mp harena
  by_cases hvalid : owner.alloc.heapValid = true
  · rw [HeapOwner.arena_of_valid hvalid] at howner
    obtain rfl := Option.some.inj howner
    have hholding := holding_of_ne (bne_iff_ne.mp hvalid)
    have hmem := (howned.held _).mpr ⟨owner, hslot, hholding⟩
    exact (h.2 _ hmem).2
  · rw [HeapOwner.arena_of_not_valid hvalid] at howner
    contradiction

/-- A new allocator without a heap brings no arena. -/
theorem Heaps.Carved.construct_of_not_valid {heaps : Heaps} (h : heaps.Carved)
    {owner : HeapOwner} (hnot : ¬owner.alloc.heapValid = true)
    (ledger : List (Event (BitVec 64) (Bool × BitVec 64))) :
    Carved ⟨heaps.owners ++ [some owner], ledger⟩ := by
  refine ⟨?_, ?_⟩
  · rw [Heaps.pool_append, Option.bind_some, HeapOwner.arena_of_not_valid hnot]
    exact h.sound.append_none
  · intro other hother hvalid
    rcases List.mem_append.mp hother with hother | hother
    · exact h.bounded other hother hvalid
    · obtain rfl := Option.some.inj (List.mem_singleton.mp hother)
      exact absurd hvalid hnot

/-- A new heap apart from the others is one more arena, with nothing carved. -/
theorem Heaps.Carved.construct {heaps : Heaps} (h : heaps.Carved)
    {useLp : Bool} {sizeBytes ptr : BitVec 64} (hptr : ptr ≠ 0#64)
    (hbound : ptr.toNat + sizeBytes.toNat < 2 ^ 64)
    (hfresh : ∀ a ∈ heaps.pool.reduceOption,
      Apart ⟨ptr.toNat, sizeBytes.toNat⟩ a.region)
    (ledger : List (Event (BitVec 64) (Bool × BitVec 64))) :
    Carved ⟨heaps.owners ++ [some ⟨⟨useLp, sizeBytes, ptr, ptr⟩, []⟩],
      ledger⟩ := by
  have hvalid : (⟨useLp, sizeBytes, ptr, ptr⟩ : UnsafeBumpAllocator).heapValid =
      true := bne_iff_ne.mpr hptr
  refine ⟨?_, ?_⟩
  · rw [Heaps.pool_append, Option.bind_some, HeapOwner.arena_of_valid hvalid]
    have hlast : ∀ (pool : Pool) (slot : Option Arena), pool ++ [slot] =
        (pool ++ [none]).set pool.length slot := by
      simp
    rw [hlast]
    refine h.sound.append_none.occupy (i := heaps.pool.length) (by simp)
      (Arena.sound_fresh _) ?_
    intro a ha
    refine hfresh a ?_
    simpa [List.reduceOption_append] using ha
  · intro other hother hother_valid
    rcases List.mem_append.mp hother with hother | hother
    · exact h.bounded other hother hother_valid
    · obtain rfl := Option.some.inj (List.mem_singleton.mp hother)
      exact hbound

/-- A move hands the arena of the source over to the new allocator. -/
theorem Heaps.Carved.moveConstruct {heaps : Heaps} (h : heaps.Carved)
    {source : ℕ} {owner emptied : HeapOwner}
    (howner : heaps.owners[source]? = some (some owner))
    (hemptied : ¬emptied.alloc.heapValid = true)
    (ledger : List (Event (BitVec 64) (Bool × BitVec 64))) :
    Carved ⟨heaps.owners.set source (some emptied) ++ [some owner],
      ledger⟩ := by
  have hslot := Heaps.getElem?_pool howner
  have hj := (List.getElem?_eq_some_iff.mp hslot).1
  have hsource : (heaps.pool ++ [none])[source]? = some owner.arena := by
    rw [List.getElem?_append_left hj, hslot]
  refine ⟨?_, ?_⟩
  · have hmoved := h.sound.append_none.move
      (i := heaps.pool.length) (by simp) hsource
    rw [List.set_append_right _ _ (Nat.le_refl _), Nat.sub_self,
      List.set_cons_zero, List.set_append_left _ _ hj] at hmoved
    rw [Heaps.pool_append, Heaps.pool_set, Option.bind_some, Option.bind_some,
      HeapOwner.arena_of_not_valid hemptied]
    exact hmoved
  · intro other hother hvalid
    rcases List.mem_append.mp hother with hother | hother
    · refine h.bounded_set source ?_ other hother hvalid
      exact fun hvalid => absurd hvalid hemptied
    · obtain rfl := Option.some.inj (List.mem_singleton.mp hother)
      exact h.bounded other (List.mem_of_getElem? howner) hvalid

/-- Freeing a heap gives its arena up. -/
theorem Heaps.Carved.destroy {heaps : Heaps} (h : heaps.Carved) {target : ℕ}
    {owner : HeapOwner} (howner : heaps.owners[target]? = some (some owner))
    (ledger : List (Event (BitVec 64) (Bool × BitVec 64))) :
    Carved ⟨heaps.owners.set target none, ledger⟩ := by
  refine ⟨?_, ?_⟩
  · rw [Heaps.pool_set, Option.bind_none]
    exact h.sound.close (Heaps.getElem?_pool howner)
  · intro other hother
    rcases List.mem_or_eq_of_mem_set hother with hother | heq
    · exact h.bounded other hother
    · contradiction

/-- A product that fits the heap does not wrap around. -/
theorem Heaps.Carved.toNat_mul_of_fits {heaps : Heaps} (h : heaps.Carved)
    {target align : ℕ} {owner : HeapOwner}
    (howner : heaps.owners[target]? = some (some owner))
    {sizeOfT n : BitVec 64}
    (hfits : heaps.Fits target (sizeOfT.toNat * n.toNat) align) :
    (sizeOfT * n).toNat = sizeOfT.toNat * n.toNat := by
  obtain ⟨hvalid, ⟨k, hk⟩, hroom⟩ := hfits owner howner
  have hlimit := h.bounded owner (List.mem_of_getElem? howner) hvalid
  have hpos := Nat.two_pow_pos k
  rw [BitVec.toNat_mul, Nat.mod_eq_of_lt]
  omega

/-- What an operation that respects the allocators does to the arenas. -/
theorem Heaps.Carved.step {heaps heaps' : Heaps} (h : heaps.Carved)
    (howned : heaps.Owned) {operation : HeapOperation}
    (hrespects : heaps.Respects operation)
    (hstep : heaps.step operation = some heaps') : heaps'.Carved := by
  cases operation with
  | construct useLp sizeBytes ptr =>
      simp only [Heaps.step, heap_create, Option.ite_none_right_eq_some,
        Option.some.injEq] at hstep
      obtain ⟨hadmissible, rfl⟩ := hstep
      by_cases hptr : ptr = 0#64
      · have hnot : ¬(⟨useLp, sizeBytes, ptr, ptr⟩ :
            UnsafeBumpAllocator).heapValid = true :=
          fun hvalid => bne_iff_ne.mp hvalid hptr
        exact h.construct_of_not_valid hnot _
      · obtain ⟨hbound, hfresh⟩ := apart_of_admissible howned hptr hadmissible
        exact h.construct hptr hbound hfresh _
  | moveConstruct source =>
      simp only [Heaps.step, Option.map_eq_some_iff,
        Option.join_eq_some_iff] at hstep
      obtain ⟨owner, howner, rfl⟩ := hstep
      -- the source is left without a heap
      exact h.moveConstruct howner (fun hvalid => bne_iff_ne.mp hvalid rfl) _
  | destroy target =>
      simp only [Heaps.step, Option.map_eq_some_iff,
        Option.join_eq_some_iff] at hstep
      obtain ⟨owner, howner, rfl⟩ := hstep
      exact h.destroy howner _
  | allocate target bytes align =>
      simp only [Heaps.step, Option.map_eq_some_iff,
        Option.join_eq_some_iff] at hstep
      obtain ⟨owner, howner, rfl⟩ := hstep
      exact h.grant howner rfl hrespects
  | allocateTyped target sizeOfT alignOfT n =>
      simp only [Heaps.step, Option.map_eq_some_iff,
        Option.join_eq_some_iff] at hstep
      obtain ⟨owner, howner, rfl⟩ := hstep
      have hproduct := h.toNat_mul_of_fits howner hrespects
      exact h.grant howner hproduct hrespects

theorem Heaps.carved_nil : Carved {} :=
  ⟨Pool.sound_nil, fun _ howner => absurd howner List.not_mem_nil⟩

/-- A run that respects the allocators keeps the arenas sound. -/
theorem Heaps.Carved.run {custody : Custody (BitVec 64) (Bool × BitVec 64)}
    {heaps heaps' : Heaps} (h : heaps.Carved)
    (hsim : HeapSimulates custody heaps) (hconserved : custody.Conserved)
    {operations : List HeapOperation}
    (hrespects : heaps.RespectsAll operations)
    (hrun : heaps.run operations = some heaps') : heaps'.Carved := by
  induction operations generalizing custody heaps with
  | nil =>
      obtain rfl := Option.some.inj hrun
      exact h
  | cons operation operations ih =>
      obtain ⟨reached, hstep, hrest⟩ := foldlM_cons_eq_some.mp hrun
      obtain ⟨custody', hsteps, hsim'⟩ := hsim.step hstep
      exact ih (h.step (hsim.owned hconserved) hrespects.1 hstep) hsim'
        (hconserved.run hsteps) (hrespects.2 reached hstep) hrest

/-- As long as every call fits the heap it is for, no two blocks overlap, whatever
heaps they are from and however the allocators are moved in between: a block is
aligned as asked for, and lies in the heap of the allocator that has it now,
before the pointer from which the next one is taken. -/
theorem Heaps.blocks_of_run (operations : List HeapOperation) (heaps : Heaps)
    (hrespects : RespectsAll {} operations)
    (hrun : Heaps.run {} operations = some heaps) :
    heaps.blocks.Pairwise (fun b c => Apart b.toRegion c.toRegion) ∧
      ∀ owner, some owner ∈ heaps.owners → owner.alloc.heapValid = true →
        ∀ b ∈ owner.blocks, Within b.toRegion owner.alloc.region ∧
          b.align ∣ b.start ∧ b.stop ≤ owner.alloc.current.toNat := by
  have hcarved := Heaps.carved_nil.run heapSimulates_nil
    Custody.conserved_nil hrespects hrun
  refine ⟨hcarved.sound.pairwise_blocks, ?_⟩
  intro owner howner hvalid b hb
  have hmem : (⟨owner.alloc.region, owner.alloc.current.toNat,
      owner.blocks⟩ : Arena) ∈ heaps.pool.reduceOption := by
    rw [List.reduceOption_mem_iff, pool, List.mem_map]
    exact ⟨some owner, howner, HeapOwner.arena_of_valid hvalid⟩
  have harena := hcarved.sound.arenas _ hmem
  exact ⟨harena.within_region hb, harena.aligned b hb, (harena.within b hb).2⟩

theorem Heaps.respectsAll_cons {heaps heaps' : Heaps}
    {operation : HeapOperation} {operations : List HeapOperation}
    (hrespects : heaps.Respects operation)
    (hstep : heaps.step operation = some heaps')
    (hrest : heaps'.RespectsAll operations) :
    heaps.RespectsAll (operation :: operations) := by
  refine ⟨hrespects, ?_⟩
  intro reached hreached
  obtain rfl := Option.some.inj (hstep.symm.trans hreached)
  exact hrest

theorem Heaps.fits_iff {heaps : Heaps} {target bytes align : ℕ}
    {owner : HeapOwner} (howner : heaps.owners[target]? = some (some owner)) :
    heaps.Fits target bytes align ↔
      owner.alloc.heapValid = true ∧ (∃ k, align = 2 ^ k) ∧
        owner.alloc.current.toNat + (bytes + align - 1) ≤
          owner.alloc.region.stop := by
  constructor
  · intro h
    exact h owner howner
  · intro h other hother
    obtain rfl := Option.some.inj (Option.some.inj (howner.symm.trans hother))
    exact h

/-- Ten bytes, a move, and four elements of eight bytes from the new allocator. -/
theorem Heaps.blocks_of_run_moved :
    (blocks ⟨[some ⟨⟨false, 256, 0, 0⟩, []⟩, some ⟨⟨false, 256, 4096, 4144⟩,
      [⟨⟨4112, 32⟩, 8⟩, ⟨⟨4096, 10⟩, 8⟩]⟩],
      [.acquire 4096 (false, 256)]⟩).Pairwise
        fun b c => Apart b.toRegion c.toRegion := by
  refine (Heaps.blocks_of_run
    [.construct false 256 4096, .allocate 0 10 8, .moveConstruct 0,
      .allocateTyped 1 8 8 4] _ ?_ (by decide)).1
  refine respectsAll_cons trivial rfl (respectsAll_cons ?_ rfl
    (respectsAll_cons trivial rfl (respectsAll_cons ?_ rfl trivial)))
  · exact (fits_iff rfl).mpr ⟨by decide, ⟨3, by decide⟩, by decide⟩
  · exact (fits_iff rfl).mpr ⟨by decide, ⟨3, by decide⟩, by decide⟩

end BenchBox
