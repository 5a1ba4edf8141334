import BenchBox.Support.Custody

/-!
# Buffers

The owning operations of `buffer` over any allocator.  A buffer holds an
allocator by value, and its memory is known by the blocks the allocator hands
out; the calls of `allocate` and `deallocate` are recorded in a ledger, each with
the allocator and the element count it is passed.

The raw-pointer constructor and the converting operators are left out.  Moving
an allocator leaves its value as it was.
-/

namespace BenchBox

open Ledger

variable {Allocator Block : Type*}

/-- The calls to the allocators: blocks tagged with allocator and count. -/
abbrev Heap (Allocator Block : Type*) := List (Event Block (Allocator × ℕ))

/-- How the `try` block of an allocation fares: `allocate` throws
`std::bad_alloc`, or it returns `ptr` and the elements are constructed, where a
constructor may throw `std::bad_alloc` as well. -/
inductive Allocation (Block : Type*) where
  | badAlloc
  | pointer (ptr : Option Block) (constructed : Bool)
deriving DecidableEq, Repr

namespace Allocation

/-- A null pointer is returned for no elements only, a block is fresh, and
without elements no constructor is called. -/
def admissible [DecidableEq Block] (heap : Heap Allocator Block) (sizeN : ℕ) :
    Allocation Block → Bool
  | .badAlloc => true
  | .pointer none constructed => sizeN == 0 && constructed
  | .pointer (some b) constructed =>
      ((outstanding heap).all (·.1 != b)) && (sizeN != 0 || constructed)

/-- A block was returned before a constructor threw. -/
def abandons : Allocation Block → Bool
  | .pointer (some _) constructed => !constructed
  | _ => false

end Allocation

/-- `buffer`. -/
structure Buffer (Allocator Block : Type*) where
  alloc : Allocator
  size : ℕ := 0
  data : Option Block := none
deriving DecidableEq, Repr

namespace Buffer

/-- `buffer(size_n, allocator)`.  The handler catches the exception of a
constructor too, and then nothing deallocates the block. -/
def construct (sizeN : ℕ) (alloc : Allocator) (outcome : Allocation Block)
    (heap : Heap Allocator Block) :
    Buffer Allocator Block × Heap Allocator Block :=
  match outcome with
  | .badAlloc => (⟨alloc, 0, none⟩, heap)
  | .pointer ptr constructed =>
      let heap := heap ++ ptr.toList.map fun b => .acquire b (alloc, sizeN)
      if constructed then
        (⟨alloc, sizeN, ptr⟩, heap)
      else
        (⟨alloc, 0, none⟩, heap)

/-- `free`. -/
def free (buffer : Buffer Allocator Block) (heap : Heap Allocator Block) :
    Buffer Allocator Block × Heap Allocator Block :=
  match buffer.data with
  | none => (buffer, heap)
  | some ptr =>
      ({ buffer with data := none, size := 0 },
        heap ++ [.release ptr (buffer.alloc, buffer.size)])

/-- `realloc`: `free`, and then the same `try` block as in the constructor. -/
def realloc (buffer : Buffer Allocator Block) (sizeN : ℕ)
    (outcome : Allocation Block) (heap : Heap Allocator Block) :
    Buffer Allocator Block × Heap Allocator Block :=
  let freed := buffer.free heap
  construct sizeN freed.1.alloc outcome freed.2

/-- `operator=(std::nullptr_t)`. -/
def assignNull (buffer : Buffer Allocator Block) : Buffer Allocator Block :=
  { buffer with size := 0, data := none }

/-- `buffer(buffer&&)`: the new buffer and the source. -/
def moveConstruct (source : Buffer Allocator Block) :
    Buffer Allocator Block × Buffer Allocator Block :=
  (⟨source.alloc, source.size, source.data⟩, source.assignNull)

/-- `operator=(buffer&&)`: `*this` and the source.  The source is written
last. -/
def moveAssign (this source : Buffer Allocator Block) :
    Buffer Allocator Block × Buffer Allocator Block :=
  ({ this with alloc := source.alloc, size := source.size, data := source.data },
    source.assignNull)

/-- The block a buffer holds, with what it would be deallocated with. -/
def holding (buffer : Buffer Allocator Block) :
    Option (Block × (Allocator × ℕ)) :=
  buffer.data.map fun ptr => (ptr, (buffer.alloc, buffer.size))

end Buffer

/-! ## Runs -/

/-- The buffers of one element type, by number, and the heap. -/
structure Memory (Allocator Block : Type*) where
  buffers : List (Buffer Allocator Block) := []
  heap : Heap Allocator Block := []
deriving DecidableEq, Repr

/-- An operation on numbered buffers, with the outcome of its allocation.  A
constructed buffer gets the next number. -/
inductive Operation (Allocator Block : Type*) where
  | constructNull (alloc : Allocator)
  | construct (sizeN : ℕ) (alloc : Allocator) (outcome : Allocation Block)
  | realloc (target sizeN : ℕ) (outcome : Allocation Block)
  | free (target : ℕ)
  | moveConstruct (source : ℕ)
  | moveAssign (target source : ℕ)
  | assignNull (target : ℕ)
deriving DecidableEq, Repr

namespace Memory

variable [DecidableEq Block]

/-- One operation; `none` if it names no buffer or its outcome is not one an
allocator has. -/
def step (memory : Memory Allocator Block) :
    Operation Allocator Block → Option (Memory Allocator Block)
  | .constructNull alloc =>
      some { memory with buffers := memory.buffers ++ [⟨alloc, 0, none⟩] }
  | .construct sizeN alloc outcome =>
      let made := Buffer.construct sizeN alloc outcome memory.heap
      if outcome.admissible memory.heap sizeN then
        some ⟨memory.buffers ++ [made.1], made.2⟩
      else
        none
  | .realloc target sizeN outcome =>
      memory.buffers[target]?.bind fun this =>
        let made := this.realloc sizeN outcome memory.heap
        if outcome.admissible (this.free memory.heap).2 sizeN then
          some ⟨memory.buffers.set target made.1, made.2⟩
        else
          none
  | .free target =>
      memory.buffers[target]?.map fun this =>
        let freed := this.free memory.heap
        ⟨memory.buffers.set target freed.1, freed.2⟩
  | .moveConstruct source =>
      memory.buffers[source]?.map fun other =>
        let moved := other.moveConstruct
        { memory with
          buffers := memory.buffers.set source moved.2 ++ [moved.1] }
  | .moveAssign target source =>
      memory.buffers[target]?.bind fun this =>
        memory.buffers[source]?.map fun other =>
          let moved := this.moveAssign other
          { memory with
            buffers := (memory.buffers.set target moved.1).set source moved.2 }
  | .assignNull target =>
      memory.buffers[target]?.map fun this =>
        { memory with buffers := memory.buffers.set target this.assignNull }

/-- A sequence of operations. -/
def run (memory : Memory Allocator Block)
    (operations : List (Operation Allocator Block)) :
    Option (Memory Allocator Block) :=
  operations.foldlM step memory

end Memory

end BenchBox
