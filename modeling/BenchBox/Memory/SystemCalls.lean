import BenchBox.Memory.LargePages
import BenchBox.Memory.Leaks
import BenchBox.Support.PartialLoop

/-!
# System calls of buffers

Buffers over `lp_flex_allocator_t` on Linux, down to the calls of the operating
system and the C library.  The addresses these calls return and are passed are a
ledger of their own, and it is sound: whatever the buffers do, every `munmap`
undoes one `mmap` with its address and its length, and every `free` one
`posix_memalign`.
-/

namespace BenchBox

open Ledger PartialLoop

variable {Address : Type*}

/-! ## The platform -/

/-- `try_malloc_aligned_64`.  `posix_memalign` answers to a number of bytes. -/
def tryMallocAligned64 (posixMemalign : ℕ → Option Address) (bytes : ℕ) :
    Option (Mapping Address) :=
  (posixMemalign bytes).map fun address => ⟨address, bytes⟩

/-- What the platform answers to a request, and whether the elements are
constructed then. -/
structure Answer (Address : Type*) where
  address : Option Address
  constructed : Bool
deriving DecidableEq

/-- What a block is known by to the platform: its address, and the length of a
mapping. -/
def held (block : Mapping Address × (LpFlexAllocator × ℕ)) :
    Address × Option ℕ :=
  (block.1.address,
    if block.2.1.useLargePages then some block.1.length else none)

section Calls

variable (pageSize : BitVec 64) (sizeOfT : ℕ)

/-- What `allocate` comes to with the answer of the platform. -/
def lpAllocate (alloc : LpFlexAllocator) (sizeN : ℕ)
    (address : Option Address) : Option (Option (Mapping Address)) :=
  alloc.allocate (tryMallocLargePage pageSize fun _ => address)
    (tryMallocAligned64 fun _ => address) sizeOfT sizeN

/-- The same as an outcome for a buffer. -/
def Answer.outcome (answer : Answer Address) (alloc : LpFlexAllocator)
    (sizeN : ℕ) : Allocation (Mapping Address) :=
  LpFlexAllocator.outcome (lpAllocate pageSize sizeOfT alloc sizeN answer.address)
    answer.constructed

/-- The call of the platform in an allocation or a deallocation, where it makes
one: `mmap` and `munmap` with a length, `posix_memalign` and `free` without. -/
def systemCall :
    Event (Mapping Address) (LpFlexAllocator × ℕ) →
      Option (Event Address (Option ℕ))
  | .acquire ptr tag => some (.acquire (held (ptr, tag)).1 (held (ptr, tag)).2)
  | .release ptr (alloc, n) =>
      (alloc.deallocate sizeOfT (some ptr) n).map fun call =>
        .release call.ptr.address ((call.munmap pageSize).map (·.length))

/-- The calls of the platform, in order. -/
def systemCalls (heap : Heap LpFlexAllocator (Mapping Address)) :
    List (Event Address (Option ℕ)) :=
  heap.filterMap (systemCall pageSize sizeOfT)

end Calls

/-- A block is at the address that the platform answered. -/
theorem lpAllocate_eq_some {pageSize : BitVec 64}
    {sizeOfT : ℕ} {alloc : LpFlexAllocator} {n : ℕ} {address : Option Address} {ptr : Mapping Address}
    (h : lpAllocate pageSize sizeOfT alloc n address = some (some ptr)) :
    address = some ptr.address ∧
      (alloc.useLargePages = true →
        ptr.length = bytesRoundedUp pageSize (n * sizeOfT)) ∧
      alloc.deallocate sizeOfT (some ptr) n =
        some ⟨alloc.useLargePages, ptr, n * sizeOfT⟩ := by
  obtain ⟨hfree, hmalloc⟩ := LpFlexAllocator.deallocate_of_allocate h
  rw [LpFlexAllocator.tryMalloc] at hmalloc
  split at hmalloc
  · rw [tryMallocLargePage, Option.map_eq_some_iff] at hmalloc
    obtain ⟨a, rfl, rfl⟩ := hmalloc
    exact ⟨rfl, fun _ => rfl, hfree⟩
  · rename_i hsmall
    rw [tryMallocAligned64, Option.map_eq_some_iff] at hmalloc
    obtain ⟨a, rfl, rfl⟩ := hmalloc
    exact ⟨rfl, fun hlarge => absurd hlarge hsmall, hfree⟩

/-- A deallocation passes to the platform what the platform knows the block
by. -/
theorem systemCall_release {pageSize : BitVec 64} {sizeOfT : ℕ}
    {ptr : Mapping Address} {alloc : LpFlexAllocator} {n : ℕ}
    (h : lpAllocate pageSize sizeOfT alloc n (some ptr.address) =
      some (some ptr)) :
    systemCall pageSize sizeOfT (.release ptr (alloc, n)) =
      some (.release (held (ptr, (alloc, n))).1 (held (ptr, (alloc, n))).2) := by
  obtain ⟨-, hlength, hfree⟩ := lpAllocate_eq_some h
  rw [systemCall, hfree, Option.map_some, held, FreeCall.munmap]
  dsimp only
  split
  · rename_i hlarge
    rw [hlength hlarge]
    rfl
  · rfl

/-! ## Runs -/

/-- An operation on buffers, with the answer of the platform.  The allocator has a
constant member, so there is no `operator=(buffer&&)`. -/
inductive LpOperation (Address : Type*) where
  | constructNull (alloc : LpFlexAllocator)
  | construct (sizeN : ℕ) (alloc : LpFlexAllocator) (answer : Answer Address)
  | realloc (target sizeN : ℕ) (answer : Answer Address)
  | free (target : ℕ)
  | moveConstruct (source : ℕ)
  | assignNull (target : ℕ)
deriving DecidableEq

/-- Buffers over the large-page allocator. -/
abbrev LpMemory (Address : Type*) := Memory LpFlexAllocator (Mapping Address)

variable [DecidableEq Address]

/-- The platform returns no address that is in use. -/
def Answer.fresh (answer : Answer Address)
    (heap : Heap LpFlexAllocator (Mapping Address)) : Bool :=
  answer.address.toList.all fun address =>
    (outstanding heap).all fun block => block.1.address != address

namespace LpMemory

variable (pageSize : BitVec 64) (sizeOfT : ℕ)

/-- One operation; `none` if it names no buffer or the answer is not one the
platform has. -/
def step (memory : LpMemory Address) :
    LpOperation Address → Option (LpMemory Address)
  | .constructNull alloc => Memory.step memory (.constructNull alloc)
  | .construct sizeN alloc answer =>
      if answer.fresh memory.heap then
        Memory.step memory
          (.construct sizeN alloc (answer.outcome pageSize sizeOfT alloc sizeN))
      else
        none
  | .realloc target sizeN answer =>
      memory.buffers[target]?.bind fun this =>
        if answer.fresh (this.free memory.heap).2 then
          Memory.step memory (.realloc target sizeN
            (answer.outcome pageSize sizeOfT this.alloc sizeN))
        else
          none
  | .free target => Memory.step memory (.free target)
  | .moveConstruct source => Memory.step memory (.moveConstruct source)
  | .assignNull target => Memory.step memory (.assignNull target)

def run (memory : LpMemory Address) (operations : List (LpOperation Address)) :
    Option (LpMemory Address) :=
  operations.foldlM (step pageSize sizeOfT) memory

end LpMemory

/-! ## Answered heaps -/

section Answered

variable (pageSize : BitVec 64) (sizeOfT : ℕ)

/-- Every block of the heap was returned by `allocate` at an address that was not
in use. -/
inductive Answered : Heap LpFlexAllocator (Mapping Address) → Prop
  | nil : Answered []
  | acquire {heap : Heap LpFlexAllocator (Mapping Address)}
      {ptr : Mapping Address} {alloc : LpFlexAllocator} {n : ℕ} :
      Answered heap →
      (∀ block ∈ outstanding heap, block.1.address ≠ ptr.address) →
      lpAllocate pageSize sizeOfT alloc n (some ptr.address) =
        some (some ptr) →
      Answered (heap ++ [.acquire ptr (alloc, n)])
  | release {heap : Heap LpFlexAllocator (Mapping Address)}
      (ptr : Mapping Address) (tag : LpFlexAllocator × ℕ) :
      Answered heap → Answered (heap ++ [.release ptr tag])

variable {pageSize sizeOfT}

theorem Answered.free {heap : Heap LpFlexAllocator (Mapping Address)}
    (h : Answered pageSize sizeOfT heap)
    (buffer : Buffer LpFlexAllocator (Mapping Address)) :
    Answered pageSize sizeOfT (buffer.free heap).2 := by
  rw [buffer.heap_free]
  cases buffer.holding with
  | none => simpa using h
  | some block => exact h.release block.1 block.2

theorem Answered.construct {heap : Heap LpFlexAllocator (Mapping Address)}
    (h : Answered pageSize sizeOfT heap) {answer : Answer Address}
    (hfresh : answer.fresh heap = true) (alloc : LpFlexAllocator)
    (sizeN : ℕ) :
    Answered pageSize sizeOfT (Buffer.construct sizeN alloc
      (answer.outcome pageSize sizeOfT alloc sizeN) heap).2 := by
  rw [Answer.outcome]
  cases hresult : lpAllocate pageSize sizeOfT alloc sizeN answer.address with
  | none => exact h
  | some ptr =>
      have hheap : (Buffer.construct sizeN alloc
          (LpFlexAllocator.outcome (some ptr) answer.constructed) heap).2 =
          heap ++ ptr.toList.map fun b => .acquire b (alloc, sizeN) := by
        cases hconstructed : answer.constructed <;>
          simp [Buffer.construct, LpFlexAllocator.outcome]
      rw [hheap]
      cases ptr with
      | none => simpa using h
      | some ptr =>
          have haddress := (lpAllocate_eq_some hresult).1
          refine h.acquire ?_ (haddress ▸ hresult)
          rw [Answer.fresh, haddress] at hfresh
          simpa using hfresh

/-- The operations keep the heap answered. -/
theorem Answered.step {memory memory' : LpMemory Address}
    (h : Answered pageSize sizeOfT memory.heap)
    {operation : LpOperation Address}
    (hstep : memory.step pageSize sizeOfT operation = some memory') :
    Answered pageSize sizeOfT memory'.heap := by
  cases operation with
  | constructNull alloc =>
      obtain rfl := Option.some.inj hstep
      exact h
  | construct sizeN alloc answer =>
      simp only [LpMemory.step, Memory.step, Option.ite_none_right_eq_some,
        Option.some.injEq] at hstep
      obtain ⟨hfresh, -, rfl⟩ := hstep
      exact h.construct hfresh alloc sizeN
  | realloc target sizeN answer =>
      simp only [LpMemory.step, Memory.step, Option.bind_eq_some_iff,
        Option.ite_none_right_eq_some, Option.some.injEq] at hstep
      obtain ⟨this, hthis, hfresh, this', hthis', -, rfl⟩ := hstep
      obtain rfl := Option.some.inj (hthis.symm.trans hthis')
      have halloc : (this.free memory.heap).1.alloc = this.alloc := by
        rw [Buffer.free]
        split <;> rfl
      change Answered pageSize sizeOfT (Buffer.construct sizeN
        (this.free memory.heap).1.alloc _ (this.free memory.heap).2).2
      rw [halloc]
      exact (h.free this).construct hfresh this.alloc sizeN
  | free target =>
      simp only [LpMemory.step, Memory.step, Option.map_eq_some_iff] at hstep
      obtain ⟨this, -, rfl⟩ := hstep
      exact h.free this
  | moveConstruct source =>
      simp only [LpMemory.step, Memory.step, Option.map_eq_some_iff] at hstep
      obtain ⟨other, -, rfl⟩ := hstep
      exact h
  | assignNull target =>
      simp only [LpMemory.step, Memory.step, Option.map_eq_some_iff] at hstep
      obtain ⟨this, -, rfl⟩ := hstep
      exact h

theorem Answered.run {memory memory' : LpMemory Address}
    (h : Answered pageSize sizeOfT memory.heap)
    {operations : List (LpOperation Address)}
    (hrun : memory.run pageSize sizeOfT operations = some memory') :
    Answered pageSize sizeOfT memory'.heap :=
  foldlM_induction (P := fun reached => Answered pageSize sizeOfT reached.heap)
    (fun hreached hstep => hreached.step hstep) h hrun

/-- A run is a run of buffers over some allocator. -/
theorem LpMemory.exists_run {memory memory' : LpMemory Address}
    {operations : List (LpOperation Address)}
    (hrun : memory.run pageSize sizeOfT operations = some memory') :
    ∃ plain, Memory.run memory plain = some memory' := by
  have hplain : ∀ {before after : LpMemory Address}
      {operation : LpOperation Address},
      before.step pageSize sizeOfT operation = some after →
        ∃ plain, Memory.step before plain = some after := by
    intro before after operation hstep
    cases operation with
    | construct sizeN alloc answer =>
        rw [LpMemory.step, Option.ite_none_right_eq_some] at hstep
        exact ⟨_, hstep.2⟩
    | realloc target sizeN answer =>
        simp only [LpMemory.step, Option.bind_eq_some_iff,
          Option.ite_none_right_eq_some] at hstep
        obtain ⟨this, -, -, hstep⟩ := hstep
        exact ⟨_, hstep⟩
    | constructNull alloc => exact ⟨.constructNull alloc, hstep⟩
    | free target => exact ⟨.free target, hstep⟩
    | moveConstruct source => exact ⟨.moveConstruct source, hstep⟩
    | assignNull target => exact ⟨.assignNull target, hstep⟩
  induction operations generalizing memory with
  | nil => exact ⟨[], hrun⟩
  | cons operation operations ih =>
      obtain ⟨reached, hstep, hrest⟩ := foldlM_cons_eq_some.mp hrun
      obtain ⟨first, hfirst⟩ := hplain hstep
      obtain ⟨plain, hplain⟩ := ih hrest
      exact ⟨first :: plain,
        foldlM_cons_eq_some.mpr ⟨reached, hfirst, hplain⟩⟩

/-! ## The calls -/

/-- What is known of the blocks that are in use: they were returned by `allocate`,
and no two of them are at one address. -/
structure InUse (pageSize : BitVec 64) (sizeOfT : ℕ)
    (blocks : List (Mapping Address × (LpFlexAllocator × ℕ))) : Prop where
  allocated : ∀ block ∈ blocks, lpAllocate pageSize sizeOfT block.2.1 block.2.2
    (some block.1.address) = some (some block.1)
  apart : ∀ block ∈ blocks, ∀ other ∈ blocks,
    block.1.address = other.1.address → block.1 = other.1

/-- The calls of a sound heap are a sound ledger of addresses, on which the blocks
in use are those of the heap. -/
theorem sound_systemCalls {heap : Heap LpFlexAllocator (Mapping Address)}
    (hsound : Sound heap) (h : Answered pageSize sizeOfT heap) :
    Sound (systemCalls pageSize sizeOfT heap) ∧
      outstanding (systemCalls pageSize sizeOfT heap) =
        (outstanding heap).map held ∧
      InUse pageSize sizeOfT (outstanding heap) := by
  induction h with
  | nil => exact ⟨.nil, rfl, List.forall_mem_nil _, List.forall_mem_nil _⟩
  | @acquire heap ptr alloc n h hfresh hallocated ih =>
      obtain ⟨hcalls, hheld, hinUse⟩ := ih hsound.of_append
      have hcall : systemCalls pageSize sizeOfT
          (heap ++ [.acquire ptr (alloc, n)]) =
            systemCalls pageSize sizeOfT heap ++
              [.acquire ptr.address (held (ptr, (alloc, n))).2] := by
        rw [systemCalls, List.filterMap_append]
        rfl
      rw [hcall, outstanding_acquire, outstanding_acquire, List.map_cons, hheld]
      refine ⟨hcalls.snoc ?_, rfl, ?_, ?_⟩
      · intro t hmem
        rw [hheld] at hmem
        obtain ⟨block, hblock, heq⟩ := List.mem_map.mp hmem
        exact hfresh block hblock (congrArg Prod.fst heq)
      · exact List.forall_mem_cons.mpr ⟨hallocated, hinUse.allocated⟩
      · intro block hblock other hother haddress
        rcases List.mem_cons.mp hblock with rfl | hblock <;>
          rcases List.mem_cons.mp hother with rfl | hother
        · rfl
        · exact absurd haddress.symm (hfresh other hother)
        · exact absurd haddress (hfresh block hblock)
        · exact hinUse.apart block hblock other hother haddress
  | @release heap ptr tag h ih =>
      obtain ⟨hcalls, hheld, hinUse⟩ := ih hsound.of_append
      have hptr : (ptr, tag) ∈ outstanding heap := hsound.allows
      have hcall : systemCalls pageSize sizeOfT (heap ++ [.release ptr tag]) =
          systemCalls pageSize sizeOfT heap ++
            [.release ptr.address (held (ptr, tag)).2] := by
        rw [systemCalls, List.filterMap_append, List.filterMap_cons,
          systemCall_release (hinUse.allocated _ hptr)]
        rfl
      rw [hcall, outstanding_release, outstanding_release, hheld]
      refine ⟨hcalls.snoc ?_, ?_, ?_, ?_⟩
      · exact hheld ▸ List.mem_map_of_mem hptr
      · rw [List.filter_map]
        congr 1
        apply List.filter_congr
        intro block hblock
        have hsame : block.1.address = ptr.address ↔ block.1 = ptr :=
          ⟨hinUse.apart block hblock _ hptr, congrArg Mapping.address⟩
        simp [held, hsame]
      · intro block hblock
        exact hinUse.allocated block (List.mem_of_mem_filter hblock)
      · intro block hblock other hother
        exact hinUse.apart block (List.mem_of_mem_filter hblock) other
          (List.mem_of_mem_filter hother)

end Answered

/-- A block that a buffer holds is in use. -/
theorem Simulates.mem_outstanding {Allocator Block : Type*} [DecidableEq Block]
    {custody : Custody Block (Allocator × ℕ)} {memory : Memory Allocator Block}
    (h : Simulates custody memory) (hconserved : custody.Conserved)
    {this : Buffer Allocator Block} (hthis : this ∈ memory.buffers)
    {ptr : Block} (hdata : this.data = some ptr) :
    (ptr, (this.alloc, this.size)) ∈ outstanding memory.heap := by
  rw [← h.ledger, hconserved.balance.mem_iff]
  apply List.mem_append_left
  rw [Custody.tokens, List.reduceOption_mem_iff, h.slots]
  exact List.mem_map.mpr ⟨this, hthis, Buffer.holding_of_data hdata⟩

/-- What the platform sees of the buffers. -/
structure Served (pageSize : BitVec 64) (sizeOfT : ℕ)
    (memory : LpMemory Address) : Prop where
  /-- A `munmap` passes the address and the length of the last `mmap` there, a
  `free` the address of a `posix_memalign`, and nothing happened to the address
  since. -/
  paired : ∀ before address length after,
    systemCalls pageSize sizeOfT memory.heap =
        before ++ .release address length :: after →
      ∃ earlier later, before = earlier ++ .acquire address length :: later ∧
        ∀ e ∈ later, e.token ≠ address
  /-- No address is returned while it is in use. -/
  fresh : ∀ before address length after,
    systemCalls pageSize sizeOfT memory.heap =
        before ++ .acquire address length :: after →
      ∀ length', (address, length') ∉ outstanding before
  /-- What a buffer holds is in use, in the way that its allocator asked for. -/
  live : ∀ this ∈ memory.buffers, ∀ ptr, this.data = some ptr →
    held (ptr, (this.alloc, this.size)) ∈
      outstanding (systemCalls pageSize sizeOfT memory.heap)
  /-- If every address in use is held by some buffer, then freeing the buffers
  gives all of them back. -/
  frees : (∀ x ∈ outstanding (systemCalls pageSize sizeOfT memory.heap),
      ∃ this ∈ memory.buffers, ∃ ptr,
        this.data = some ptr ∧ ptr.address = x.1) →
    ∃ memory', memory.run pageSize sizeOfT
        ((List.range memory.buffers.length).map .free) = some memory' ∧
      outstanding (systemCalls pageSize sizeOfT memory'.heap) = []

/-- Whatever the platform answers, the calls of every run of buffers over the
allocator are served. -/
theorem LpMemory.served_of_run (pageSize : BitVec 64) (sizeOfT : ℕ)
    (operations : List (LpOperation Address)) (memory : LpMemory Address)
    (hrun : LpMemory.run pageSize sizeOfT {} operations = some memory) :
    Served pageSize sizeOfT memory := by
  obtain ⟨plain, hplain⟩ := LpMemory.exists_run hrun
  obtain ⟨custody, hconserved, hsim, -⟩ := exists_custody_of_run hplain
  have hsound : Sound memory.heap := hsim.ledger ▸ hconserved.sound
  have hnil : Answered pageSize sizeOfT ({} : LpMemory Address).heap := .nil
  have hanswered := hnil.run hrun
  obtain ⟨hcalls, hheld, hinUse⟩ := sound_systemCalls hsound hanswered
  have hlive {this : Buffer LpFlexAllocator (Mapping Address)}
      (hthis : this ∈ memory.buffers) {ptr : Mapping Address}
      (hdata : this.data = some ptr) :=
    hsim.mem_outstanding hconserved hthis hdata
  refine ⟨?_, ?_, ?_, ?_⟩
  · intro before address length after heq
    rw [heq] at hcalls
    exact hcalls.of_append.exists_acquire hcalls.allows
  · intro before address length after heq
    rw [heq] at hcalls
    exact hcalls.allows
  · intro this hthis ptr hdata
    rw [hheld]
    exact List.mem_map_of_mem (hlive hthis hdata)
  · intro hkept
    have hnone : memory.NoneLost := by
      intro ptr tag hptr
      have hmem := List.mem_map_of_mem (f := held) hptr
      rw [← hheld] at hmem
      obtain ⟨this, hthis, other, hdata, haddress⟩ := hkept _ hmem
      obtain rfl := hinUse.apart _ (hlive hthis hdata) _ hptr haddress
      exact ⟨this, hthis, hdata⟩
    obtain ⟨memory', hfree, hnil⟩ :=
      (freesAll_iff_lost_eq_nil hconserved hsim).mpr
        ((noneLost_iff_lost_eq_nil hconserved hsim).mp hnone)
    have hsame : memory.run pageSize sizeOfT
        ((List.range memory.buffers.length).map .free) = some memory' := by
      rw [← hfree, Memory.freeAll, Memory.run, LpMemory.run,
        List.foldlM_map, List.foldlM_map]
      rfl
    obtain ⟨custody', hsteps, hsim', -⟩ := hsim.run hfree
    have hsound' : Sound memory'.heap :=
      hsim'.ledger ▸ (hconserved.run hsteps).sound
    obtain ⟨-, hheld', -⟩ := sound_systemCalls hsound' (hanswered.run hsame)
    refine ⟨memory', hsame, ?_⟩
    rw [hheld', hnil, List.map_nil]

/-- A mapping of one page for a buffer that is moved and freed, and a block that
is still held. -/
theorem LpMemory.served_of_run_moved :
    Served 2097152#64 1000
      (⟨[⟨⟨true⟩, 0, none⟩, ⟨⟨true⟩, 0, none⟩,
          ⟨⟨false⟩, 2, some ⟨8192, 2000⟩⟩],
        [.acquire ⟨4096, 2097152⟩ (⟨true⟩, 3),
          .release ⟨4096, 2097152⟩ (⟨true⟩, 3),
          .acquire ⟨8192, 2000⟩ (⟨false⟩, 2)]⟩ : LpMemory ℕ) :=
  LpMemory.served_of_run 2097152#64 1000
    [.construct 3 ⟨true⟩ ⟨some 4096, true⟩, .moveConstruct 0, .free 1,
      .construct 2 ⟨false⟩ ⟨some 8192, true⟩] _ (by decide +kernel)

end BenchBox
