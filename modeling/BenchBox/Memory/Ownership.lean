import BenchBox.Memory.Buffer

/-!
# Ownership of blocks

Every operation on buffers is a run of custody steps on the blocks they hold.
The conservation of custody then gives that no block has two owners and that
every deallocation matches its allocation.
-/

namespace BenchBox

open Ledger

variable {Allocator Block : Type*}

namespace Buffer

@[simp] theorem holding_mk_none (alloc : Allocator) (size : ℕ) :
    (⟨alloc, size, none⟩ : Buffer Allocator Block).holding = none := rfl

@[simp] theorem holding_assignNull (buffer : Buffer Allocator Block) :
    buffer.assignNull.holding = none := rfl

@[simp] theorem holding_moveConstruct (source : Buffer Allocator Block) :
    source.moveConstruct.1.holding = source.holding ∧
      source.moveConstruct.2.holding = none :=
  ⟨rfl, rfl⟩

@[simp] theorem holding_moveAssign (this source : Buffer Allocator Block) :
    (this.moveAssign source).1.holding = source.holding ∧
      (this.moveAssign source).2.holding = none :=
  ⟨rfl, rfl⟩

theorem holding_eq_none_iff {buffer : Buffer Allocator Block} :
    buffer.holding = none ↔ buffer.data = none :=
  Option.map_eq_none_iff

theorem holding_of_data {this : Buffer Allocator Block} {ptr : Block}
    (h : this.data = some ptr) :
    this.holding = some (ptr, (this.alloc, this.size)) := by
  rw [holding, h, Option.map_some]

theorem holding_free (buffer : Buffer Allocator Block)
    (heap : Heap Allocator Block) : (buffer.free heap).1.holding = none := by
  rw [free]
  split
  next hdata => exact holding_eq_none_iff.mpr hdata
  next => rfl

theorem heap_free (buffer : Buffer Allocator Block)
    (heap : Heap Allocator Block) :
    (buffer.free heap).2 =
      heap ++ buffer.holding.toList.map fun x => .release x.1 x.2 := by
  rw [free, holding]
  cases buffer.data <;> simp

/-- A buffer without a block has no elements. -/
def NullEmpty (buffer : Buffer Allocator Block) : Prop :=
  buffer.data = none → buffer.size = 0

theorem nullEmpty_assignNull (buffer : Buffer Allocator Block) :
    buffer.assignNull.NullEmpty := fun _ => rfl

theorem NullEmpty.free {buffer : Buffer Allocator Block}
    (h : buffer.NullEmpty) (heap : Heap Allocator Block) :
    (buffer.free heap).1.NullEmpty := by
  rw [Buffer.free]
  split
  · exact h
  · exact fun _ => rfl

end Buffer

theorem Allocation.not_mem_outstanding [DecidableEq Block]
    {heap : Heap Allocator Block} {sizeN : ℕ} {b : Block} {constructed : Bool}
    (h : (pointer (some b) constructed).admissible heap sizeN = true)
    (tag : Allocator × ℕ) : (b, tag) ∉ outstanding heap := by
  rw [admissible, Bool.and_eq_true, List.all_eq_true] at h
  intro hmem
  simpa using h.1 _ hmem

theorem forall_nullEmpty_set {buffers : List (Buffer Allocator Block)}
    (h : ∀ this ∈ buffers, this.NullEmpty) (i : ℕ)
    {buffer : Buffer Allocator Block} (hbuffer : buffer.NullEmpty) :
    ∀ this ∈ buffers.set i buffer, this.NullEmpty := by
  intro this hthis
  rcases List.mem_or_eq_of_mem_set hthis with hthis | rfl
  · exact h this hthis
  · exact hbuffer

theorem forall_nullEmpty_append {buffers : List (Buffer Allocator Block)}
    (h : ∀ this ∈ buffers, this.NullEmpty)
    {buffer : Buffer Allocator Block} (hbuffer : buffer.NullEmpty) :
    ∀ this ∈ buffers ++ [buffer], this.NullEmpty := by
  intro this hthis
  rcases List.mem_append.mp hthis with hthis | hthis
  · exact h this hthis
  · exact List.mem_singleton.mp hthis ▸ hbuffer

/-! ## The operations as custody steps -/

/-- The slots are the blocks the buffers hold, the ledger is the heap, and null
buffers have no elements. -/
structure Simulates (custody : Custody Block (Allocator × ℕ))
    (memory : Memory Allocator Block) : Prop where
  slots : custody.slots = memory.buffers.map Buffer.holding
  ledger : custody.ledger = memory.heap
  null : ∀ this ∈ memory.buffers, this.NullEmpty

/-- The operation overwrites no pointer to a block and abandons none. -/
def Memory.Keeps (memory : Memory Allocator Block) :
    Operation Allocator Block → Prop
  | .construct _ _ outcome => outcome.abandons = false
  | .realloc _ _ outcome => outcome.abandons = false
  | .moveAssign target _ =>
      ∀ this, memory.buffers[target]? = some this → this.data = none
  | .assignNull target =>
      ∀ this, memory.buffers[target]? = some this → this.data = none
  | _ => True

theorem Simulates.getElem?_slots {custody : Custody Block (Allocator × ℕ)}
    {memory : Memory Allocator Block} (h : Simulates custody memory) {i : ℕ}
    {this : Buffer Allocator Block} (hthis : memory.buffers[i]? = some this) :
    custody.slots[i]? = some this.holding := by
  rw [h.slots, List.getElem?_map, hthis, Option.map_some]

section Simulation

variable [DecidableEq Block]

theorem Buffer.nullEmpty_construct {sizeN : ℕ} (alloc : Allocator)
    {outcome : Allocation Block} {heap : Heap Allocator Block}
    (h : outcome.admissible heap sizeN = true)
    (heap' : Heap Allocator Block) :
    (construct sizeN alloc outcome heap').1.NullEmpty := by
  intro hdata
  match outcome with
  | .badAlloc => rfl
  | .pointer ptr false => rfl
  | .pointer (some b) true => simp [construct] at hdata
  | .pointer none true => simpa [Allocation.admissible, construct] using h

/-- An allocation fills an empty slot, leaves it empty, or fills it and drops the
block. -/
theorem run_construct (custody : Custody Block (Allocator × ℕ)) {i sizeN : ℕ}
    (hslot : custody.slots[i]? = some none) (alloc : Allocator)
    {outcome : Allocation Block}
    (hadmissible : outcome.admissible custody.ledger sizeN = true) :
    ∃ lost, Relation.ReflTransGen Custody.Step custody
        ⟨custody.slots.set i
            (Buffer.construct sizeN alloc outcome custody.ledger).1.holding,
          lost, (Buffer.construct sizeN alloc outcome custody.ledger).2⟩ ∧
      (lost = custody.lost ↔ outcome.abandons = false) := by
  have hempty : custody.slots.set i none = custody.slots :=
    Custody.set_getElem?_self hslot
  cases outcome with
  | badAlloc =>
      refine ⟨custody.lost, ?_, by simp [Allocation.abandons]⟩
      simp [Buffer.construct, hempty, Relation.ReflTransGen.refl]
  | pointer ptr constructed =>
      cases ptr with
      | none =>
          refine ⟨custody.lost, ?_, by simp [Allocation.abandons]⟩
          cases constructed <;>
            simp [Buffer.construct, hempty, Relation.ReflTransGen.refl]
      | some b =>
          have hfresh := Allocation.not_mem_outstanding hadmissible
          have hacquire := Relation.ReflTransGen.single
            (Custody.Step.acquire (alloc, sizeN) hslot hfresh)
          cases constructed with
          | true => exact ⟨custody.lost, hacquire, by simp [Allocation.abandons]⟩
          | false =>
              have hi := (List.getElem?_eq_some_iff.mp hslot).1
              have hdrop := hacquire.tail
                (Custody.Step.drop (List.getElem?_set_self hi))
              refine ⟨(b, (alloc, sizeN)) :: custody.lost, ?_,
                by simp [Allocation.abandons]⟩
              rwa [List.set_set] at hdrop

/-- Each operation is a run of custody steps, which drops nothing exactly if the
operation keeps every block. -/
theorem Simulates.step {custody : Custody Block (Allocator × ℕ)}
    {memory memory' : Memory Allocator Block} (h : Simulates custody memory)
    {operation : Operation Allocator Block}
    (hstep : memory.step operation = some memory') :
    ∃ custody', Relation.ReflTransGen Custody.Step custody custody' ∧
      Simulates custody' memory' ∧
      (custody'.lost = custody.lost ↔ memory.Keeps operation) := by
  cases operation with
  | constructNull alloc =>
      obtain rfl := Option.some.inj hstep
      refine ⟨_, Relation.ReflTransGen.single (Custody.Step.add custody),
        ⟨?_, h.ledger, forall_nullEmpty_append h.null fun _ => rfl⟩,
        by simp [Memory.Keeps]⟩
      simp [h.slots]
  | construct sizeN alloc outcome =>
      simp only [Memory.step, Option.ite_none_right_eq_some,
        Option.some.injEq] at hstep
      obtain ⟨hadmissible, rfl⟩ := hstep
      have hnull := Buffer.nullEmpty_construct alloc hadmissible memory.heap
      have hslot : (custody.slots ++ [none])[custody.slots.length]? =
          some none := by simp
      rw [← h.ledger] at hadmissible
      obtain ⟨lost, hrun, hlost⟩ := run_construct
        { custody with slots := custody.slots ++ [none] }
        hslot alloc hadmissible
      refine ⟨_, Relation.ReflTransGen.head (Custody.Step.add custody) hrun,
        ⟨?_, ?_, forall_nullEmpty_append h.null hnull⟩, hlost⟩
      · simp [h.slots, h.ledger]
      · simp [h.ledger]
  | realloc target sizeN outcome =>
      simp only [Memory.step, Option.bind_eq_some_iff,
        Option.ite_none_right_eq_some, Option.some.injEq] at hstep
      obtain ⟨this, hthis, hadmissible, rfl⟩ := hstep
      have hrelease := Custody.run_release (h.getElem?_slots hthis)
      have hi := (List.getElem?_eq_some_iff.mp (h.getElem?_slots hthis)).1
      rw [h.ledger, ← this.heap_free] at hrelease
      obtain ⟨lost, hrun, hlost⟩ := run_construct
        ⟨custody.slots.set target none, custody.lost,
          (this.free memory.heap).2⟩
        (List.getElem?_set_self hi) (this.free memory.heap).1.alloc hadmissible
      refine ⟨_, hrelease.trans hrun, ⟨?_, rfl, forall_nullEmpty_set h.null
        target (Buffer.nullEmpty_construct _ hadmissible _)⟩, hlost⟩
      simp [h.slots, List.map_set, Buffer.realloc]
  | free target =>
      simp only [Memory.step, Option.map_eq_some_iff] at hstep
      obtain ⟨this, hthis, rfl⟩ := hstep
      have hnull := (h.null this (List.mem_of_getElem? hthis)).free memory.heap
      refine ⟨_, Custody.run_release (h.getElem?_slots hthis),
        ⟨?_, ?_, forall_nullEmpty_set h.null target hnull⟩,
        by simp [Memory.Keeps]⟩
      · simp [h.slots, List.map_set, Buffer.holding_free]
      · simp [h.ledger, Buffer.heap_free]
  | moveConstruct source =>
      simp only [Memory.step, Option.map_eq_some_iff] at hstep
      obtain ⟨other, hother, rfl⟩ := hstep
      have hsource := h.getElem?_slots hother
      have hj := (List.getElem?_eq_some_iff.mp hsource).1
      have hslot : (custody.slots ++ [none])[custody.slots.length]? =
          some none := by simp
      have hsource' : (custody.slots ++ [none])[source]? =
          some other.holding := by
        rw [List.getElem?_append_left hj, hsource]
      have hnull := forall_nullEmpty_append
        (forall_nullEmpty_set h.null source other.nullEmpty_assignNull)
        (h.null other (List.mem_of_getElem? hother))
      refine ⟨_, Relation.ReflTransGen.head (Custody.Step.add custody)
        (Custody.run_move hslot hsource'), ⟨?_, h.ledger, hnull⟩,
        by simp [Memory.Keeps]⟩
      rw [List.set_append_right _ _ (Nat.le_refl _), Nat.sub_self, List.set_cons_zero,
        List.set_append_left _ _ hj]
      simp [h.slots, List.map_set]
  | moveAssign target source =>
      simp only [Memory.step, Option.bind_eq_some_iff,
        Option.map_eq_some_iff] at hstep
      obtain ⟨this, hthis, other, hother, rfl⟩ := hstep
      have hnull := forall_nullEmpty_set (forall_nullEmpty_set h.null target
        (h.null other (List.mem_of_getElem? hother))) source
        other.nullEmpty_assignNull
      have hdrop := Custody.run_drop (h.getElem?_slots hthis)
      have hkeeps : this.holding.toList ++ custody.lost = custody.lost ↔
          memory.Keeps (.moveAssign target source) := by
        simp [Memory.Keeps, hthis, Buffer.holding_eq_none_iff]
      by_cases heq : target = source
      · -- the buffer nulls what it has just assigned to itself
        subst heq
        refine ⟨_, hdrop, ⟨?_, h.ledger, hnull⟩, hkeeps⟩
        simp [h.slots, List.map_set]
      · have hi := (List.getElem?_eq_some_iff.mp (h.getElem?_slots hthis)).1
        have hsource : (custody.slots.set target none)[source]? =
            some other.holding := by
          rw [List.getElem?_set_ne heq, h.getElem?_slots hother]
        have hmove := Custody.run_move
          (c := ⟨custody.slots.set target none,
            this.holding.toList ++ custody.lost, custody.ledger⟩)
          (List.getElem?_set_self hi) hsource
        refine ⟨_, hdrop.trans hmove, ⟨?_, h.ledger, hnull⟩, hkeeps⟩
        simp [h.slots, List.map_set]
  | assignNull target =>
      simp only [Memory.step, Option.map_eq_some_iff] at hstep
      obtain ⟨this, hthis, rfl⟩ := hstep
      refine ⟨_, Custody.run_drop (h.getElem?_slots hthis), ⟨?_, h.ledger,
        forall_nullEmpty_set h.null target this.nullEmpty_assignNull⟩, ?_⟩
      · simp [h.slots, List.map_set]
      · simp [Memory.Keeps, hthis, Buffer.holding_eq_none_iff]

/-! ## Runs -/

namespace Memory

theorem run_append_singleton (memory : Memory Allocator Block)
    (operations : List (Operation Allocator Block))
    (operation : Operation Allocator Block) :
    memory.run (operations ++ [operation]) =
      (memory.run operations).bind fun memory' => memory'.step operation := by
  rw [run, List.foldlM_append, ← run]
  cases memory.run operations with
  | none => rfl
  | some memory' => simp

/-- Every operation keeps the blocks at the point where it is executed. -/
def Lossless (memory : Memory Allocator Block)
    (operations : List (Operation Allocator Block)) : Prop :=
  ∀ before operation after memory',
    operations = before ++ operation :: after →
      memory.run before = some memory' → memory'.Keeps operation

theorem lossless_append_singleton_iff {memory memory' : Memory Allocator Block}
    {operations : List (Operation Allocator Block)}
    {operation : Operation Allocator Block}
    (hrun : memory.run operations = some memory') :
    memory.Lossless (operations ++ [operation]) ↔
      memory.Lossless operations ∧ memory'.Keeps operation := by
  constructor
  · intro h
    refine ⟨?_, h operations operation [] memory' rfl hrun⟩
    intro before earlier after reached heq
    apply h before earlier (after ++ [operation]) reached
    rw [heq, List.append_assoc, List.cons_append]
  · intro h before earlier after reached heq hreached
    rcases List.eq_nil_or_concat after with rfl | ⟨after, last, rfl⟩
    · obtain ⟨rfl, hlast⟩ := List.append_inj' heq rfl
      obtain rfl := List.singleton_inj.mp hlast
      obtain rfl := Option.some.inj (hrun.symm.trans hreached)
      exact h.2
    · rw [List.concat_eq_append, ← List.cons_append, ← List.append_assoc] at heq
      exact h.1 before earlier after reached (List.append_inj' heq rfl).1 hreached

end Memory

/-- A run of operations is a run of custody steps, which drops nothing exactly if
no operation loses a block. -/
theorem Simulates.run {custody : Custody Block (Allocator × ℕ)}
    {memory memory' : Memory Allocator Block} (h : Simulates custody memory)
    {operations : List (Operation Allocator Block)}
    (hrun : memory.run operations = some memory') :
    ∃ custody', Relation.ReflTransGen Custody.Step custody custody' ∧
      Simulates custody' memory' ∧
      (custody'.lost = custody.lost ↔ memory.Lossless operations) := by
  induction operations using List.reverseRecOn generalizing memory' with
  | nil =>
      obtain rfl := Option.some.inj hrun
      exact ⟨custody, Relation.ReflTransGen.refl, h,
        by simp [Memory.Lossless]⟩
  | append_singleton operations operation ih =>
      rw [Memory.run_append_singleton, Option.bind_eq_some_iff] at hrun
      obtain ⟨reached, hreached, hstep⟩ := hrun
      obtain ⟨custody₁, hrun₁, hsim₁, hlost₁⟩ := ih hreached
      obtain ⟨custody₂, hrun₂, hsim₂, hlost₂⟩ := hsim₁.step hstep
      refine ⟨custody₂, hrun₁.trans hrun₂, hsim₂, ?_⟩
      rw [Memory.lossless_append_singleton_iff hreached, ← hlost₁, ← hlost₂]
      have hsuffix₁ := Custody.lost_suffix_of_run hrun₁
      have hsuffix₂ := Custody.lost_suffix_of_run hrun₂
      constructor
      · intro heq
        rw [heq] at hsuffix₂
        have hmiddle : custody₁.lost = custody.lost :=
          hsuffix₂.eq_of_length_le hsuffix₁.length_le
        exact ⟨hmiddle, heq.trans hmiddle.symm⟩
      · exact fun hboth => hboth.2.trans hboth.1

theorem exists_custody_of_run {memory : Memory Allocator Block}
    {operations : List (Operation Allocator Block)}
    (hrun : Memory.run {} operations = some memory) :
    ∃ custody : Custody Block (Allocator × ℕ), custody.Conserved ∧
      Simulates custody memory ∧
      (custody.lost = [] ↔ Memory.Lossless {} operations) := by
  have hinit : Simulates ({} : Custody Block (Allocator × ℕ)) {} :=
    ⟨rfl, rfl, by simp⟩
  obtain ⟨custody, hsteps, hsim, hlost⟩ := hinit.run hrun
  exact ⟨custody, Custody.conserved_nil.run hsteps, hsim, hlost⟩

/-! ## Ownership -/

/-- What holds of the buffers and the heap wherever a run ends. -/
structure Memory.Owned (memory : Memory Allocator Block) : Prop where
  /-- No two buffers hold the same block. -/
  distinct : ∀ (i j : ℕ) (this other : Buffer Allocator Block) (ptr : Block),
    memory.buffers[i]? = some this → memory.buffers[j]? = some other →
      this.data = some ptr → other.data = some ptr → i = j
  /-- A block held is allocated, with the allocator and the count it would be
  deallocated with. -/
  live : ∀ this ∈ memory.buffers, ∀ ptr, this.data = some ptr →
    (ptr, (this.alloc, this.size)) ∈ outstanding memory.heap
  /-- A deallocation passes the allocator and the count of the last allocation of
  its block, which has not been deallocated since. -/
  paired : ∀ before ptr tag after,
    memory.heap = before ++ .release ptr tag :: after →
      ∃ earlier later, before = earlier ++ .acquire ptr tag :: later ∧
        ∀ e ∈ later, e.token ≠ ptr
  /-- Between two deallocations of a block it is allocated again. -/
  once : ∀ before between after ptr tag tag',
    memory.heap = before ++ .release ptr tag :: between ++
        .release ptr tag' :: after →
      .acquire ptr tag' ∈ between
  null : ∀ this ∈ memory.buffers, this.data = none → this.size = 0

/-- Whatever the allocations come to, every sequence of operations keeps the
blocks owned. -/
theorem Memory.owned_of_run (operations : List (Operation Allocator Block))
    (memory : Memory Allocator Block)
    (hrun : Memory.run {} operations = some memory) : memory.Owned := by
  obtain ⟨custody, hconserved, hsim, -⟩ := exists_custody_of_run hrun
  have hsound : Sound memory.heap := hsim.ledger ▸ hconserved.sound
  refine ⟨?_, ?_, ?_, ?_, ?_⟩
  · intro i j this other ptr hthis hother hdata hdata'
    have hi := hsim.getElem?_slots hthis
    have hj := hsim.getElem?_slots hother
    rw [Buffer.holding_of_data hdata] at hi
    rw [Buffer.holding_of_data hdata'] at hj
    exact hconserved.eq_of_slots hi hj
  · intro this hthis ptr hdata
    rw [← hsim.ledger, hconserved.balance.mem_iff]
    apply List.mem_append_left
    rw [Custody.tokens, List.reduceOption_mem_iff, hsim.slots]
    exact List.mem_map.mpr ⟨this, hthis, Buffer.holding_of_data hdata⟩
  · intro before ptr tag after heq
    rw [heq] at hsound
    exact hsound.of_append.exists_acquire hsound.allows
  · intro before between after ptr tag tag' heq
    rw [heq] at hsound
    exact hsound.exists_acquire_between
  · exact hsim.null

end Simulation

/-- An allocation, a move, a reallocation that fails, a deallocation, and an
allocation of no elements that returns null. -/
theorem Memory.owned_of_run_moved :
    (⟨[⟨true, 0, none⟩, ⟨true, 0, none⟩, ⟨false, 0, none⟩],
      [.acquire 0 (true, 4), .release 0 (true, 4)]⟩ :
        Memory Bool ℕ).Owned :=
  Memory.owned_of_run
    [.construct 4 true (.pointer (some 0) true), .moveConstruct 0,
      .realloc 1 8 .badAlloc, .free 0,
      .construct 0 false (.pointer none true)] _ (by decide)

end BenchBox
