import BenchBox.Memory.Ownership

/-!
# Lost blocks

A run loses a block exactly if it moves or assigns into a buffer that still
holds one, which `realloc` avoids by freeing first, or if a constructor throws
after the allocation.  A block once lost stays allocated whatever is freed.
-/

namespace BenchBox

open Ledger

variable {Allocator Block : Type*} [DecidableEq Block]

namespace Memory

/-- Every block allocated and not deallocated is held by some buffer. -/
def NoneLost (memory : Memory Allocator Block) : Prop :=
  ∀ ptr tag, (ptr, tag) ∈ outstanding memory.heap →
    ∃ this ∈ memory.buffers, this.data = some ptr

/-- `free` on every buffer. -/
def freeAll (memory : Memory Allocator Block) :
    List (Operation Allocator Block) :=
  (List.range memory.buffers.length).map .free

/-- Freeing every buffer leaves nothing allocated. -/
def FreesAll (memory : Memory Allocator Block) : Prop :=
  ∃ memory', memory.run memory.freeAll = some memory' ∧
    outstanding memory'.heap = []

-- a buffer moved into itself ends like one assigned `nullptr`
example :
    run {} [.construct 1 true (.pointer (some 0) true), .moveAssign 0 0] =
      some (⟨[⟨true, 0, none⟩], [.acquire 0 (true, 1)]⟩ : Memory Bool ℕ) := by
  decide

/-! ## Freeing every buffer -/

theorem exists_run_free (memory : Memory Allocator Block) {n : ℕ}
    (hn : n ≤ memory.buffers.length) :
    ∃ memory', memory.run ((List.range n).map .free) = some memory' ∧
      memory'.buffers.length = memory.buffers.length ∧
      ∀ i < n, ∀ this, memory'.buffers[i]? = some this →
        this.holding = none := by
  induction n with
  | zero => exact ⟨memory, rfl, rfl, by simp⟩
  | succ n ih =>
      obtain ⟨reached, hrun, hlength, hfreed⟩ := ih (Nat.le_of_succ_le hn)
      have hn' : n < reached.buffers.length := by omega
      have hget : reached.buffers[n]? = some reached.buffers[n] :=
        List.getElem?_eq_getElem hn'
      rw [List.range_succ, List.map_append, List.map_singleton,
        run_append_singleton, hrun, Option.bind_some, step, hget]
      refine ⟨_, rfl, by simpa using hlength, ?_⟩
      intro i hi this hthis
      by_cases hin : i = n
      · subst hin
        rw [List.getElem?_set_self (by omega), Option.some_inj] at hthis
        exact hthis ▸ Buffer.holding_free _ _
      · rw [List.getElem?_set_ne (Ne.symm hin)] at hthis
        exact hfreed i (by omega) this hthis

theorem exists_run_freeAll (memory : Memory Allocator Block) :
    ∃ memory', memory.run memory.freeAll = some memory' ∧
      ∀ this ∈ memory'.buffers, this.holding = none := by
  obtain ⟨memory', hrun, hlength, hfreed⟩ :=
    memory.exists_run_free (Nat.le_refl _)
  refine ⟨memory', hrun, ?_⟩
  intro this hthis
  obtain ⟨i, hi, rfl⟩ := List.getElem_of_mem hthis
  exact hfreed i (hlength ▸ hi) _ (List.getElem?_eq_getElem hi)

/-- Freeing loses nothing. -/
theorem lossless_freeAll (memory : Memory Allocator Block) :
    memory.Lossless memory.freeAll := by
  intro before operation after _ heq _
  have hmem : operation ∈ memory.freeAll := by
    rw [heq]
    simp
  obtain ⟨i, -, rfl⟩ := List.mem_map.mp hmem
  trivial

end Memory

/-! ## What a run loses -/

variable {custody : Custody Block (Allocator × ℕ)}
  {memory : Memory Allocator Block}

theorem noneLost_iff_lost_eq_nil (hconserved : custody.Conserved)
    (hsim : Simulates custody memory) :
    memory.NoneLost ↔ custody.lost = [] := by
  rw [hconserved.lost_eq_nil_iff, hsim.ledger, hsim.slots]
  have hheld (ptr : Block) :
      (∃ this ∈ memory.buffers, this.data = some ptr) ↔
        ∃ tag, some (ptr, tag) ∈ memory.buffers.map Buffer.holding := by
    simp only [List.mem_map, Buffer.holding, Option.map_eq_some_iff,
      Prod.mk.injEq]
    constructor
    · intro h
      obtain ⟨this, hthis, hdata⟩ := h
      exact ⟨_, this, hthis, ptr, hdata, rfl, rfl⟩
    · intro h
      obtain ⟨_, this, hthis, _, hdata, rfl, -⟩ := h
      exact ⟨this, hthis, hdata⟩
  simp only [Memory.NoneLost, hheld, Prod.forall]

/-- What stays allocated after freeing every buffer is what was lost. -/
theorem freesAll_iff_lost_eq_nil (hconserved : custody.Conserved)
    (hsim : Simulates custody memory) :
    memory.FreesAll ↔ custody.lost = [] := by
  obtain ⟨memory', hrun, hfreed⟩ := memory.exists_run_freeAll
  obtain ⟨custody', hsteps, hsim', hlost⟩ := hsim.run hrun
  have hsame : custody'.lost = custody.lost :=
    hlost.mpr memory.lossless_freeAll
  have hempty : ∀ slot ∈ custody'.slots, slot = none := by
    rw [hsim'.slots, List.forall_mem_map]
    exact hfreed
  have hperm := (hconserved.run hsteps).outstanding_perm_lost hempty
  rw [hsim'.ledger, hsame] at hperm
  constructor
  · intro h
    obtain ⟨reached, hreached, hnil⟩ := h
    obtain rfl := Option.some.inj (hrun.symm.trans hreached)
    exact (hnil ▸ hperm).nil_eq.symm
  · intro hnil
    exact ⟨memory', hrun, (hnil ▸ hperm).eq_nil⟩

/-- After a run no block is lost, and freeing every buffer leaves nothing
allocated, exactly if no operation of the run overwrites or abandons a block. -/
theorem Memory.noneLost_iff_lossless
    (operations : List (Operation Allocator Block))
    (memory : Memory Allocator Block)
    (hrun : Memory.run {} operations = some memory) :
    (memory.NoneLost ∧ memory.FreesAll) ↔ Memory.Lossless {} operations := by
  obtain ⟨custody, hconserved, hsim, hlost⟩ := exists_custody_of_run hrun
  rw [noneLost_iff_lost_eq_nil hconserved hsim,
    freesAll_iff_lost_eq_nil hconserved hsim, and_self, hlost]

/-- A buffer that has been freed may be moved into. -/
theorem Memory.noneLost_iff_lossless_freed :
    let operations := [.construct 1 true (.pointer (some 0) true),
      .construct 1 false (.pointer (some 1) true), .free 0, .moveAssign 0 1]
    let memory : Memory Bool ℕ := ⟨[⟨false, 1, some 1⟩, ⟨false, 0, none⟩],
      [.acquire 0 (true, 1), .acquire 1 (false, 1), .release 0 (true, 1)]⟩
    (memory.NoneLost ∧ memory.FreesAll) ↔ Memory.Lossless {} operations :=
  Memory.noneLost_iff_lossless _ _ (by decide)

/-- The block of a buffer that is moved into is lost, and stays allocated after
both buffers are freed. -/
theorem Memory.not_noneLost_moveAssign :
    ∃ memory memory' : Memory Bool ℕ,
      Memory.run {} [.construct 1 true (.pointer (some 0) true),
        .construct 1 true (.pointer (some 1) true), .moveAssign 0 1] =
          some memory ∧
      ¬memory.NoneLost ∧
      memory.run memory.freeAll = some memory' ∧
      outstanding memory'.heap = [(0, (true, 1))] := by
  refine ⟨⟨[⟨true, 1, some 1⟩, ⟨true, 0, none⟩],
      [.acquire 0 (true, 1), .acquire 1 (true, 1)]⟩,
    ⟨[⟨true, 0, none⟩, ⟨true, 0, none⟩],
      [.acquire 0 (true, 1), .acquire 1 (true, 1), .release 1 (true, 1)]⟩,
    by decide, ?_, by decide, by decide⟩
  intro h
  obtain ⟨this, hthis, hdata⟩ := h 0 (true, 1) (by decide)
  simp only [List.mem_cons, List.not_mem_nil, or_false] at hthis
  rcases hthis with rfl | rfl
  · exact absurd hdata (by decide)
  · exact absurd hdata (by decide)

end BenchBox
