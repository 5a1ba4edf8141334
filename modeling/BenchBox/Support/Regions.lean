import BenchBox.Support.Custody
import Mathlib.Order.Nat

/-!
# Regions and arenas

Regions are intervals of addresses.  An arena is a region that is carved into
blocks from one end to the other, and a pool keeps arenas in numbered slots.  As
long as the regions of the arenas are apart, so are all blocks of the pool,
whatever arenas are opened, moved between slots and closed.
-/

namespace Regions

/-- The addresses from `start` on. -/
structure Region where
  start : ℕ
  size : ℕ
deriving DecidableEq, Repr

def Region.stop (r : Region) : ℕ := r.start + r.size

/-- `x` lies in `r`. -/
def Within (x r : Region) : Prop := r.start ≤ x.start ∧ x.stop ≤ r.stop

/-- No address is in both. -/
def Apart (x y : Region) : Prop := x.stop ≤ y.start ∨ y.stop ≤ x.start

instance (x y : Region) : Decidable (Apart x y) :=
  inferInstanceAs (Decidable (_ ∨ _))

variable {x y r s : Region}

theorem Apart.symm (h : Apart x y) : Apart y x := Or.symm h

/-- What lies in regions that are apart is apart. -/
theorem Apart.of_within (h : Apart r s) (hx : Within x r) (hy : Within y s) :
    Apart x y := by
  rcases h with h | h
  · exact Or.inl (hx.2.trans (h.trans hy.1))
  · exact Or.inr (hy.2.trans (h.trans hx.1))

/-! ## Arenas -/

/-- A region handed out with an alignment. -/
structure Block extends Region where
  align : ℕ
deriving DecidableEq, Repr

/-- A region, the first address of it that is still free, and the blocks before
that address. -/
structure Arena where
  region : Region
  front : ℕ
  blocks : List Block := []
deriving DecidableEq, Repr

namespace Arena

/-- The blocks lie between the start of the region and the front, are aligned and
do not overlap. -/
structure Sound (a : Arena) : Prop where
  start_le : a.region.start ≤ a.front
  front_le : a.front ≤ a.region.stop
  within : ∀ b ∈ a.blocks, a.region.start ≤ b.start ∧ b.stop ≤ a.front
  aligned : ∀ b ∈ a.blocks, b.align ∣ b.start
  apart : a.blocks.Pairwise fun b c => Apart b.toRegion c.toRegion

/-- Hand out a block behind the front. -/
def carve (a : Arena) (b : Block) : Arena :=
  { a with front := b.stop, blocks := b :: a.blocks }

theorem sound_fresh (r : Region) : Sound ⟨r, r.start, []⟩ :=
  ⟨le_refl _, Nat.le_add_right _ _, List.forall_mem_nil _,
    List.forall_mem_nil _, List.Pairwise.nil⟩

variable {a : Arena} {b : Block}

theorem Sound.carve (h : a.Sound) (hfront : a.front ≤ b.start)
    (hstop : b.stop ≤ a.region.stop) (halign : b.align ∣ b.start) :
    (a.carve b).Sound := by
  have hgrows : a.front ≤ b.stop := hfront.trans (Nat.le_add_right _ _)
  refine ⟨h.start_le.trans hgrows, hstop, ?_, ?_, ?_⟩
  · intro c hc
    rcases List.mem_cons.mp hc with rfl | hc
    · exact ⟨h.start_le.trans hfront, le_refl _⟩
    · exact ⟨(h.within c hc).1, (h.within c hc).2.trans hgrows⟩
  · intro c hc
    rcases List.mem_cons.mp hc with rfl | hc
    · exact halign
    · exact h.aligned c hc
  · refine List.Pairwise.cons ?_ h.apart
    intro c hc
    exact Or.inr ((h.within c hc).2.trans hfront)

/-- Every block lies in the region. -/
theorem Sound.within_region (h : a.Sound) (hb : b ∈ a.blocks) :
    Within b.toRegion a.region :=
  ⟨(h.within b hb).1, (h.within b hb).2.trans h.front_le⟩

end Arena

/-! ## Pools -/

/-- Slots with at most one arena each. -/
abbrev Pool := List (Option Arena)

namespace Pool

/-- The arenas are sound and their regions apart. -/
structure Sound (pool : Pool) : Prop where
  arenas : ∀ a ∈ pool.reduceOption, a.Sound
  apart : pool.reduceOption.Pairwise fun a b => Apart a.region b.region

theorem sound_nil : Sound [] := ⟨by simp, by simp⟩

/-- The order of the slots does not matter. -/
theorem Sound.of_perm {pool pool' : Pool} (h : Sound pool)
    (hperm : pool.reduceOption.Perm pool'.reduceOption) : Sound pool' := by
  refine ⟨fun a ha => h.arenas a (hperm.mem_iff.mpr ha), ?_⟩
  exact (hperm.pairwise_iff fun {_ _} => Apart.symm).mp h.apart

variable {pool : Pool} {i j : ℕ}

theorem Sound.append_none (h : Sound pool) : Sound (pool ++ [none]) := by
  refine h.of_perm ?_
  rw [List.reduceOption_append]
  simp

/-- An arena may be opened in a free slot if its region is apart from the
others. -/
theorem Sound.occupy (h : Sound pool) (hslot : pool[i]? = some none) {a : Arena}
    (ha : a.Sound)
    (hfresh : ∀ b ∈ pool.reduceOption, Apart a.region b.region) :
    Sound (pool.set i (some a)) := by
  have hperm := Custody.reduceOption_set_some hslot a
  have hopened : Sound (some a :: pool) := by
    refine ⟨?_, ?_⟩
    · rw [List.reduceOption_cons_of_some]
      exact List.forall_mem_cons.mpr ⟨ha, h.arenas⟩
    · rw [List.reduceOption_cons_of_some]
      exact List.Pairwise.cons hfresh h.apart
  refine hopened.of_perm ?_
  rw [List.reduceOption_cons_of_some]
  exact hperm.symm

theorem Sound.close (h : Sound pool) {slot : Option Arena}
    (hslot : pool[i]? = some slot) : Sound (pool.set i none) := by
  cases slot with
  | none =>
      rw [Custody.set_getElem?_self hslot]
      exact h
  | some a =>
      have hperm := Custody.reduceOption_set_none hslot
      refine ⟨?_, ?_⟩
      · intro b hb
        exact h.arenas b (hperm.mem_iff.mpr (List.mem_cons_of_mem a hb))
      · have hpairs := (hperm.pairwise_iff fun {_ _} => Apart.symm).mp h.apart
        exact (List.pairwise_cons.mp hpairs).2

/-- An arena may be replaced by one of the same region. -/
theorem Sound.replace (h : Sound pool) {a a' : Arena}
    (hslot : pool[i]? = some (some a)) (ha' : a'.Sound)
    (hregion : a'.region = a.region) : Sound (pool.set i (some a')) := by
  have hi := (List.getElem?_eq_some_iff.mp hslot).1
  have hclosed := h.close hslot
  have hfree : (pool.set i none)[i]? = some none := List.getElem?_set_self hi
  have hperm := Custody.reduceOption_set_none hslot
  have hpairs := (hperm.pairwise_iff fun {_ _} => Apart.symm).mp h.apart
  have hopened := hclosed.occupy hfree ha' fun b hb => by
    rw [hregion]
    exact (List.pairwise_cons.mp hpairs).1 b hb
  rwa [List.set_set] at hopened

theorem Sound.carve (h : Sound pool) {a : Arena} {b : Block}
    (hslot : pool[i]? = some (some a)) (hfront : a.front ≤ b.start)
    (hstop : b.stop ≤ a.region.stop) (halign : b.align ∣ b.start) :
    Sound (pool.set i (some (a.carve b))) := by
  have ha : a.Sound :=
    h.arenas a (List.reduceOption_mem_iff.mpr (List.mem_of_getElem? hslot))
  exact h.replace hslot (ha.carve hfront hstop halign) rfl

/-- An arena may move to a free slot. -/
theorem Sound.move (h : Sound pool) {slot : Option Arena}
    (hi : pool[i]? = some none) (hj : pool[j]? = some slot) :
    Sound ((pool.set i slot).set j none) := by
  cases slot with
  | none =>
      rw [Custody.set_getElem?_self hi, Custody.set_getElem?_self hj]
      exact h
  | some a =>
      have hne : i ≠ j := by
        rintro rfl
        simp [hi] at hj
      have hset : (pool.set i (some a))[j]? = some (some a) := by
        rw [List.getElem?_set_ne hne, hj]
      have hout := Custody.reduceOption_set_none hset
      have hin := Custody.reduceOption_set_some hi a
      exact h.of_perm ((List.perm_cons a).mp (hin.symm.trans hout))

/-- All blocks of a pool, whichever arenas they are from. -/
def blocks (pool : Pool) : List Block :=
  pool.reduceOption.flatMap Arena.blocks

/-- No two blocks of a pool overlap. -/
theorem Sound.pairwise_blocks (h : Sound pool) :
    (blocks pool).Pairwise fun b c => Apart b.toRegion c.toRegion := by
  rw [blocks, List.pairwise_flatMap]
  refine ⟨fun a ha => (h.arenas a ha).apart, ?_⟩
  refine h.apart.imp_of_mem ?_
  intro a a' ha ha' hregions b hb c hc
  exact hregions.of_within ((h.arenas a ha).within_region hb)
    ((h.arenas a' ha').within_region hc)

end Pool

end Regions
