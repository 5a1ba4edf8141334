import BenchBox.Support.Ledger
import Mathlib.Data.List.ReduceOption
import Mathlib.Logic.Relation

/-!
# Custody of tokens

Numbered slots hold tokens that are handed out and given back through a ledger.
A token leaves its slot by being given back, by moving to an empty slot, or by
being dropped, after which it stays outstanding in no slot.  Every run conserves
the tokens: what is outstanding is what the slots hold and what was dropped.
-/

open Ledger

/-- Slots with at most one tagged token each, the tokens dropped so far, and the
ledger. -/
structure Custody (β τ : Type*) where
  slots : List (Option (β × τ)) := []
  lost : List (β × τ) := []
  ledger : List (Event β τ) := []

namespace Custody

variable {β τ : Type*} [DecidableEq β]

/-- The tokens in the slots. -/
def tokens (c : Custody β τ) : List (β × τ) := c.slots.reduceOption

inductive Step : Custody β τ → Custody β τ → Prop
  | add (c : Custody β τ) : Step c { c with slots := c.slots ++ [none] }
  | acquire {c : Custody β τ} {i : ℕ} {b : β} (t : τ) :
      c.slots[i]? = some none → (∀ u, (b, u) ∉ outstanding c.ledger) →
      Step c ⟨c.slots.set i (some (b, t)), c.lost, c.ledger ++ [.acquire b t]⟩
  | release {c : Custody β τ} {i : ℕ} {b : β} {t : τ} :
      c.slots[i]? = some (some (b, t)) →
      Step c ⟨c.slots.set i none, c.lost, c.ledger ++ [.release b t]⟩
  | move {c : Custody β τ} {i j : ℕ} {x : β × τ} :
      c.slots[i]? = some none → c.slots[j]? = some (some x) →
      Step c { c with slots := (c.slots.set i (some x)).set j none }
  | drop {c : Custody β τ} {i : ℕ} {x : β × τ} :
      c.slots[i]? = some (some x) →
      Step c ⟨c.slots.set i none, x :: c.lost, c.ledger⟩

/-! ## Slots -/

theorem reduceOption_set_none {α : Type*} {slots : List (Option α)} {i : ℕ}
    {x : α} (h : slots[i]? = some (some x)) :
    slots.reduceOption.Perm (x :: (slots.set i none).reduceOption) := by
  induction slots generalizing i with
  | nil => simp at h
  | cons slot slots ih =>
      cases i with
      | zero =>
          rw [List.getElem?_cons_zero, Option.some_inj] at h
          subst h
          simp
      | succ i =>
          rw [List.getElem?_cons_succ] at h
          rw [List.set_cons_succ]
          cases slot with
          | none => simpa using ih h
          | some y =>
              rw [List.reduceOption_cons_of_some, List.reduceOption_cons_of_some]
              exact ((ih h).cons y).trans (List.Perm.swap x y _)

theorem reduceOption_set_some {α : Type*} {slots : List (Option α)} {i : ℕ}
    (h : slots[i]? = some none) (x : α) :
    (slots.set i (some x)).reduceOption.Perm (x :: slots.reduceOption) := by
  obtain ⟨hi, hnone⟩ := List.getElem?_eq_some_iff.mp h
  have hset : (slots.set i (some x))[i]? = some (some x) :=
    List.getElem?_set_self hi
  have hback : (slots.set i (some x)).set i none = slots := by
    rw [List.set_set, ← hnone, List.set_getElem_self]
  have hperm := reduceOption_set_none hset
  rwa [hback] at hperm

/-! ## Conservation -/

/-- The ledger is sound, and what is outstanding is in a slot or dropped. -/
structure Conserved (c : Custody β τ) : Prop where
  sound : Sound c.ledger
  balance : (outstanding c.ledger).Perm (c.tokens ++ c.lost)

theorem conserved_nil : Conserved ({} : Custody β τ) := ⟨Sound.nil, .nil⟩

theorem Conserved.step {c c' : Custody β τ} (h : Conserved c)
    (hstep : Step c c') : Conserved c' := by
  cases hstep with
  | add =>
      refine ⟨h.sound, ?_⟩
      simpa [tokens, List.reduceOption_append] using h.balance
  | @acquire i b t hslot hfresh =>
      refine ⟨h.sound.snoc hfresh, ?_⟩
      have htokens := reduceOption_set_some hslot (b, t)
      rw [outstanding_acquire]
      exact (h.balance.cons _).trans (htokens.symm.append_right c.lost)
  | @release i b t hslot =>
      have htokens := reduceOption_set_none hslot
      have hbalance : (outstanding c.ledger).Perm
          ((b, t) :: ((c.slots.set i none).reduceOption ++ c.lost)) :=
        h.balance.trans (htokens.append_right c.lost)
      have hmem : (b, t) ∈ outstanding c.ledger :=
        hbalance.mem_iff.mpr List.mem_cons_self
      refine ⟨h.sound.snoc hmem, ?_⟩
      have hnodup := h.sound.nodup_outstanding
      rw [(hbalance.map Prod.fst).nodup_iff, List.map_cons,
        List.nodup_cons] at hnodup
      -- the token leaves alone: no other entry names it
      have hrest : ((c.slots.set i none).reduceOption ++ c.lost).filter
          (·.1 ≠ b) = (c.slots.set i none).reduceOption ++ c.lost := by
        rw [List.filter_eq_self]
        intro x hx
        refine decide_eq_true ?_
        intro hxb
        exact hnodup.1 (List.mem_map.mpr ⟨x, hx, hxb⟩)
      rw [outstanding_release, tokens, ← hrest]
      simpa using hbalance.filter (·.1 ≠ b)
  | @move i j x hi hj =>
      refine ⟨h.sound, h.balance.trans (List.Perm.append_right c.lost ?_)⟩
      have hne : i ≠ j := by
        rintro rfl
        simp [hi] at hj
      have hset : (c.slots.set i (some x))[j]? = some (some x) := by
        rw [List.getElem?_set_ne hne, hj]
      have hout := reduceOption_set_none hset
      have hin := reduceOption_set_some hi x
      exact ((List.perm_cons x).mp (hout.symm.trans hin)).symm
  | @drop i x hslot =>
      refine ⟨h.sound, h.balance.trans ?_⟩
      have htokens := reduceOption_set_none hslot
      exact (htokens.append_right c.lost).trans List.perm_middle.symm

/-- Every run conserves the tokens. -/
theorem Conserved.run {c c' : Custody β τ} (h : Conserved c)
    (hrun : Relation.ReflTransGen Step c c') : Conserved c' := by
  induction hrun with
  | refl => exact h
  | tail _ hstep ih => exact ih.step hstep

/-- Nothing dropped comes back. -/
theorem lost_suffix_of_step {c c' : Custody β τ} (hstep : Step c c') :
    c.lost <:+ c'.lost := by
  cases hstep with
  | drop => exact List.suffix_cons _ _
  | _ => exact List.suffix_rfl

theorem lost_suffix_of_run {c c' : Custody β τ}
    (hrun : Relation.ReflTransGen Step c c') : c.lost <:+ c'.lost := by
  induction hrun with
  | refl => exact List.suffix_rfl
  | tail _ hstep ih => exact ih.trans (lost_suffix_of_step hstep)

/-! ## Steps on any slot -/

section AnySlot

variable {c : Custody β τ} {i j : ℕ} {slot : Option (β × τ)}

theorem set_getElem?_self {α : Type*} {xs : List α} {i : ℕ} {x : α}
    (h : xs[i]? = some x) : xs.set i x = xs := by
  obtain ⟨hi, rfl⟩ := List.getElem?_eq_some_iff.mp h
  exact List.set_getElem_self hi

theorem run_drop (h : c.slots[i]? = some slot) :
    Relation.ReflTransGen Step c
      ⟨c.slots.set i none, slot.toList ++ c.lost, c.ledger⟩ := by
  cases slot with
  | none =>
      rw [set_getElem?_self h]
      rfl
  | some x => exact Relation.ReflTransGen.single (Step.drop h)

theorem run_release (h : c.slots[i]? = some slot) :
    Relation.ReflTransGen Step c
      ⟨c.slots.set i none, c.lost,
        c.ledger ++ slot.toList.map fun x => .release x.1 x.2⟩ := by
  cases slot with
  | none =>
      rw [set_getElem?_self h, Option.toList_none, List.map_nil, List.append_nil]
  | some x => exact Relation.ReflTransGen.single (Step.release h)

theorem run_move (hi : c.slots[i]? = some none) (hj : c.slots[j]? = some slot) :
    Relation.ReflTransGen Step c
      { c with slots := (c.slots.set i slot).set j none } := by
  cases slot with
  | none =>
      rw [set_getElem?_self hi, set_getElem?_self hj]
  | some x => exact Relation.ReflTransGen.single (Step.move hi hj)

end AnySlot

/-! ## What conservation says -/

variable {c : Custody β τ}

theorem Conserved.nodup_tokens (h : Conserved c) :
    (c.tokens.map Prod.fst).Nodup := by
  have hnodup := h.sound.nodup_outstanding
  rw [(h.balance.map Prod.fst).nodup_iff, List.map_append] at hnodup
  exact hnodup.of_append_left

/-- No token is in two slots. -/
theorem Conserved.eq_of_slots (h : Conserved c) {i j : ℕ} {b : β} {t u : τ}
    (hi : c.slots[i]? = some (some (b, t)))
    (hj : c.slots[j]? = some (some (b, u))) : i = j := by
  by_contra hne
  have hset : (c.slots.set i none)[j]? = some (some (b, u)) := by
    rw [List.getElem?_set_ne hne, hj]
  have hnodup := h.nodup_tokens
  rw [tokens, ((reduceOption_set_none hi).map Prod.fst).nodup_iff,
    List.map_cons, List.nodup_cons] at hnodup
  have hmem : (b, u) ∈ (c.slots.set i none).reduceOption :=
    List.reduceOption_mem_iff.mpr (List.mem_of_getElem? hset)
  exact hnodup.1 (List.mem_map.mpr ⟨_, hmem, rfl⟩)

/-- Nothing is dropped exactly if every outstanding token is in a slot. -/
theorem Conserved.lost_eq_nil_iff (h : Conserved c) :
    c.lost = [] ↔
      ∀ x ∈ outstanding c.ledger, ∃ t, some (x.1, t) ∈ c.slots := by
  constructor
  · intro hlost x hx
    rw [h.balance.mem_iff, hlost, List.append_nil] at hx
    exact ⟨x.2, List.reduceOption_mem_iff.mp hx⟩
  · intro hheld
    by_contra hlost
    obtain ⟨x, hx⟩ := List.exists_mem_of_ne_nil c.lost hlost
    obtain ⟨t, hslot⟩ :=
      hheld x (h.balance.mem_iff.mpr (List.mem_append_right _ hx))
    have hmem : (x.1, t) ∈ c.tokens := List.reduceOption_mem_iff.mpr hslot
    have hnodup := h.sound.nodup_outstanding
    rw [(h.balance.map Prod.fst).nodup_iff, List.map_append] at hnodup
    exact List.disjoint_of_nodup_append hnodup
      (List.mem_map.mpr ⟨_, hmem, rfl⟩) (List.mem_map.mpr ⟨x, hx, rfl⟩)

/-- With the slots empty, what is outstanding is what was dropped. -/
theorem Conserved.outstanding_perm_lost (h : Conserved c)
    (hempty : ∀ slot ∈ c.slots, slot = none) :
    (outstanding c.ledger).Perm c.lost := by
  have htokens : c.tokens = [] := by
    rw [List.eq_nil_iff_forall_not_mem]
    intro x hx
    exact absurd (hempty _ (List.reduceOption_mem_iff.mp hx)) (by simp)
  simpa [htokens] using h.balance

end Custody
