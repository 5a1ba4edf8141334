import Mathlib.Data.List.Induction
import Mathlib.Data.List.Nodup

/-!
# Ledgers

A ledger records, in order, which tokens are handed out and which are given
back, each with a tag.  It is sound if no token is handed out while it is
outstanding and every token given back is outstanding with the tag it was handed
out with.
-/

namespace Ledger

variable {β τ : Type*}

inductive Event (β τ : Type*) where
  | acquire (token : β) (tag : τ)
  | release (token : β) (tag : τ)
deriving DecidableEq, Repr

/-- The token an event is about. -/
def Event.token : Event β τ → β
  | .acquire b _ => b
  | .release b _ => b

variable [DecidableEq β]

/-- What is outstanding after one more event. -/
def post (held : List (β × τ)) : Event β τ → List (β × τ)
  | .acquire b t => (b, t) :: held
  | .release b _ => held.filter (·.1 ≠ b)

/-- The tokens handed out and not given back, with their tags. -/
def outstanding (ledger : List (Event β τ)) : List (β × τ) :=
  ledger.foldl post []

theorem outstanding_append (ledger more : List (Event β τ)) :
    outstanding (ledger ++ more) = more.foldl post (outstanding ledger) :=
  List.foldl_append

@[simp] theorem outstanding_acquire (ledger : List (Event β τ)) (b : β) (t : τ) :
    outstanding (ledger ++ [.acquire b t]) = (b, t) :: outstanding ledger :=
  outstanding_append ledger _

@[simp] theorem outstanding_release (ledger : List (Event β τ)) (b : β) (t : τ) :
    outstanding (ledger ++ [.release b t]) =
      (outstanding ledger).filter (·.1 ≠ b) :=
  outstanding_append ledger _

/-- Whether the ledger may continue with an event. -/
def Allows (held : List (β × τ)) : Event β τ → Prop
  | .acquire b _ => ∀ t, (b, t) ∉ held
  | .release b t => (b, t) ∈ held

/-- Every event was allowed when it was recorded. -/
inductive Sound : List (Event β τ) → Prop
  | nil : Sound []
  | snoc {ledger : List (Event β τ)} {e : Event β τ} :
      Sound ledger → Allows (outstanding ledger) e → Sound (ledger ++ [e])

theorem Sound.of_append {ledger more : List (Event β τ)}
    (h : Sound (ledger ++ more)) : Sound ledger := by
  induction more using List.reverseRecOn with
  | nil => simpa using h
  | append_singleton more e ih =>
      rw [← List.append_assoc] at h
      generalize hl : ledger ++ more ++ [e] = whole at h
      cases h with
      | nil => simp at hl
      | snoc hsound _ => exact ih ((List.append_inj' hl rfl).1 ▸ hsound)

theorem Sound.allows {ledger more : List (Event β τ)} {e : Event β τ}
    (h : Sound (ledger ++ e :: more)) : Allows (outstanding ledger) e := by
  rw [List.append_cons] at h
  generalize hl : ledger ++ [e] = whole at h
  cases h.of_append with
  | nil => simp at hl
  | snoc _ hallows =>
      obtain ⟨rfl, he⟩ := List.append_inj' hl rfl
      exact List.singleton_inj.mp he ▸ hallows

/-- No token is outstanding twice. -/
theorem Sound.nodup_outstanding {ledger : List (Event β τ)}
    (h : Sound ledger) : ((outstanding ledger).map Prod.fst).Nodup := by
  induction h with
  | nil => exact List.nodup_nil
  | @snoc ledger e _ hallows ih =>
      cases e with
      | acquire b t =>
          rw [outstanding_acquire, List.map_cons, List.nodup_cons]
          refine ⟨?_, ih⟩
          intro hmem
          obtain ⟨⟨c, u⟩, hc, rfl⟩ := List.mem_map.mp hmem
          exact hallows u hc
      | release b t =>
          rw [outstanding_release]
          exact ih.sublist (List.filter_sublist.map _)

/-- An outstanding token was handed out with its tag, and nothing happened to it
since. -/
theorem Sound.exists_acquire {ledger : List (Event β τ)} (h : Sound ledger)
    {b : β} {t : τ} (hmem : (b, t) ∈ outstanding ledger) :
    ∃ earlier later, ledger = earlier ++ .acquire b t :: later ∧
      ∀ e ∈ later, e.token ≠ b := by
  have hextend {ledger : List (Event β τ)} {e : Event β τ}
      (hne : e.token ≠ b)
      (ih : ∃ earlier later, ledger = earlier ++ .acquire b t :: later ∧
        ∀ e ∈ later, e.token ≠ b) :
      ∃ earlier later, ledger ++ [e] = earlier ++ .acquire b t :: later ∧
        ∀ e ∈ later, e.token ≠ b := by
    obtain ⟨earlier, later, rfl, hlater⟩ := ih
    refine ⟨earlier, later ++ [e], by simp, ?_⟩
    intro e' he'
    rcases List.mem_append.mp he' with he' | he'
    · exact hlater e' he'
    · rwa [List.mem_singleton.mp he']
  induction h with
  | nil => exact absurd hmem List.not_mem_nil
  | @snoc ledger e _ hallows ih =>
      cases e with
      | acquire c u =>
          rw [outstanding_acquire, List.mem_cons] at hmem
          rcases hmem with heq | hmem
          · obtain ⟨rfl, rfl⟩ := Prod.mk.inj heq
            exact ⟨ledger, [], rfl, by simp⟩
          · refine hextend ?_ (ih hmem)
            rintro rfl
            exact hallows t hmem
      | release c u =>
          rw [outstanding_release, List.mem_filter] at hmem
          refine hextend ?_ (ih hmem.1)
          rintro rfl
          simp [Event.token] at hmem

/-- What becomes outstanding was handed out. -/
theorem exists_acquire_of_not_mem {ledger more : List (Event β τ)} {b : β}
    (hbefore : ∀ t, (b, t) ∉ outstanding ledger) {t : τ}
    (hafter : (b, t) ∈ outstanding (ledger ++ more)) :
    .acquire b t ∈ more := by
  induction more using List.reverseRecOn with
  | nil =>
      rw [List.append_nil] at hafter
      exact absurd hafter (hbefore t)
  | append_singleton more e ih =>
      rw [← List.append_assoc] at hafter
      cases e with
      | acquire c u =>
          rw [outstanding_acquire, List.mem_cons] at hafter
          rcases hafter with heq | hafter
          · obtain ⟨rfl, rfl⟩ := Prod.mk.inj heq
            simp
          · exact List.mem_append_left _ (ih hafter)
      | release c u =>
          rw [outstanding_release, List.mem_filter] at hafter
          exact List.mem_append_left _ (ih hafter.1)

/-- A token given back is handed out again before it is given back again. -/
theorem Sound.exists_acquire_between {x y z : List (Event β τ)} {b : β}
    {t u : τ} (h : Sound (x ++ .release b t :: y ++ .release b u :: z)) :
    .acquire b u ∈ y := by
  have hmem : (b, u) ∈ outstanding (x ++ .release b t :: y) := h.allows
  rw [List.append_cons] at hmem
  refine exists_acquire_of_not_mem ?_ hmem
  simp

end Ledger
