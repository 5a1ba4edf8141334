import BenchBox.Harness.Run
import Mathlib.Algebra.Order.Ring.Nat
import Mathlib.Algebra.BigOperators.Group.List.Basic
import Mathlib.Tactic.Ring

/-!
# The announced time

`harness_t::run` announces a total before it runs the benchmarks.  The total
counts the wait once a run, and the loop waits after every sub-run; the product
of an estimate with the number of sub-runs is taken in 32 bits.  Both make the
total too small, never too large.
-/

namespace BenchBox

variable {Context σ ρ : Type}

/-- The totals announced. -/
def announcedTotals (log : List HarnessEvent) : List (BitVec 64) :=
  log.filterMap fun e =>
    match e with
    | .estimatedTotalTime seconds => some seconds
    | _ => none

/-- What an event takes in milliseconds: a benchmark its estimate, a wait its
length. -/
def eventMs (runs : List (HarnessRun σ ρ)) : HarnessEvent → ℕ
  | .bench r => (runs[r]?.map fun run => 1000 * run.estRuntimeS.toNat).getD 0
  | .sleep ms => ms.toNat
  | _ => 0

/-- What the events take together. -/
def scheduledMs (runs : List (HarnessRun σ ρ)) (log : List HarnessEvent) : ℕ :=
  (log.map (eventMs runs)).sum

/-! ## What is scheduled -/

section Scheduled

variable {waitTimeMs numSubRuns totalRuns : BitVec 32}
  {runs : List (HarnessRun σ ρ)}

theorem scheduledMs_append (log next : List HarnessEvent) :
    scheduledMs runs (log ++ next) =
      scheduledMs runs log + scheduledMs runs next := by
  rw [scheduledMs, List.map_append, List.sum_append]
  rfl

/-- The sub-runs of one run. -/
theorem scheduledMs_flatMap_range (r k : ℕ) (number : ℕ → BitVec 32) :
    scheduledMs runs ((List.range k).flatMap fun i =>
        subRunEvents waitTimeMs totalRuns r (number i)) =
      k * (eventMs runs (.bench r) + waitTimeMs.toNat) := by
  induction k with
  | zero => simp [scheduledMs]
  | succ k ih =>
      have hpass : scheduledMs runs
          (subRunEvents waitTimeMs totalRuns r (number k)) =
          eventMs runs (.bench r) + waitTimeMs.toNat := by
        simp [scheduledMs, subRunEvents, eventMs]
      rw [List.range_succ, List.flatMap_append, List.flatMap_singleton,
        scheduledMs_append, ih, hpass, Nat.add_mul, Nat.one_mul]

/-- The loop takes every estimate and every wait once for each sub-run. -/
theorem scheduledMs_runsEvents (before after : List (HarnessRun σ ρ))
    (subRun : BitVec 32) :
    scheduledMs (before ++ after)
        (runsEvents waitTimeMs numSubRuns totalRuns before.length after.length
          subRun) =
      numSubRuns.toNat *
        (1000 * (after.map fun run => run.estRuntimeS.toNat).sum +
          after.length * waitTimeMs.toNat) := by
  induction after generalizing before subRun with
  | nil => simp [runsEvents, scheduledMs]
  | cons run after ih =>
      have hbench : eventMs (before ++ run :: after) (.bench before.length) =
          1000 * run.estRuntimeS.toNat := by
        simp [eventMs]
      have hrest := ih (before ++ [run]) (subRun + numSubRuns)
      rw [List.append_assoc, List.singleton_append, List.length_append,
        List.length_singleton] at hrest
      rw [List.length_cons, runsEvents, scheduledMs_append,
        scheduledMs_flatMap_range, hbench, hrest, List.map_cons,
        List.sum_cons]
      ring

end Scheduled

/-! ## What is announced -/

theorem announcedTotals_append (log next : List HarnessEvent) :
    announcedTotals (log ++ next) =
      announcedTotals log ++ announcedTotals next :=
  List.filterMap_append

/-- The estimates of the runs. -/
def estimates (runs : List (HarnessRun σ ρ)) : List ℕ :=
  runs.map fun run => run.estRuntimeS.toNat

theorem toNat_waitTimeS (waitTimeMs : BitVec 32) (n : ℕ) :
    (waitTimeS waitTimeMs n).toNat =
      n * waitTimeMs.toNat % 2 ^ 64 / 1000 := by
  have hwait : (waitTimeMs.setWidth 64).toNat = waitTimeMs.toNat := by
    rw [BitVec.toNat_setWidth]
    exact Nat.mod_eq_of_lt (waitTimeMs.isLt.trans (by decide))
  have hthousand : (1000#64).toNat = 1000 := by decide
  rw [waitTimeS, BitVec.toNat_udiv, BitVec.toNat_mul, BitVec.toNat_ofNat,
    hwait, hthousand, Nat.mod_mul_mod]

/-- The loop adds the estimates times the sub-runs, each product modulo the
width of the estimate and the total modulo its own. -/
theorem toNat_foldl_add (numSubRuns : BitVec 32)
    (runs : List (HarnessRun σ ρ)) (totals : Totals) :
    (runs.foldl (Totals.add numSubRuns) totals).timeS.toNat =
      (totals.timeS.toNat +
        ((estimates runs).map fun e => e * numSubRuns.toNat % 2 ^ 32).sum) %
        2 ^ 64 := by
  induction runs generalizing totals with
  | nil =>
      rw [List.foldl_nil, estimates, List.map_nil, List.map_nil, List.sum_nil,
        Nat.add_zero, Nat.mod_eq_of_lt totals.timeS.isLt]
  | cons run runs ih =>
      have hproduct : ((run.estRuntimeS * numSubRuns).setWidth 64).toNat =
          run.estRuntimeS.toNat * numSubRuns.toNat % 2 ^ 32 := by
        rw [BitVec.toNat_setWidth, BitVec.toNat_mul]
        exact Nat.mod_eq_of_lt
          ((Nat.mod_lt _ (Nat.two_pow_pos 32)).trans (by decide))
      rw [estimates] at *
      rw [List.foldl_cons, ih, Totals.add, BitVec.toNat_add, hproduct,
        List.map_cons, List.map_cons, List.sum_cons, Nat.mod_add_mod,
        Nat.add_assoc]

theorem Harness.toNat_totals (h : Harness σ ρ)
    (runs : List (HarnessRun σ ρ)) :
    (h.totals runs).timeS.toNat =
      (runs.length * h.waitTimeMs.toNat % 2 ^ 64 / 1000 +
        ((estimates runs).map fun e => e * h.numSubRuns.toNat % 2 ^ 32).sum) %
        2 ^ 64 := by
  rw [Harness.totals, toNat_foldl_add, toNat_waitTimeS]

/-! ## When they agree -/

/-- The runs, waits and sub-runs for which nothing is lost: with one sub-run
everything fits, with more of them the waits come to less than a second. -/
def EstimateExact (n wait k : ℕ) (ests : List ℕ) : Prop :=
  (k = 0 ∧ n * wait % 2 ^ 64 < 1000) ∨
    (k = 1 ∧ n * wait < 2 ^ 64 ∧ n * wait / 1000 + ests.sum < 2 ^ 64) ∨
    (2 ≤ k ∧ k * (n * wait) < 1000 ∧ (∀ e ∈ ests, e * k < 2 ^ 32) ∧
      k * ests.sum < 2 ^ 64)

theorem sum_map_mul_mod_le (k m : ℕ) (ests : List ℕ) :
    (ests.map fun e => e * k % m).sum ≤ k * ests.sum := by
  induction ests with
  | nil => simp
  | cons e ests ih =>
      have he := Nat.mod_le (e * k) m
      rw [List.map_cons, List.sum_cons, List.sum_cons, Nat.mul_add,
        Nat.mul_comm k e]
      omega

/-- No product is lost exactly if none wraps around. -/
theorem sum_map_mul_mod_eq_iff (k : ℕ) {m : ℕ} (hm : 0 < m)
    (ests : List ℕ) :
    (ests.map fun e => e * k % m).sum = k * ests.sum ↔
      ∀ e ∈ ests, e * k < m := by
  induction ests with
  | nil => simp
  | cons e ests ih =>
      have he := Nat.mod_le (e * k) m
      have hle := sum_map_mul_mod_le k m ests
      have hfits : e * k % m = e * k ↔ e * k < m := Nat.mod_eq_iff_lt hm.ne'
      rw [List.forall_mem_cons, ← ih, ← hfits, List.map_cons, List.sum_cons,
        List.sum_cons, Nat.mul_add, Nat.mul_comm k e]
      omega

/-- Two parts that are at most what they stand for add up to it exactly if
neither is less and the sum fits. -/
theorem add_mod_eq_iff {a a' s s' : ℕ} (ha : a' ≤ a) (hs : s' ≤ s) :
    (a' + s') % 2 ^ 64 = s + a ↔ a' = a ∧ s' = s ∧ a + s < 2 ^ 64 := by
  have hmod := Nat.mod_le (a' + s') (2 ^ 64)
  have hlt := Nat.mod_lt (a' + s') (Nat.two_pow_pos 64)
  constructor
  · intro h
    omega
  · rintro ⟨rfl, rfl, hfits⟩
    rw [Nat.mod_eq_of_lt hfits, Nat.add_comm]

/-- The wait of one sub-run a run is exact if it fits, that of more of them only
if all of it is less than a second. -/
theorem wait_eq_iff {wait k : ℕ} (hk : 1 ≤ k) :
    wait % 2 ^ 64 / 1000 = k * wait / 1000 ↔
      (k = 1 ∧ wait < 2 ^ 64) ∨ (2 ≤ k ∧ k * wait < 1000) := by
  have hmod := Nat.mod_le wait (2 ^ 64)
  rcases Nat.eq_or_lt_of_le hk with rfl | hmany
  · rw [Nat.one_mul]
    omega
  · have htwice : 2 * wait ≤ k * wait := Nat.mul_le_mul_right wait hmany
    omega

/-- The two computations agree exactly where nothing is lost. -/
theorem estimate_eq_iff (n wait k : ℕ) {ests : List ℕ}
    (hests : ∀ e ∈ ests, e < 2 ^ 32) :
    (n * wait % 2 ^ 64 / 1000 + (ests.map fun e => e * k % 2 ^ 32).sum) %
        2 ^ 64 = k * (1000 * ests.sum + n * wait) / 1000 ↔
      EstimateExact n wait k ests := by
  have hscheduled : k * (1000 * ests.sum + n * wait) / 1000 =
      k * ests.sum + k * (n * wait) / 1000 := by
    rw [Nat.mul_add, Nat.mul_left_comm k 1000, Nat.mul_add_div (by decide)]
  have hsum := sum_map_mul_mod_le k (2 ^ 32) ests
  have hsumEq := sum_map_mul_mod_eq_iff k (Nat.two_pow_pos 32) ests
  rw [hscheduled]
  rcases Nat.eq_zero_or_pos k with rfl | hk
  · rw [Nat.zero_mul] at hsum
    unfold EstimateExact
    omega
  have hle : n * wait % 2 ^ 64 / 1000 ≤ k * (n * wait) / 1000 := by
    apply Nat.div_le_div_right
    exact (Nat.mod_le _ _).trans (Nat.le_mul_of_pos_left _ hk)
  rw [add_mod_eq_iff hle hsum, wait_eq_iff hk, hsumEq]
  constructor
  · rintro ⟨⟨rfl, hfits⟩ | ⟨hmany, hsecond⟩, hproducts, htotal⟩
    · rw [Nat.one_mul, Nat.one_mul] at htotal
      exact Or.inr (Or.inl ⟨rfl, hfits, htotal⟩)
    · exact Or.inr (Or.inr ⟨hmany, hsecond, hproducts, by omega⟩)
  · rintro (⟨rfl, -⟩ | ⟨rfl, hfits, htotal⟩ | ⟨hmany, hsecond, hproducts, htotal⟩)
    · omega
    · rw [Nat.one_mul, Nat.one_mul]
      refine ⟨Or.inl ⟨rfl, hfits⟩, ?_, htotal⟩
      intro e he
      rw [Nat.mul_one]
      exact hests e he
    · exact ⟨Or.inr ⟨hmany, hsecond⟩, hproducts, by omega⟩

section Harness

variable {h : Harness σ ρ} {context : Context} {state : σ}
  {before after : List (HarnessVariable Context σ ρ)}
  {v : HarnessVariable Context σ ρ} {runs : List (HarnessRun σ ρ)}

/-- A run announces one total. -/
theorem Harness.announcedTotals_run (hbefore : ∀ x ∈ before, h.var ≠ x.name)
    (hv : h.var = v.name)
    (hgen : (v.gen h.optStr context state).1 = some runs) :
    announcedTotals
        (h.run (before ++ v :: after) context ⟨state, []⟩).2.log =
      [(h.totals runs).timeS] := by
  have hlisted : announcedTotals (runs.map fun run => .runValue run.name) =
      [] := by
    rw [announcedTotals, List.filterMap_eq_nil_iff]
    simp
  have hexecuted : announcedTotals (runsEvents h.waitTimeMs h.numSubRuns
      (h.totals runs).runs 0 runs.length 0) = [] := by
    rw [announcedTotals, List.filterMap_eq_nil_iff]
    intro e he
    obtain ⟨r, number, hpass⟩ := mem_runsEvents he
    simp only [subRunEvents, List.mem_cons, List.not_mem_nil, or_false] at hpass
    rcases hpass with rfl | rfl | rfl <;> rfl
  have hgenerated : announcedTotals [.gen before.length] = [] := rfl
  have hannounced :
      announcedTotals [.estimatedTotalTime (h.totals runs).timeS] =
        [(h.totals runs).timeS] := rfl
  rw [Harness.run_of_some hbefore hv hgen]
  simp only [executeRuns_world, announcedTotals_append, hlisted, hexecuted,
    hgenerated, hannounced, List.nil_append, List.append_nil]

/-- What the loops of a run take. -/
theorem Harness.scheduledMs_run (hbefore : ∀ x ∈ before, h.var ≠ x.name)
    (hv : h.var = v.name)
    (hgen : (v.gen h.optStr context state).1 = some runs) :
    scheduledMs runs
        (h.run (before ++ v :: after) context ⟨state, []⟩).2.log =
      h.numSubRuns.toNat *
        (1000 * (estimates runs).sum + runs.length * h.waitTimeMs.toNat) := by
  have hlisted : scheduledMs runs (runs.map fun run => .runValue run.name) =
      0 := by
    rw [scheduledMs, List.map_map, List.sum_eq_zero]
    simp [eventMs]
  have hexecuted : scheduledMs ([] ++ runs) (runsEvents h.waitTimeMs
      h.numSubRuns (h.totals runs).runs 0 runs.length 0) = _ :=
    scheduledMs_runsEvents [] runs 0
  have hgenerated : scheduledMs runs [.gen before.length] = 0 := rfl
  have hannounced :
      scheduledMs runs [.estimatedTotalTime (h.totals runs).timeS] = 0 := rfl
  rw [Harness.run_of_some hbefore hv hgen]
  simp only [executeRuns_world, scheduledMs_append, List.nil_append, hlisted,
    hgenerated, hannounced, Nat.zero_add]
  exact hexecuted

/-- The total announced is the time of the loops, in whole seconds, exactly if
nothing is lost in it. -/
theorem Harness.estimate_iff (h : Harness σ ρ)
    (before after : List (HarnessVariable Context σ ρ))
    (v : HarnessVariable Context σ ρ) (context : Context) (state : σ)
    (runs : List (HarnessRun σ ρ)) (hbefore : ∀ x ∈ before, h.var ≠ x.name)
    (hv : h.var = v.name)
    (hgen : (v.gen h.optStr context state).1 = some runs) :
    let log := (h.run (before ++ v :: after) context ⟨state, []⟩).2.log
    (∃ seconds, announcedTotals log = [seconds] ∧
        seconds.toNat = scheduledMs runs log / 1000) ↔
      EstimateExact runs.length h.waitTimeMs.toNat h.numSubRuns.toNat
        (estimates runs) := by
  intro log
  have hannounced : announcedTotals log = [(h.totals runs).timeS] :=
    announcedTotals_run hbefore hv hgen
  have hscheduled : scheduledMs runs log = _ := scheduledMs_run hbefore hv hgen
  have hests : ∀ e ∈ estimates runs, e < 2 ^ 32 := by
    intro e he
    obtain ⟨run, -, rfl⟩ := List.mem_map.mp he
    exact run.estRuntimeS.isLt
  rw [hannounced, hscheduled, ← estimate_eq_iff _ _ _ hests,
    ← Harness.toNat_totals]
  constructor
  · rintro ⟨seconds, hseconds, heq⟩
    rw [List.singleton_inj] at hseconds
    rw [hseconds]
    exact heq
  · intro heq
    exact ⟨_, rfl, heq⟩

end Harness

/-- One sub-run of five seconds and a wait of two. -/
theorem Harness.estimate_iff_single :
    let run : HarnessRun Unit Unit :=
      { estRuntimeS := 5, runBench := fun s => (none, s) }
    let v : HarnessVariable Unit Unit Unit :=
      ⟨['a'], fun _ _ s => (some [run], s)⟩
    let h : Harness Unit Unit := { numSubRuns := 1, var := ['a'] }
    let log := (h.run [v] () ⟨(), []⟩).2.log
    ∃ seconds, announcedTotals log = [seconds] ∧
      seconds.toNat = scheduledMs [run] log / 1000 := by
  intro run v h log
  have hexact : EstimateExact 1 2000 1 [5] := by
    unfold EstimateExact
    decide
  exact (Harness.estimate_iff h [] [] v () () [run] (List.forall_mem_nil _) rfl
    rfl).mpr hexact

/-- With three sub-runs of one second the total announced is 5 seconds, and the
loops take 9. -/
theorem Harness.estimate_three_sub_runs :
    let run : HarnessRun Unit Unit :=
      { estRuntimeS := 1, runBench := fun s => (none, s) }
    let v : HarnessVariable Unit Unit Unit :=
      ⟨['a'], fun _ _ s => (some [run], s)⟩
    let h : Harness Unit Unit := { numSubRuns := 3, var := ['a'] }
    let log := (h.run [v] () ⟨(), []⟩).2.log
    announcedTotals log = [5] ∧ scheduledMs [run] log / 1000 = 9 := by
  decide

end BenchBox
