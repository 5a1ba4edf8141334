import BenchBox.Harness.Language
import BenchBox.Harness.Run

/-!
# Runs over a numeric sweep

What a run of the harness does whose variable generates the runs of some values,
and which values these are for a numeric sweep: those of the specification that
the option string spells.
-/

namespace BenchBox

open Calls

section Harness

variable {Context σ ρ α : Type} {T : UnsignedIntegral}

/-- What a run of the harness does whose variable generates the runs of some
values: it benchmarks them in order and each as often as there are sub-runs.
Without values it benchmarks nothing and keeps the runs it had. -/
structure Harness.Benchmarks (h : Harness σ ρ) (n : ℕ)
    (createRun : α → HarnessRun σ ρ) (values : Option (List α))
    (world : World σ) (result : Harness σ ρ × World σ) : Prop where
  rejected : values = none → result.1 = h ∧ result.2.state = world.state ∧
    callsOf result.2.log = callsOf world.log ++ [.gen n]
  accepted : ∀ vs, values = some vs →
    let k := h.numSubRuns.toNat
    let outcomes := runCalls (vs.flatMap fun v =>
      List.replicate k (createRun v).runBench) world.state
    result.2.state = outcomes.2 ∧
      callsOf result.2.log = callsOf world.log ++ .gen n ::
        (List.range vs.length).flatMap (fun r => List.replicate k (.bench r)) ∧
      ∀ r : ℕ, result.1.runs[r]?.map (fun run =>
          (run.name, run.subRunResults)) =
        vs[r]?.map fun v => ((createRun v).name,
          (outcomes.1.drop (r * k)).take k)

theorem Harness.benchmarks_of_gen {h : Harness σ ρ}
    {before after : List (HarnessVariable Context σ ρ)}
    {v : HarnessVariable Context σ ρ} {context : Context} {world : World σ}
    (hbefore : ∀ x ∈ before, h.var ≠ x.name) (hv : h.var = v.name)
    {createRun : α → HarnessRun σ ρ} {values : Option (List α)}
    (hgen : v.gen h.optStr context world.state =
      (values.map (List.map createRun), world.state)) :
    h.Benchmarks before.length createRun values world
      (h.run (before ++ v :: after) context world) := by
  constructor
  · intro hnone
    rw [hnone] at hgen
    rw [Harness.run_of_none hbefore hv (congrArg Prod.fst hgen)]
    refine ⟨rfl, congrArg Prod.snd hgen, ?_⟩
    rw [callsOf_append, callsOf_append]
    exact List.append_nil _
  · intro vs hvs k outcomes
    rw [hvs] at hgen
    have hruns := congrArg Prod.fst hgen
    have hcalls : benchCalls k (vs.map createRun) =
        vs.flatMap fun v => List.replicate k (createRun v).runBench := by
      rw [benchCalls, List.flatMap_map]
    refine ⟨?_, ?_, ?_⟩
    · rw [Harness.run_of_some hbefore hv hruns, executeRuns_world]
      dsimp only
      rw [hcalls, hgen]
    · have hlog : callsOf (h.run (before ++ v :: after) context world).2.log =
          _ := Harness.callsOf_run_of_some hbefore hv hruns
      rw [List.length_map] at hlog
      exact hlog
    · intro r
      rw [Harness.run_of_some hbefore hv hruns]
      dsimp only
      rw [executeRuns_getElem?, List.getElem?_map, Option.map_map,
        Option.map_map]
      dsimp only
      rw [hcalls, hgen]
      rfl

/-- A variable whose generator is a numeric sweep. -/
def numericVariable (T : UnsignedIntegral) (name : StringView)
    (createRun : Context → T.Val → HarnessRun σ ρ)
    (defaultBegin defaultEnd : T.Val) : HarnessVariable Context σ ρ where
  name := name
  gen optStr context state :=
    ((makeNumericSweep T optStr context createRun defaultBegin
      defaultEnd).join, state)

/-- With an option string that spells a specification the sweep returns and the
harness benchmarks the values of the specification. -/
theorem Harness.run_spells (h : Harness σ ρ)
    {before after : List (HarnessVariable Context σ ρ)}
    (createRun : Context → T.Val → HarnessRun σ ρ)
    (defaultBegin defaultEnd : T.Val) (spec : SweepSpec T) (context : Context)
    (world : World σ) (hspells : SweepSpec.Spells h.optStr spec)
    (hbefore : ∀ x ∈ before, h.var ≠ x.name) :
    makeNumericSweep T h.optStr context createRun defaultBegin defaultEnd ≠
        none ∧
      h.Benchmarks before.length (createRun context)
        (spec.values defaultBegin defaultEnd) world
        (h.run (before ++
          numericVariable T h.var createRun defaultBegin defaultEnd :: after)
          context world) := by
  have hsweep := SweepSpec.makeNumericSweep_of_spells context createRun
    defaultBegin defaultEnd hspells
  refine ⟨hsweep ▸ Option.some_ne_none _,
    Harness.benchmarks_of_gen hbefore rfl ?_⟩
  rw [numericVariable]
  dsimp only
  rw [hsweep]
  rfl

/-- Benchmarks that add their value to the state, for `2-5:2`. -/
theorem Harness.run_spells_two_four :
    let createRun : Unit → uint64.Val → HarnessRun ℕ ℕ := fun _ v =>
      { name := decimal v, runBench := fun s => (some s, s + v.toNat) }
    let h : Harness ℕ ℕ :=
      { numSubRuns := 2, var := "size".toList, optStr := "2-5:2".toList }
    let result := h.run
      [numericVariable uint64 "size".toList createRun 0 9] () ⟨0, []⟩
    result.2.state = 12 ∧
      callsOf result.2.log = [.gen 0, .bench 0, .bench 0, .bench 1, .bench 1] := by
  intro createRun h result
  let spec : SweepSpec uint64 := .between (some 2) (some 5) (some 2)
  have hbenchmarks : h.Benchmarks 0 (createRun ()) (spec.values 0 9) ⟨0, []⟩
      result :=
    (@Harness.run_spells Unit ℕ ℕ uint64 h [] [] createRun 0 9 spec () ⟨0, []⟩
      (SweepSpec.spells_text spec) (List.forall_mem_nil _)).2
  obtain ⟨hstate, hcalls, -⟩ := hbenchmarks.accepted [2, 4] (by decide)
  exact ⟨hstate, hcalls⟩

end Harness

end BenchBox
