import BenchBox.Parse
import BenchBox.Support.Calls

/-!
# Running the harness

`harness_t::run` up to the table of results.  The generators and the benchmarks
are arbitrary functions on a state, and the log lists what is called, printed and
waited for, in order.
-/

namespace BenchBox

open Calls

/-- `harness_run`, with benchmarks that return an optional result and change a
state. -/
structure HarnessRun (σ ρ : Type) where
  name : StringView := []
  estRuntimeS : BitVec 32 := 0
  runBench : σ → Option ρ × σ
  subRunResults : List (Option ρ) := []

/-- A type that satisfies `HarnessVariable`. -/
structure HarnessVariable (Context σ ρ : Type) where
  name : StringView
  gen : StringView → Context → σ → Option (List (HarnessRun σ ρ)) × σ

/-- What a run of the harness does: it calls the generator of a variable by its
position and the benchmark of a run by its position, it waits, and it prints. -/
inductive HarnessEvent where
  | gen (position : ℕ)
  | unknownVar (var : StringView)
  | couldntGenerateRuns (var optStr : StringView)
  | runValue (name : StringView)
  | estimatedTotalTime (seconds : BitVec 64)
  | subRun (number total : BitVec 32)
  | bench (run : ℕ)
  | sleep (ms : BitVec 32)
deriving DecidableEq

/-- The state of the functions called, and the log. -/
structure World (σ : Type) where
  state : σ
  log : List HarnessEvent := []

namespace World

variable {σ α : Type}

def emit (world : World σ) (e : HarnessEvent) : World σ :=
  { world with log := world.log ++ [e] }

def call (world : World σ) (e : HarnessEvent) (f : σ → α × σ) : α × World σ :=
  ((f world.state).1, ⟨(f world.state).2, world.log ++ [e]⟩)

@[simp] theorem state_emit (world : World σ) (e : HarnessEvent) :
    (world.emit e).state = world.state := rfl

@[simp] theorem log_emit (world : World σ) (e : HarnessEvent) :
    (world.emit e).log = world.log ++ [e] := rfl

end World

/-- `std::vector::resize`. -/
def resize {α : Type} (xs : List (Option α)) (n : ℕ) : List (Option α) :=
  xs.take n ++ List.replicate (n - xs.length) none

@[simp] theorem length_resize {α : Type} (xs : List (Option α)) (n : ℕ) :
    (resize xs n).length = n := by
  simp [resize]
  omega

/-- `harness_t`. -/
structure Harness (σ ρ : Type) where
  waitTimeMs : BitVec 32 := 2000
  numSubRuns : BitVec 32 := 3
  runs : List (HarnessRun σ ρ) := []
  var : StringView := "none".toList
  optStr : StringView := []

variable {Context σ ρ : Type}

/-- The fold over the variables from position `i` on: whether one matched, and
what its generator returned. -/
def selectVariable (var optStr : StringView) (context : Context) :
    ℕ → List (HarnessVariable Context σ ρ) → World σ →
      (Bool × Option (List (HarnessRun σ ρ))) × World σ
  | _, [], world => ((false, none), world)
  | i, v :: vs, world =>
      if var = v.name then
        let generated := world.call (.gen i) (v.gen optStr context)
        ((true, generated.1), generated.2)
      else
        selectVariable var optStr context (i + 1) vs world

/-- `total_time_s` and `total_runs`. -/
structure Totals where
  timeS : BitVec 64
  runs : BitVec 32
deriving DecidableEq

/-- `total_time_s` before the runs are listed. -/
def waitTimeS (waitTimeMs : BitVec 32) (n : ℕ) : BitVec 64 :=
  BitVec.ofNat 64 n * waitTimeMs.setWidth 64 / 1000#64

/-- What a run adds to the totals. -/
def Totals.add (numSubRuns : BitVec 32) (totals : Totals)
    (run : HarnessRun σ ρ) : Totals :=
  ⟨totals.timeS + (run.estRuntimeS * numSubRuns).setWidth 64,
    totals.runs + numSubRuns⟩

/-- The loop that lists the runs and adds them up. -/
def listRuns (numSubRuns : BitVec 32) :
    List (HarnessRun σ ρ) → Totals → World σ → Totals × World σ
  | [], totals, world => (totals, world)
  | run :: runs, totals, world =>
      listRuns numSubRuns runs (totals.add numSubRuns run)
        (world.emit (.runValue run.name))

/-- The variables of the loop over the sub-runs of a run. -/
structure Turn (σ ρ : Type) where
  run : HarnessRun σ ρ
  subRun : BitVec 32
  world : World σ

/-- Sub-run `i` of run `r`. -/
def executeSubRun (waitTimeMs totalRuns : BitVec 32) (r : ℕ) (t : Turn σ ρ)
    (i : ℕ) : Turn σ ρ :=
  let world := t.world.emit (.subRun (t.subRun + 1) totalRuns)
  let outcome := world.call (.bench r) t.run.runBench
  { run :=
      { t.run with
        subRunResults := t.run.subRunResults.set i outcome.1 }
    subRun := t.subRun + 1
    world := outcome.2.emit (.sleep waitTimeMs) }

/-- The sub-runs of run `r`. -/
def executeRun (waitTimeMs numSubRuns totalRuns : BitVec 32) (r : ℕ)
    (run : HarnessRun σ ρ) (subRun : BitVec 32) (world : World σ) : Turn σ ρ :=
  (List.range numSubRuns.toNat).foldl (executeSubRun waitTimeMs totalRuns r)
    ⟨{ run with subRunResults := resize run.subRunResults numSubRuns.toNat },
      subRun, world⟩

/-- The runs from position `r` on. -/
def executeRuns (waitTimeMs numSubRuns totalRuns : BitVec 32) :
    ℕ → List (HarnessRun σ ρ) → BitVec 32 → World σ →
      List (HarnessRun σ ρ) × World σ
  | _, [], _, world => ([], world)
  | r, run :: runs, subRun, world =>
      let turn :=
        executeRun waitTimeMs numSubRuns totalRuns r run subRun world
      let rest := executeRuns waitTimeMs numSubRuns totalRuns (r + 1) runs
        turn.subRun turn.world
      (turn.run :: rest.1, rest.2)

/-- `harness_t::run`. -/
def Harness.run (h : Harness σ ρ)
    (vs : List (HarnessVariable Context σ ρ)) (context : Context)
    (world : World σ) : Harness σ ρ × World σ :=
  let selected := selectVariable h.var h.optStr context 0 vs world
  if selected.1.1 = false then
    (h, selected.2.emit (.unknownVar h.var))
  else
    match selected.1.2 with
    | none => (h, selected.2.emit (.couldntGenerateRuns h.var h.optStr))
    | some runs =>
        let listed := listRuns h.numSubRuns runs
          ⟨waitTimeS h.waitTimeMs runs.length, 0⟩ selected.2
        let executed := executeRuns h.waitTimeMs h.numSubRuns listed.1.runs 0
          runs 0 (listed.2.emit (.estimatedTotalTime listed.1.timeS))
        ({ h with runs := executed.1 }, executed.2)

/-! ## Selection -/

section Selection

variable {var optStr : StringView} {context : Context}

theorem selectVariable_of_forall_ne {vs : List (HarnessVariable Context σ ρ)}
    (h : ∀ v ∈ vs, var ≠ v.name) (i : ℕ) (world : World σ) :
    selectVariable var optStr context i vs world = ((false, none), world) := by
  induction vs generalizing i with
  | nil => rfl
  | cons v vs ih =>
      rw [List.forall_mem_cons] at h
      rw [selectVariable, if_neg h.1]
      exact ih h.2 (i + 1)

/-- The fold stops at the first variable of the name. -/
theorem selectVariable_append_cons
    {before after : List (HarnessVariable Context σ ρ)}
    {v : HarnessVariable Context σ ρ} (hbefore : ∀ x ∈ before, var ≠ x.name)
    (hv : var = v.name) (i : ℕ) (world : World σ) :
    selectVariable var optStr context i (before ++ v :: after) world =
      ((true, (v.gen optStr context world.state).1),
        ⟨(v.gen optStr context world.state).2,
          world.log ++ [.gen (i + before.length)]⟩) := by
  induction before generalizing i with
  | nil =>
      rw [List.nil_append, selectVariable, if_pos hv]
      rfl
  | cons x before ih =>
      rw [List.forall_mem_cons] at hbefore
      rw [List.cons_append, selectVariable, if_neg hbefore.1, ih hbefore.2,
        List.length_cons, Nat.add_right_comm, Nat.add_assoc i]

end Selection

/-! ## Listing -/

theorem listRuns_eq (numSubRuns : BitVec 32) (runs : List (HarnessRun σ ρ))
    (totals : Totals) (world : World σ) :
    listRuns numSubRuns runs totals world =
      (runs.foldl (Totals.add numSubRuns) totals,
        ⟨world.state,
          world.log ++ runs.map fun run => .runValue run.name⟩) := by
  induction runs generalizing totals world with
  | nil => simp [listRuns]
  | cons run runs ih =>
      rw [listRuns, ih, List.foldl_cons, List.map_cons, World.log_emit,
        World.state_emit, List.append_assoc]
      rfl

/-! ## Execution -/

section Execution

variable {waitTimeMs numSubRuns totalRuns : BitVec 32}

/-- The events of a sub-run of run `r`. -/
def subRunEvents (waitTimeMs totalRuns : BitVec 32) (r : ℕ)
    (number : BitVec 32) : List HarnessEvent :=
  [.subRun (number + 1) totalRuns, .bench r, .sleep waitTimeMs]

/-- What a sub-run does. -/
theorem executeSubRun_eq (r : ℕ) (t : Turn σ ρ) (i : ℕ) :
    executeSubRun waitTimeMs totalRuns r t i =
      { run :=
          { t.run with
            subRunResults :=
              t.run.subRunResults.set i (t.run.runBench t.world.state).1 }
        subRun := t.subRun + 1
        world :=
          ⟨(t.run.runBench t.world.state).2,
            t.world.log ++ subRunEvents waitTimeMs totalRuns r t.subRun⟩ } := by
  have hlog : t.world.log ++ subRunEvents waitTimeMs totalRuns r t.subRun =
      t.world.log ++ [.subRun (t.subRun + 1) totalRuns] ++ [.bench r] ++
        [.sleep waitTimeMs] := by
    simp [subRunEvents]
  rw [hlog]
  rfl

/-- After `j` passes the first `j` slots hold the outcomes of `j` calls. -/
theorem foldl_executeSubRun (r j : ℕ) (t : Turn σ ρ)
    (hj : j ≤ t.run.subRunResults.length) :
    let outcomes := runCalls (List.replicate j t.run.runBench) t.world.state
    (List.range j).foldl (executeSubRun waitTimeMs totalRuns r) t =
      { run :=
          { t.run with
            subRunResults := outcomes.1 ++ t.run.subRunResults.drop j }
        subRun := t.subRun + BitVec.ofNat 32 j
        world :=
          ⟨outcomes.2, t.world.log ++ (List.range j).flatMap fun i =>
            subRunEvents waitTimeMs totalRuns r
              (t.subRun + BitVec.ofNat 32 i)⟩ } := by
  induction j with
  | zero => simp
  | succ j ih =>
      have hlength : (runCalls (List.replicate j t.run.runBench)
          t.world.state).1.length = j := by
        rw [length_runCalls, List.length_replicate]
      have hnumber : t.subRun + BitVec.ofNat 32 j + 1 =
          t.subRun + BitVec.ofNat 32 (j + 1) := by
        rw [BitVec.add_assoc, BitVec.ofNat_add]
        rfl
      intro outcomes
      rw [List.range_succ, List.foldl_append, ih (by omega), List.foldl_cons,
        List.foldl_nil, executeSubRun_eq, List.flatMap_append,
        List.flatMap_singleton, ← List.append_assoc]
      simp only [outcomes, runCalls_replicate_succ, hnumber,
        append_drop_set _ _ _ hlength hj]

/-- A run fills its slots with the outcomes of its calls, whatever was in
them. -/
theorem executeRun_eq (r : ℕ) (run : HarnessRun σ ρ) (subRun : BitVec 32)
    (world : World σ) :
    let outcomes :=
      runCalls (List.replicate numSubRuns.toNat run.runBench) world.state
    executeRun waitTimeMs numSubRuns totalRuns r run subRun world =
      { run := { run with subRunResults := outcomes.1 }
        subRun := subRun + numSubRuns
        world :=
          ⟨outcomes.2, world.log ++
            (List.range numSubRuns.toNat).flatMap fun i =>
              subRunEvents waitTimeMs totalRuns r
                (subRun + BitVec.ofNat 32 i)⟩ } := by
  intro outcomes
  have hslots := length_resize run.subRunResults numSubRuns.toNat
  rw [executeRun, foldl_executeSubRun _ _ _ hslots.ge]
  simp only [outcomes, List.drop_of_length_le hslots.le, List.append_nil,
    BitVec.ofNat_toNat, BitVec.setWidth_eq]

/-- The calls of the benchmarks, run after run. -/
def benchCalls (k : ℕ) (runs : List (HarnessRun σ ρ)) :
    List (σ → Option ρ × σ) :=
  runs.flatMap fun run => List.replicate k run.runBench

theorem benchCalls_cons (k : ℕ) (run : HarnessRun σ ρ)
    (runs : List (HarnessRun σ ρ)) :
    benchCalls k (run :: runs) =
      List.replicate k run.runBench ++ benchCalls k runs :=
  List.flatMap_cons

theorem length_benchCalls (k : ℕ) (runs : List (HarnessRun σ ρ)) :
    (benchCalls k runs).length = runs.length * k := by
  induction runs with
  | nil => simp [benchCalls]
  | cons run runs ih =>
      rw [benchCalls_cons, List.length_append, ih, List.length_replicate,
        List.length_cons, Nat.add_mul, Nat.one_mul, Nat.add_comm]

/-- The events of `n` runs from position `r` on. -/
def runsEvents (waitTimeMs numSubRuns totalRuns : BitVec 32) :
    ℕ → ℕ → BitVec 32 → List HarnessEvent
  | _, 0, _ => []
  | r, n + 1, subRun =>
      ((List.range numSubRuns.toNat).flatMap fun i =>
        subRunEvents waitTimeMs totalRuns r (subRun + BitVec.ofNat 32 i)) ++
      runsEvents waitTimeMs numSubRuns totalRuns (r + 1) n
        (subRun + numSubRuns)

/-- Every event of the loops is one of some sub-run. -/
theorem mem_runsEvents {r n : ℕ} {subRun : BitVec 32} {e : HarnessEvent}
    (he : e ∈ runsEvents waitTimeMs numSubRuns totalRuns r n subRun) :
    ∃ j number, e ∈ subRunEvents waitTimeMs totalRuns j number := by
  induction n generalizing r subRun with
  | zero => exact absurd he List.not_mem_nil
  | succ n ih =>
      rw [runsEvents, List.mem_append, List.mem_flatMap] at he
      rcases he with ⟨i, -, hpass⟩ | hrest
      · exact ⟨r, _, hpass⟩
      · exact ih hrest

/-- The runs thread the state through all the calls in order. -/
theorem executeRuns_world (r : ℕ) (runs : List (HarnessRun σ ρ))
    (subRun : BitVec 32) (world : World σ) :
    (executeRuns waitTimeMs numSubRuns totalRuns r runs subRun world).2 =
      ⟨(runCalls (benchCalls numSubRuns.toNat runs) world.state).2,
        world.log ++
          runsEvents waitTimeMs numSubRuns totalRuns r runs.length subRun⟩ := by
  induction runs generalizing r subRun world with
  | nil => simp [executeRuns, benchCalls, runsEvents]
  | cons run runs ih =>
      rw [executeRuns, ih, executeRun_eq, List.length_cons, runsEvents,
        ← List.append_assoc, benchCalls_cons, runCalls_append]

/-- Each run gets its share of the outcomes of all the calls. -/
theorem executeRuns_getElem? (r j : ℕ) (runs : List (HarnessRun σ ρ))
    (subRun : BitVec 32) (world : World σ) :
    let outcomes :=
      (runCalls (benchCalls numSubRuns.toNat runs) world.state).1
    (executeRuns waitTimeMs numSubRuns totalRuns r runs subRun world).1[j]? =
      runs[j]?.map fun run =>
        { run with
          subRunResults :=
            (outcomes.drop (j * numSubRuns.toNat)).take numSubRuns.toNat } := by
  induction runs generalizing r j subRun world with
  | nil => simp [executeRuns]
  | cons run runs ih =>
      have hfirst : (runCalls (List.replicate numSubRuns.toNat run.runBench)
          world.state).1.length = numSubRuns.toNat := by
        rw [length_runCalls, List.length_replicate]
      intro outcomes
      rw [executeRuns, executeRun_eq]
      simp only [outcomes, benchCalls_cons, runCalls_append]
      cases j with
      | zero => simp [hfirst]
      | succ j =>
          rw [List.getElem?_cons_succ, List.getElem?_cons_succ, ih,
            Nat.add_mul, Nat.one_mul, Nat.add_comm, ← List.drop_drop,
            List.drop_left' hfirst]

/-- The slots of a run hold its outcomes in order. -/
theorem executeRuns_slots {r j : ℕ} {runs : List (HarnessRun σ ρ)}
    {subRun : BitVec 32} {world : World σ} {run : HarnessRun σ ρ}
    (hrun : (executeRuns waitTimeMs numSubRuns totalRuns r runs subRun
      world).1[j]? = some run) :
    let k := numSubRuns.toNat
    let outcomes := (runCalls (benchCalls k runs) world.state).1
    run.subRunResults.length = k ∧
      ∀ i < k, run.subRunResults[i]? = outcomes[j * k + i]? := by
  intro k outcomes
  rw [executeRuns_getElem?] at hrun
  obtain ⟨old, hold, rfl⟩ := Option.map_eq_some_iff.mp hrun
  obtain ⟨hj, -⟩ := List.getElem?_eq_some_iff.mp hold
  have hlength : outcomes.length = runs.length * k := by
    rw [length_runCalls, length_benchCalls]
  have hfits : (j + 1) * k ≤ outcomes.length := by
    rw [hlength]
    exact Nat.mul_le_mul_right k hj
  rw [Nat.add_mul, Nat.one_mul] at hfits
  constructor
  · simp only [List.length_take, List.length_drop]
    change min k (outcomes.length - j * k) = k
    omega
  · intro i hi
    rw [List.getElem?_take_of_lt hi, List.getElem?_drop]

end Execution

/-! ## Runs of the harness -/

/-- A call of a generator or a benchmark. -/
def HarnessEvent.isCall : HarnessEvent → Bool
  | .gen _ => true
  | .bench _ => true
  | _ => false

/-- The generators and benchmarks called, in order. -/
def callsOf (log : List HarnessEvent) : List HarnessEvent :=
  log.filter HarnessEvent.isCall

@[simp] theorem callsOf_append (log next : List HarnessEvent) :
    callsOf (log ++ next) = callsOf log ++ callsOf next :=
  List.filter_append ..

theorem callsOf_flatMap {α : Type} (xs : List α) (f : α → List HarnessEvent) :
    callsOf (xs.flatMap f) = xs.flatMap fun x => callsOf (f x) :=
  List.filter_flatMap

/-- The benchmarks are called as often as there are sub-runs, run after run. -/
theorem callsOf_runsEvents (waitTimeMs numSubRuns totalRuns : BitVec 32)
    (r n : ℕ) (subRun : BitVec 32) :
    callsOf (runsEvents waitTimeMs numSubRuns totalRuns r n subRun) =
      (List.range' r n).flatMap fun j =>
        List.replicate numSubRuns.toNat (.bench j) := by
  induction n generalizing r subRun with
  | zero => rfl
  | succ n ih =>
      have hpass : ∀ number, callsOf
          (subRunEvents waitTimeMs totalRuns r number) = [.bench r] :=
        fun number => rfl
      have hrun : callsOf ((List.range numSubRuns.toNat).flatMap fun i =>
          subRunEvents waitTimeMs totalRuns r (subRun + BitVec.ofNat 32 i)) =
          List.replicate numSubRuns.toNat (.bench r) := by
        simp only [callsOf_flatMap, hpass]
        rw [← List.map_eq_flatMap, List.map_const', List.length_range]
      rw [runsEvents, callsOf_append, hrun, ih, List.range'_succ,
        List.flatMap_cons]

section Harness

variable {h : Harness σ ρ} {context : Context} {world : World σ}
  {before after : List (HarnessVariable Context σ ρ)}
  {v : HarnessVariable Context σ ρ}

theorem Harness.run_of_forall_ne {vs : List (HarnessVariable Context σ ρ)}
    (hvs : ∀ v ∈ vs, h.var ≠ v.name) :
    h.run vs context world = (h, world.emit (.unknownVar h.var)) := by
  rw [Harness.run, selectVariable_of_forall_ne hvs]
  rfl

theorem Harness.run_of_none (hbefore : ∀ x ∈ before, h.var ≠ x.name)
    (hv : h.var = v.name)
    (hgen : (v.gen h.optStr context world.state).1 = none) :
    h.run (before ++ v :: after) context world =
      (h, ⟨(v.gen h.optStr context world.state).2,
        world.log ++ [.gen before.length] ++
          [.couldntGenerateRuns h.var h.optStr]⟩) := by
  rw [Harness.run, selectVariable_append_cons hbefore hv, hgen, Nat.zero_add]
  rfl

/-- `total_time_s` and `total_runs` after the runs are listed. -/
def Harness.totals (h : Harness σ ρ) (runs : List (HarnessRun σ ρ)) : Totals :=
  runs.foldl (Totals.add h.numSubRuns)
    ⟨waitTimeS h.waitTimeMs runs.length, 0⟩

theorem Harness.run_of_some (hbefore : ∀ x ∈ before, h.var ≠ x.name)
    (hv : h.var = v.name) {runs : List (HarnessRun σ ρ)}
    (hgen : (v.gen h.optStr context world.state).1 = some runs) :
    h.run (before ++ v :: after) context world =
      let listed : World σ :=
        ⟨(v.gen h.optStr context world.state).2,
          world.log ++ [.gen before.length] ++
            (runs.map fun run => .runValue run.name) ++
            [.estimatedTotalTime (h.totals runs).timeS]⟩
      let executed := executeRuns h.waitTimeMs h.numSubRuns
        (h.totals runs).runs 0 runs 0 listed
      ({ h with runs := executed.1 }, executed.2) := by
  rw [Harness.run, selectVariable_append_cons hbefore hv, hgen, Nat.zero_add]
  simp only [Bool.true_eq_false, if_false, listRuns_eq]
  rfl

/-- The calls of a run whose variable generated: its generator, and then every
benchmark as often as there are sub-runs. -/
theorem Harness.callsOf_run_of_some (hbefore : ∀ x ∈ before, h.var ≠ x.name)
    (hv : h.var = v.name) {runs : List (HarnessRun σ ρ)}
    (hgen : (v.gen h.optStr context world.state).1 = some runs) :
    callsOf (h.run (before ++ v :: after) context world).2.log =
      callsOf world.log ++ .gen before.length ::
        (List.range runs.length).flatMap fun r =>
          List.replicate h.numSubRuns.toNat (.bench r) := by
  have hlisted : callsOf (runs.map fun run => .runValue run.name) = [] := by
    rw [callsOf, List.filter_eq_nil_iff]
    simp [HarnessEvent.isCall]
  have hannounced : ∀ seconds,
      callsOf [.estimatedTotalTime seconds] = [] := fun seconds => rfl
  have hgenerated : callsOf [.gen before.length] = [.gen before.length] := rfl
  rw [Harness.run_of_some hbefore hv hgen]
  simp only [executeRuns_world, callsOf_append, callsOf_runsEvents, hlisted,
    hannounced, hgenerated, List.append_nil, List.range_eq_range']
  rw [List.append_assoc, List.singleton_append]

end Harness

/-- The harness either stops with an error, having run no benchmark and with its
runs as they were, or it runs every benchmark the same number of times, in
order, and puts the outcomes where they belong. -/
theorem Harness.run_spec (h : Harness σ ρ)
    (vs : List (HarnessVariable Context σ ρ)) (context : Context)
    (world : World σ) :
    let result := h.run vs context world
    let k := h.numSubRuns.toNat
    ((∀ v ∈ vs, h.var ≠ v.name) →
      result.1 = h ∧ result.2.state = world.state ∧
        callsOf result.2.log = callsOf world.log) ∧
    (∀ before v after, vs = before ++ v :: after →
      (∀ x ∈ before, h.var ≠ x.name) → h.var = v.name →
      let generated := v.gen h.optStr context world.state
      (generated.1 = none →
        result.1 = h ∧ result.2.state = generated.2 ∧
          callsOf result.2.log = callsOf world.log ++ [.gen before.length]) ∧
      (∀ runs, generated.1 = some runs →
        let outcomes := runCalls (benchCalls k runs) generated.2
        outcomes.1.length = runs.length * k ∧
          result.2.state = outcomes.2 ∧
          callsOf result.2.log =
            callsOf world.log ++ .gen before.length ::
              (List.range runs.length).flatMap (fun r =>
                List.replicate k (.bench r)) ∧
          ∀ r, result.1.runs[r]?.map (fun run => (run.name, run.estRuntimeS)) =
              runs[r]?.map (fun run => (run.name, run.estRuntimeS)) ∧
            ∀ run, result.1.runs[r]? = some run →
              run.subRunResults.length = k ∧
                ∀ i < k, run.subRunResults[i]? = outcomes.1[r * k + i]?)) := by
  intro result k
  refine ⟨?_, ?_⟩
  · intro hvs
    have hresult : result = (h, world.emit (.unknownVar h.var)) :=
      Harness.run_of_forall_ne hvs
    rw [hresult, World.log_emit, World.state_emit, callsOf_append]
    exact ⟨rfl, rfl, List.append_nil _⟩
  · rintro before v after rfl hbefore hv generated
    refine ⟨?_, ?_⟩
    · intro hgen
      have hresult : result = _ := Harness.run_of_none hbefore hv hgen
      rw [hresult]
      refine ⟨rfl, rfl, ?_⟩
      rw [callsOf_append, callsOf_append]
      exact List.append_nil _
    · intro runs hgen outcomes
      have hlength : outcomes.1.length = runs.length * k := by
        rw [length_runCalls, length_benchCalls]
      have hresult : result = _ := Harness.run_of_some hbefore hv hgen
      refine ⟨hlength, ?_, Harness.callsOf_run_of_some hbefore hv hgen, ?_⟩
      · rw [hresult, executeRuns_world]
      · intro r
        rw [hresult]
        refine ⟨?_, ?_⟩
        · simp only [executeRuns_getElem?, Option.map_map]
          rfl
        · intro run hrun
          exact executeRuns_slots hrun

/-- Two variables of one name, and benchmarks that count how often they ran. -/
theorem Harness.run_spec_counting :
    let run : HarnessRun ℕ ℕ :=
      { runBench := fun s => (some s, s + 1), subRunResults := [none, some 7] }
    let vs : List (HarnessVariable Unit ℕ ℕ) :=
      [⟨['b'], fun _ _ s => (none, s)⟩, ⟨['a'], fun _ _ s => (some [run, run], s)⟩,
        ⟨['a'], fun _ _ s => (none, s + 100)⟩]
    let h : Harness ℕ ℕ := { numSubRuns := 3, var := ['a'] }
    (h.run vs () ⟨0, []⟩).2.state = 6 ∧
      callsOf (h.run vs () ⟨0, []⟩).2.log =
        [.gen 1, .bench 0, .bench 0, .bench 0, .bench 1, .bench 1, .bench 1] := by
  intro run vs h
  obtain ⟨-, hmatched⟩ := Harness.run_spec h vs () ⟨0, []⟩
  have hbefore : ∀ x ∈ [vs[0]], h.var ≠ x.name :=
    List.forall_mem_singleton.mpr (by decide)
  obtain ⟨-, hruns⟩ :=
    hmatched [vs[0]] vs[1] [vs[2]] rfl hbefore rfl
  obtain ⟨-, hstate, hcalls, -⟩ := hruns [run, run] rfl
  exact ⟨hstate, hcalls⟩

end BenchBox
