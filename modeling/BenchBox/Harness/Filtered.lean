import BenchBox.Harness.Benchmarks

/-!
# Sweeps over valid values

A filtered sweep runs valid values only, whatever the option string: those of a
range in the order of the array, or those that the string lists.  So a harness
never benchmarks a value that its variable does not list as valid.
-/

namespace BenchBox

open Calls PartialLoop

/-! ## The values of a sweep -/

/-- What an option string selects from an array of valid values: a range of the
array, or what the tokens of the string are read as, all of it valid.  It is
rejected only if a token is read as no valid value. -/
structure Selects {α : Type} (IsRange : List α → Prop) (validValues : List α)
    (readToken : StringView → Option α) (optStr : StringView)
    (values : Option (List α)) : Prop where
  valid : ∀ vs, values = some vs → ∀ v ∈ vs, v ∈ validValues
  ordered : ∀ vs, values = some vs → IsRange vs ∨
    List.Forall₂ (fun sv v => readToken sv = some v) (optStr.splitOn ',') vs
  rejected : values = none →
    ∃ sv ∈ optStr.splitOn ',', ∀ v ∈ validValues, readToken sv ≠ some v

theorem selects_of_range {α : Type} {IsRange : List α → Prop}
    {validValues values : List α} (hrange : IsRange values)
    (hvalid : ∀ v ∈ values, v ∈ validValues)
    (readToken : StringView → Option α) (optStr : StringView) :
    Selects IsRange validValues readToken optStr (some values) := by
  constructor
  · rintro _ ⟨⟩
    exact hvalid
  · rintro _ ⟨⟩
    exact .inl hrange
  · rintro ⟨⟩

/-- A sweep over an array whose ranges are valid and whose tokens are found in
it. -/
theorem exists_selects_of_sweep {α : Type} (IsRange : List α → Prop)
    {ranged : Option (List α)} {parseToken readToken : StringView → Option α}
    {validValues : List α} (optStr : StringView)
    (hdefaults : optStr = [] ∨ optStr = autoText → IsRange validValues)
    (hranged : ∀ values, ranged = some values →
      values ≠ [] ∧ IsRange values ∧ ∀ v ∈ values, v ∈ validValues)
    (htoken : ∀ sv v, parseToken sv = some v ↔
      readToken sv = some v ∧ v ∈ validValues) :
    ∃ values : Option (List α),
      (∀ {Run : Type} (createRun : α → Run),
        sweep optStr (some ranged) parseToken validValues createRun =
          some (values.map (List.map createRun))) ∧
      Selects IsRange validValues readToken optStr values := by
  by_cases hdefault : optStr = [] ∨ optStr = autoText
  · exact ⟨some validValues, fun _ => sweep_default hdefault _ _ _ _,
      selects_of_range (hdefaults hdefault) (fun _ hv => hv) _ _⟩
  · obtain ⟨hne, hauto⟩ := not_or.mp hdefault
    cases ranged with
    | some values =>
        obtain ⟨hvalues, hrange, hvalid⟩ := hranged values rfl
        exact ⟨some values, fun _ => sweep_of_ranged hne hauto hvalues _ _ _,
          selects_of_range hrange hvalid _ _⟩
    | none =>
        refine ⟨(optStr.splitOn ',').mapM parseToken,
          fun _ => sweep_of_tokens hne hauto _ _ _, ?_, ?_, ?_⟩
        · intro vs hvs v hv
          obtain ⟨sv, -, hsv⟩ := exists_of_mem_mapM hvs hv
          exact ((htoken sv v).mp hsv).2
        · intro vs hvs
          exact .inr ((forall₂_of_mapM hvs).imp fun sv v hsv =>
            ((htoken sv v).mp hsv).1)
        · intro hnone
          obtain ⟨sv, hsv, hparse⟩ := exists_of_mapM_eq_none hnone
          refine ⟨sv, hsv, ?_⟩
          intro v hv hread
          rw [(htoken sv v).mpr ⟨hread, hv⟩] at hparse
          contradiction

/-- What a range selects of an array of names: all of them without an option, and
otherwise the slice between its bounds, of which the omitted ones are the
defaults. -/
def IsNameRange (names : List StringView) (defaultMin defaultMax optStr :
    StringView) (values : List StringView) : Prop :=
  ((optStr = [] ∨ optStr = autoText) ∧ values = names) ∨
    ∃ i j, i ≤ j ∧
      names[i]? = some ((parseMinMaxStrideStr optStr).minOr defaultMin) ∧
      names[j]? = some ((parseMinMaxStrideStr optStr).maxOr defaultMax) ∧
      values = slice names i j

/-! ## Runs of the harness -/

theorem slice_sublist {α : Type*} (values : List α) (start stop : ℕ) :
    (slice values start stop).Sublist values :=
  (List.take_sublist _ _).trans (List.drop_sublist _ _)

section Variables

variable {Context σ ρ : Type} {T : UnsignedIntegral}

/-- A variable whose generator is a sweep over an array of numbers. -/
def integralVariable (T : UnsignedIntegral) (name : StringView)
    (validValues : List T.Val)
    (createRun : Context → T.Val → HarnessRun σ ρ)
    (defaultMin defaultMax : T.Val) : HarnessVariable Context σ ρ where
  name := name
  gen optStr context state :=
    ((makeFilteredSweepIntegral T optStr context validValues createRun
      defaultMin defaultMax).join, state)

/-- A variable whose generator is a sweep over an array of names. -/
def stringVariable (name : StringView) (validValues : List StringView)
    (createRun : Context → StringView → HarnessRun σ ρ)
    (defaultMin defaultMax : StringView) : HarnessVariable Context σ ρ where
  name := name
  gen optStr context state :=
    ((makeFilteredSweepString optStr context validValues createRun
      defaultMin defaultMax).join, state)

variable {before after : List (HarnessVariable Context σ ρ)}

/-- The runs that a harness keeps are those of the values it benchmarked. -/
theorem Harness.Benchmarks.exists_value {α : Type} {h : Harness σ ρ} {n : ℕ}
    {createRun : α → HarnessRun σ ρ} {values : List α} {world : World σ}
    {result : Harness σ ρ × World σ}
    (hb : h.Benchmarks n createRun (some values) world result)
    {run : HarnessRun σ ρ} (hrun : run ∈ result.1.runs) :
    ∃ v ∈ values, run.name = (createRun v).name := by
  obtain ⟨r, hr⟩ := List.getElem?_of_mem hrun
  have hrow := (hb.accepted values rfl).2.2 r
  rw [hr, Option.map_some, eq_comm, Option.map_eq_some_iff] at hrow
  obtain ⟨v, hv, heq⟩ := hrow
  exact ⟨v, List.mem_of_getElem? hv, (congrArg Prod.fst heq).symm⟩

/-- With any option string the sweep returns and the harness benchmarks valid
numbers only. -/
theorem Harness.run_integralVariable (h : Harness σ ρ)
    (validValues : List T.Val)
    (createRun : Context → T.Val → HarnessRun σ ρ)
    (defaultMin defaultMax : T.Val) (context : Context) (world : World σ)
    (hbefore : ∀ x ∈ before, h.var ≠ x.name) :
    ∃ values : Option (List T.Val),
      makeFilteredSweepIntegral T h.optStr context validValues createRun
          defaultMin defaultMax =
        some (values.map (List.map (createRun context))) ∧
      h.Benchmarks before.length (createRun context) values world
        (h.run (before ++ integralVariable T h.var validValues createRun
          defaultMin defaultMax :: after) context world) ∧
      Selects (·.Sublist validValues) validValues (parseInt T) h.optStr
        values := by
  have hranged : ∀ values, filterForRangeStrIntegral T h.optStr validValues
      defaultMin defaultMax 1 = some values →
        values ≠ [] ∧ values.Sublist validValues ∧
          ∀ v ∈ values, v ∈ validValues := by
    intro values hvalues
    have hsub : values.Sublist validValues := by
      obtain ⟨range, -, -, -, -, -, rfl⟩ :=
        eq_of_filterForRangeStrIntegral hvalues
      exact List.filter_sublist.trans (slice_sublist _ _ _)
    exact ⟨filterForRangeStrIntegral_ne_nil hvalues, hsub,
      fun v hv => hsub.subset hv⟩
  have htoken : ∀ sv v, (validValues.find? fun v => some v == parseInt T sv) =
      some v ↔ parseInt T sv = some v ∧ v ∈ validValues := by
    intro sv v
    rw [find?_parseInt, Option.filter_eq_some_iff, decide_eq_true_eq]
  obtain ⟨values, hvalues, hselects⟩ :=
    exists_selects_of_sweep (·.Sublist validValues) h.optStr
      (fun _ => List.Sublist.refl _) hranged htoken
  have hsweep : makeFilteredSweepIntegral T h.optStr context validValues
      createRun defaultMin defaultMax =
        some (values.map (List.map (createRun context))) := by
    rw [makeFilteredSweepIntegral, hvalues]
  refine ⟨values, hsweep, Harness.benchmarks_of_gen hbefore rfl ?_, hselects⟩
  rw [integralVariable]
  dsimp only
  rw [hsweep]
  rfl

/-- Over `1, 2, 4, 8` the string `3-` runs no other number. -/
theorem Harness.run_integralVariable_sizes :
    let createRun : Unit → uint64.Val → HarnessRun ℕ ℕ := fun _ v =>
      { name := decimal v, runBench := fun s => (some s, s + v.toNat) }
    let h : Harness ℕ ℕ := { var := "size".toList, optStr := "3-".toList }
    let result := h.run
      [integralVariable uint64 "size".toList [1, 2, 4, 8] createRun 1 8] ()
      ⟨0, []⟩
    ∀ run ∈ result.1.runs,
      run.name ∈ ([1, 2, 4, 8] : List uint64.Val).map decimal := by
  intro createRun h result run hrun
  obtain ⟨values, -, hb, hselects⟩ :=
    @Harness.run_integralVariable Unit ℕ ℕ uint64 [] [] h [1, 2, 4, 8]
      createRun 1 8 () ⟨0, []⟩ (List.forall_mem_nil _)
  cases values with
  | none =>
      have hruns : result.1 = h := (hb.rejected rfl).1
      rw [hruns] at hrun
      exact absurd hrun List.not_mem_nil
  | some vs =>
      obtain ⟨v, hv, hname⟩ := hb.exists_value hrun
      exact hname ▸ List.mem_map_of_mem (hselects.valid vs rfl v hv)

/-- With any option string the sweep returns and the harness benchmarks valid
names only. -/
theorem Harness.run_stringVariable (h : Harness σ ρ)
    (validValues : List StringView)
    (createRun : Context → StringView → HarnessRun σ ρ)
    (defaultMin defaultMax : StringView) (context : Context) (world : World σ)
    (hbefore : ∀ x ∈ before, h.var ≠ x.name) :
    ∃ values : Option (List StringView),
      makeFilteredSweepString h.optStr context validValues createRun defaultMin
          defaultMax =
        some (values.map (List.map (createRun context))) ∧
      h.Benchmarks before.length (createRun context) values world
        (h.run (before ++ stringVariable h.var validValues createRun
          defaultMin defaultMax :: after) context world) ∧
      Selects (IsNameRange validValues defaultMin defaultMax h.optStr)
        validValues some h.optStr values := by
  have hranged : ∀ values, filterForRangeStrString h.optStr validValues
      defaultMin defaultMax = some values →
        values ≠ [] ∧
          IsNameRange validValues defaultMin defaultMax h.optStr values ∧
          ∀ v ∈ values, v ∈ validValues := by
    intro values hvalues
    obtain ⟨-, i, j, hle, hmin, hmax, rfl⟩ :=
      eq_of_filterForRangeStrString hvalues
    exact ⟨filterForRangeStrString_ne_nil hvalues,
      .inr ⟨i, j, hle, hmin, hmax, rfl⟩,
      fun v hv => (slice_sublist _ _ _).subset hv⟩
  have htoken : ∀ sv v, (validValues.find? fun v => v == sv) = some v ↔
      some sv = some v ∧ v ∈ validValues := by
    intro sv v
    rw [find?_beq, Option.ite_none_right_eq_some, and_comm]
    exact and_congr_right fun heq => by rw [Option.some.inj heq]
  obtain ⟨values, hvalues, hselects⟩ :=
    exists_selects_of_sweep
      (IsNameRange validValues defaultMin defaultMax h.optStr) h.optStr
      (fun hdefault => .inl ⟨hdefault, rfl⟩) hranged htoken
  have hsweep : makeFilteredSweepString h.optStr context validValues createRun
      defaultMin defaultMax =
        some (values.map (List.map (createRun context))) := by
    rw [makeFilteredSweepString, hvalues]
  refine ⟨values, hsweep, Harness.benchmarks_of_gen hbefore rfl ?_, hselects⟩
  rw [stringVariable]
  dsimp only
  rw [hsweep]
  rfl

/-- Over three instruction sets the string `sse,neon` runs no other name. -/
theorem Harness.run_stringVariable_isas :
    let isas := ["sse".toList, "avx2".toList, "avx512".toList]
    let createRun : Unit → StringView → HarnessRun ℕ ℕ := fun _ isa =>
      { name := isa, runBench := fun s => (some s, s + isa.length) }
    let h : Harness ℕ ℕ := { var := "isa".toList, optStr := "sse,neon".toList }
    let result := h.run
      [stringVariable "isa".toList isas createRun "sse".toList
        "avx512".toList] () ⟨0, []⟩
    ∀ run ∈ result.1.runs, run.name ∈ isas := by
  intro isas createRun h result run hrun
  obtain ⟨values, -, hb, hselects⟩ :=
    @Harness.run_stringVariable Unit ℕ ℕ [] [] h isas createRun "sse".toList
      "avx512".toList () ⟨0, []⟩ (List.forall_mem_nil _)
  cases values with
  | none =>
      have hruns : result.1 = h := (hb.rejected rfl).1
      rw [hruns] at hrun
      exact absurd hrun List.not_mem_nil
  | some vs =>
      obtain ⟨v, hv, hname⟩ := hb.exists_value hrun
      exact hname ▸ hselects.valid vs rfl v hv

end Variables

end BenchBox
