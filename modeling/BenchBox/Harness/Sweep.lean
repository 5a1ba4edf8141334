import BenchBox.Harness.Range
import BenchBox.Support.PartialLoop

/-!
# Sweep builders

The three sweep builders of `harness_helpers.h` share one shape: unless the
option string is empty or `auto`, try it as a range, then as a comma-separated
list, and run the default loop if nothing was built.  They are instances of
`sweep`, which leaves the range, the tokens and the default values open.  The
runs themselves are opaque.
-/

namespace BenchBox

open PartialLoop

variable {Context Run α : Type*}

/-- The loop that appends one run for each value. -/
def pushRuns (createRun : α → Run) (output : List Run) (values : List α) :
    List Run :=
  values.foldl (fun output v => output ++ [createRun v]) output

/-- The loop over the tokens of a list; `none` is the early `nullopt`. -/
def pushTokens (parseToken : StringView → Option α) (createRun : α → Run) :
    List Run → List StringView → Option (List Run)
  | output, [] => some output
  | output, sv :: tokens =>
      match parseToken sv with
      | none => none
      | some v => pushTokens parseToken createRun (output ++ [createRun v]) tokens

/-- A sweep from the point where the range has not settled it. -/
def sweepList (optStr : StringView) (parseToken : StringView → Option α)
    (defaults : List α) (createRun : α → Run) (output : List Run) :
    Option (List Run) :=
  match parseList optStr with
  | none => some (pushRuns createRun output defaults)
  | some parsed =>
      match pushTokens parseToken createRun output parsed with
      | none => none
      | some output =>
          if !output.isEmpty then
            some output
          else
            some (pushRuns createRun output defaults)

/-- The common shape of the sweep builders.  `ranged` is what reading the
option string as a range yields. -/
def sweep (optStr : StringView) (ranged : Outcome (Option (List α)))
    (parseToken : StringView → Option α) (defaults : List α)
    (createRun : α → Run) : Outcome (Option (List Run)) :=
  if optStr.isEmpty ∨ optStr = autoText then
    some (some (pushRuns createRun [] defaults))
  else
    match ranged with
    | none => none
    | some none => some (sweepList optStr parseToken defaults createRun [])
    | some (some values) =>
        let output := pushRuns createRun [] values
        if !output.isEmpty then
          some (some output)
        else
          some (sweepList optStr parseToken defaults createRun output)

/-- Below a bound the increment does not wrap. -/
theorem toNat_add_one_of_lt {T : UnsignedIntegral} {v bound : T.Val}
    (h : v < bound) : (v + 1).toNat = v.toNat + 1 := by
  have hlt : v.toNat < bound.toNat := BitVec.lt_def.mp h
  rw [BitVec.toNat_add, T.toNat_one, Nat.mod_eq_of_lt]
  exact lt_of_le_of_lt hlt bound.isLt

/-- The values of the loop `for (T v = begin; v < end; ++v)` from `v`. -/
def countUp {T : UnsignedIntegral} (v defaultEnd : T.Val) : List T.Val :=
  if _h : v < defaultEnd then v :: countUp (v + 1) defaultEnd else []
termination_by defaultEnd.toNat - v.toNat
decreasing_by
  have hlt : v.toNat < defaultEnd.toNat := BitVec.lt_def.mp _h
  have hnext := toNat_add_one_of_lt _h
  omega

/-- `make_numeric_sweep`. -/
def makeNumericSweep (T : UnsignedIntegral) (optStr : StringView)
    (context : Context) (createRun : Context → T.Val → Run)
    (defaultBegin defaultEnd : T.Val) : Outcome (Option (List Run)) :=
  let ranged : Outcome (Option (List T.Val)) :=
    match parseRange T optStr defaultBegin defaultEnd 1 with
    | none => some none
    | some range => (expandRange range).map some
  sweep optStr ranged (parseInt T) (countUp defaultBegin defaultEnd)
    (createRun context)

/-- `make_filtered_sweep` on names. -/
def makeFilteredSweepString (optStr : StringView) (context : Context)
    (validValues : List StringView) (createRun : Context → StringView → Run)
    (defaultMin defaultMax : StringView) : Outcome (Option (List Run)) :=
  sweep optStr
    (some (filterForRangeStrString optStr validValues defaultMin defaultMax))
    (fun sv => validValues.find? fun v => v == sv) validValues
    (createRun context)

/-- `make_filtered_sweep` on integral values. -/
def makeFilteredSweepIntegral (T : UnsignedIntegral) (optStr : StringView)
    (context : Context) (validValues : List T.Val)
    (createRun : Context → T.Val → Run) (defaultMin defaultMax : T.Val) :
    Outcome (Option (List Run)) :=
  sweep optStr
    (some (filterForRangeStrIntegral T optStr validValues defaultMin
      defaultMax 1))
    (fun sv => validValues.find? fun v => some v == parseInt T sv) validValues
    (createRun context)

/-! ## The common shape -/

theorem pushRuns_eq (createRun : α → Run) (output : List Run)
    (values : List α) :
    pushRuns createRun output values = output ++ values.map createRun := by
  induction values generalizing output with
  | nil => simp [pushRuns]
  | cons v values ih =>
      rw [pushRuns, List.foldl_cons, ← pushRuns, ih, List.map_cons,
        List.append_assoc, List.singleton_append]

theorem pushTokens_eq (parseToken : StringView → Option α)
    (createRun : α → Run) (output : List Run) (tokens : List StringView) :
    pushTokens parseToken createRun output tokens =
      (tokens.mapM parseToken).map fun values =>
        output ++ values.map createRun := by
  induction tokens generalizing output with
  | nil => simp [pushTokens]
  | cons sv tokens ih =>
      rw [pushTokens, List.mapM_cons]
      cases parseToken sv with
      | none => rfl
      | some v =>
          dsimp only
          rw [ih]
          cases tokens.mapM parseToken with
          | none => rfl
          | some values => simp

/-- An empty or `auto` option string gives the default sweep. -/
theorem sweep_default {optStr : StringView}
    (h : optStr = [] ∨ optStr = autoText)
    (ranged : Outcome (Option (List α)))
    (parseToken : StringView → Option α) (defaults : List α)
    (createRun : α → Run) :
    sweep optStr ranged parseToken defaults createRun =
      some (some (defaults.map createRun)) := by
  unfold sweep
  rw [if_pos (by simpa using h), pushRuns_eq, List.nil_append]

/-- A nonempty range settles the sweep. -/
theorem sweep_of_ranged {optStr : StringView} (hne : optStr ≠ [])
    (hauto : optStr ≠ autoText) {values : List α} (hvalues : values ≠ [])
    (parseToken : StringView → Option α) (defaults : List α)
    (createRun : α → Run) :
    sweep optStr (some (some values)) parseToken defaults createRun =
      some (some (values.map createRun)) := by
  rw [sweep, if_neg (by simp [hne, hauto])]
  simp [pushRuns_eq, hvalues]

/-- Without a range the tokens settle the sweep: the scan always yields one. -/
theorem sweep_of_tokens {optStr : StringView} (hne : optStr ≠ [])
    (hauto : optStr ≠ autoText) (parseToken : StringView → Option α)
    (defaults : List α) (createRun : α → Run) :
    sweep optStr (some none) parseToken defaults createRun =
      some (((optStr.splitOn ',').mapM parseToken).map
        (List.map createRun)) := by
  rw [sweep, if_neg (by simp [hne, hauto]), sweepList, parseList_eq,
    if_neg hauto]
  dsimp only
  rw [pushTokens_eq]
  cases htokens : (optStr.splitOn ',').mapM parseToken with
  | none => rfl
  | some values =>
      have hlength := length_of_mapM htokens
      have hvalues : values ≠ [] := by
        intro hnil
        rw [hnil, List.length_nil] at hlength
        exact List.splitOn_ne_nil ',' optStr
          (List.eq_nil_of_length_eq_zero hlength.symm)
      simp [hvalues]

/-! ## Explicit option strings -/

/-- An accepted range returns, and returns its expansion. -/
theorem makeNumericSweep_of_range {T : UnsignedIntegral} {optStr : StringView}
    (hne : optStr ≠ []) (hauto : optStr ≠ autoText) (context : Context)
    (createRun : Context → T.Val → Run) {defaultBegin defaultEnd : T.Val}
    {range : ParsedRangeInt T}
    (h : parseRange T optStr defaultBegin defaultEnd 1 = some range) :
    expandRange range = some range.values ∧ range.values ≠ [] ∧
      makeNumericSweep T optStr context createRun defaultBegin defaultEnd =
        some (some (range.values.map (createRun context))) := by
  obtain ⟨hle, hstride⟩ := parseRange_valid hne hauto h
  have hexpand := expandRange_eq hle hstride
  refine ⟨hexpand, range.values_ne_nil, ?_⟩
  rw [makeNumericSweep, h]
  dsimp only
  rw [hexpand]
  exact sweep_of_ranged hne hauto range.values_ne_nil _ _ _

theorem makeNumericSweep_of_list {T : UnsignedIntegral} {optStr : StringView}
    (hne : optStr ≠ []) (hauto : optStr ≠ autoText) (context : Context)
    (createRun : Context → T.Val → Run) {defaultBegin defaultEnd : T.Val}
    (h : parseRange T optStr defaultBegin defaultEnd 1 = none) :
    makeNumericSweep T optStr context createRun defaultBegin defaultEnd =
      some (((optStr.splitOn ',').mapM (parseInt T)).map
        (List.map (createRun context))) := by
  rw [makeNumericSweep, h]
  exact sweep_of_tokens hne hauto _ _ _

theorem find?_beq {β : Type*} [BEq β] [LawfulBEq β] (xs : List β) (b : β) :
    (xs.find? fun x => x == b) = if b ∈ xs then some b else none := by
  induction xs with
  | nil => rfl
  | cons x xs ih =>
      rw [List.find?_cons, ih]
      by_cases hx : x = b
      · simp [hx]
      · simp [beq_false_of_ne hx, Ne.symm hx]

/-- A token selects the valid value it denotes. -/
theorem find?_parseInt (T : UnsignedIntegral) (values : List T.Val)
    (sv : StringView) :
    (values.find? fun v => some v == parseInt T sv) =
      (parseInt T sv).filter fun v => decide (v ∈ values) := by
  cases parseInt T sv with
  | none =>
      rw [List.find?_eq_none.mpr (by simp)]
      rfl
  | some x =>
      have hbeq : (fun v : T.Val => some v == some x) = fun v => v == x := by
        funext v
        exact Option.some_beq_some
      rw [hbeq, find?_beq, Option.filter_some]
      split <;> simp_all

/-- A spec that is neither empty nor `auto` never falls through to the default
sweep.  The numeric builder returns the runs of the accepted range, the name
builder those of its slice and the integral builder those of its filtered
slice; otherwise each returns the runs of the listed values in order, or
nothing if a token is no value. -/
theorem makeSweep_of_explicit {optStr : StringView} (hne : optStr ≠ [])
    (hauto : optStr ≠ autoText) (context : Context) (T : UnsignedIntegral)
    (createRun : Context → T.Val → Run)
    (createNamed : Context → StringView → Run)
    (defaultBegin defaultEnd : T.Val)
    (names : List StringView) (defaultMinName defaultMaxName : StringView)
    (values : List T.Val) (defaultMin defaultMax : T.Val) :
    (∀ range, parseRange T optStr defaultBegin defaultEnd 1 = some range →
        ∃ expanded, expandRange range = some expanded ∧ expanded ≠ [] ∧
          makeNumericSweep T optStr context createRun defaultBegin defaultEnd =
            some (some (expanded.map (createRun context)))) ∧
      (parseRange T optStr defaultBegin defaultEnd 1 = none →
        makeNumericSweep T optStr context createRun defaultBegin defaultEnd =
          some (((optStr.splitOn ',').mapM (parseInt T)).map
            (List.map (createRun context)))) ∧
      (∀ selected,
        filterForRangeStrString optStr names defaultMinName defaultMaxName =
            some selected →
          selected ≠ [] ∧
            makeFilteredSweepString optStr context names createNamed
                defaultMinName defaultMaxName =
              some (some (selected.map (createNamed context)))) ∧
      (names.Nodup → ∀ selected,
        filterForRangeStrString optStr names defaultMinName defaultMaxName =
            some selected ↔
          (parseMinMaxStrideStr optStr).stride = [] ∧
            ∃ i j, i ≤ j ∧
              names[i]? =
                some ((parseMinMaxStrideStr optStr).minOr defaultMinName) ∧
              names[j]? =
                some ((parseMinMaxStrideStr optStr).maxOr defaultMaxName) ∧
              selected = slice names i j) ∧
      (filterForRangeStrString optStr names defaultMinName defaultMaxName =
          none →
        makeFilteredSweepString optStr context names createNamed
            defaultMinName defaultMaxName =
          some (if ∀ sv ∈ optStr.splitOn ',', sv ∈ names then
            some ((optStr.splitOn ',').map (createNamed context)) else none)) ∧
      (∀ selected,
        filterForRangeStrIntegral T optStr values defaultMin defaultMax 1 =
            some selected →
          selected ≠ [] ∧
            makeFilteredSweepIntegral T optStr context values createRun
                defaultMin defaultMax =
              some (some (selected.map (createRun context)))) ∧
      (filterForRangeStrIntegral T optStr values defaultMin defaultMax 1 =
          none →
        makeFilteredSweepIntegral T optStr context values createRun
            defaultMin defaultMax =
          some (((optStr.splitOn ',').mapM fun sv =>
            (parseInt T sv).filter fun v => decide (v ∈ values)).map
              (List.map (createRun context)))) := by
  refine ⟨?_, ?_, ?_, ?_, ?_, ?_, ?_⟩
  · intro range hrange
    obtain ⟨hexpand, hvalues, hsweep⟩ :=
      makeNumericSweep_of_range hne hauto context createRun hrange
    exact ⟨range.values, hexpand, hvalues, hsweep⟩
  · exact makeNumericSweep_of_list hne hauto context createRun
  · intro selected hselected
    have hvalues := filterForRangeStrString_ne_nil hselected
    refine ⟨hvalues, ?_⟩
    rw [makeFilteredSweepString, hselected]
    exact sweep_of_ranged hne hauto hvalues _ _ _
  · intro hnodup selected
    exact filterForRangeStrString_eq_some_iff hnodup
  · intro hnone
    rw [makeFilteredSweepString, hnone, sweep_of_tokens hne hauto]
    simp only [find?_beq, mapM_ite_some]
    split <;> rfl
  · intro selected hselected
    have hvalues := filterForRangeStrIntegral_ne_nil hselected
    refine ⟨hvalues, ?_⟩
    rw [makeFilteredSweepIntegral, hselected]
    exact sweep_of_ranged hne hauto hvalues _ _ _
  · intro hnone
    rw [makeFilteredSweepIntegral, hnone, sweep_of_tokens hne hauto,
      funext (find?_parseInt T values)]

/-- The list `3,5` and the range `3-6:2` both run 3 and 5. -/
theorem makeSweep_of_explicit_three_five :
    makeNumericSweep uint64 "3,5".toList () (fun _ v => v.toNat) 3 8 =
        some (some [3, 5]) ∧
      ∃ expanded,
        expandRange (ParsedRangeInt.mk 3 6 2 : ParsedRangeInt uint64) =
          some expanded ∧
        expanded ≠ [] ∧
        makeNumericSweep uint64 "3-6:2".toList () (fun _ v => v.toNat) 3 8 =
          some (some (expanded.map fun v => v.toNat)) := by
  constructor
  · have h := (makeSweep_of_explicit (show "3,5".toList ≠ [] by decide)
      (by decide) () uint64 (fun _ v => v.toNat) (fun _ _ => 0) 3 8 [] [] []
      [] 0 0).2.1 (by decide)
    exact h.trans (by decide)
  · exact (makeSweep_of_explicit (show "3-6:2".toList ≠ [] by decide)
      (by decide) () uint64 (fun _ v => v.toNat) (fun _ _ => 0) 3 8 [] [] []
      [] 0 0).1 _ (by decide)

end BenchBox
