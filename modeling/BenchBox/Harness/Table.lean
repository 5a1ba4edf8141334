import BenchBox.Harness.Run
import BenchBox.Harness.Summary
import BenchBox.Support.Padding

/-!
# The table of results

The rest of `harness_t::run`: a header, a rule and one row for each run with its
scores, their mean and their spread.  Scores are exact rationals, as in the
summary, and every character is one column wide.  The rows can be read back, so
the table shows the outcome of each benchmark call in the row of its run.
-/

namespace BenchBox

open Calls Decimal Words

/-! ## Printing -/

/-- `name_fmt_str`, `" {:<8} |"`. -/
def nameFmtStr (name : StringView) : StringView :=
  " ".toList ++ padRight ' ' 8 name ++ " |".toList

/-- `res_col_fmt_str`, `" {:>8}"`. -/
def resColFmtStr (cell : StringView) : StringView :=
  ' ' :: padLeft ' ' 8 cell

/-- `avg_min_max_fmt_str`, `" | {:>8} | {:>8}"`. -/
def avgMinMaxFmtStr (avg maxMin : StringView) : StringView :=
  " | ".toList ++ padLeft ' ' 8 avg ++ " | ".toList ++ padLeft ' ' 8 maxMin

/-- What a line of the table shows. -/
structure TableRow where
  name : StringView
  cells : List StringView
  avg : StringView
  maxMin : StringView
deriving DecidableEq, Repr

/-- A line of the table. -/
def TableRow.format (row : TableRow) : StringView :=
  nameFmtStr row.name ++ row.cells.flatMap resColFmtStr ++
    avgMinMaxFmtStr row.avg row.maxMin

/-- The header. -/
def headerRow (var : StringView) (numSubRuns : BitVec 32) : TableRow where
  name := var
  cells := (List.range numSubRuns.toNat).map fun i =>
    "run ".toList ++ Nat.toDigits 10 (i + 1)
  avg := "avg".toList
  maxMin := "max/min".toList

/-- The line below the header. -/
def rule (numSubRuns : BitVec 32) : StringView :=
  List.replicate (12#32 + 9#32 * numSubRuns + 22#32).toNat '='

/-- `val_str_or_dash`. -/
def valStrOrDash (val : Option ℚ) : StringView :=
  match val with
  | some score => fixed2 score
  | none => dash

variable {Context σ : Type}

/-- The row of a run. -/
def HarnessRun.row (numSubRuns : BitVec 32) (run : HarnessRun σ ℚ) :
    TableRow where
  name := run.name
  cells := (List.range numSubRuns.toNat).map fun i =>
    valStrOrDash (run.subRunResults.getD i none)
  avg := (summarize run.subRunResults).meanStr
  maxMin := (summarize run.subRunResults).ratioPStr

/-- The lines that are printed after the runs. -/
def Harness.resultLines (h : Harness σ ℚ) : List StringView :=
  [[], "!!HARNESS!!".toList, "=====".toList ++ h.var ++ " results=====".toList,
      (headerRow h.var h.numSubRuns).format, rule h.numSubRuns] ++
    h.runs.map fun run => (run.row h.numSubRuns).format

/-- What `harness_t::run` prints at its end, `none` if it returns early. -/
def Harness.printResults (h : Harness σ ℚ)
    (vs : List (HarnessVariable Context σ ℚ)) (context : Context)
    (world : World σ) : Option StringView :=
  let selected := selectVariable h.var h.optStr context 0 vs world
  if selected.1.1 = false then
    none
  else
    selected.1.2.map fun _ =>
      unlines '\n' (h.run vs context world).1.resultLines

/-! ## Reading -/

/-- A line of the table, as what it shows. -/
def readRow (line : StringView) : Option TableRow :=
  match line.splitOn '|' with
  | [name, cells, avg, maxMin] =>
      some ⟨trim ' ' name, tokens ' ' cells, trim ' ' avg, trim ' ' maxMin⟩
  | _ => none

/-- The rows of a table, which are below the rule. -/
def readTable (text : StringView) : Option (List TableRow) :=
  ((getLines '\n' text).drop 5).mapM readRow

/-- A text that neither the columns nor the lines of the table break. -/
structure NameText (name : StringView) : Prop where
  trimmed : Trimmed ' ' name
  bar : '|' ∉ name
  newline : '\n' ∉ name

/-- A text without a blank. -/
structure CellText (cell : StringView) : Prop where
  ne_nil : cell ≠ []
  blank : ' ' ∉ cell
  bar : '|' ∉ cell
  newline : '\n' ∉ cell

theorem CellText.nameText {cell : StringView} (h : CellText cell) :
    NameText cell :=
  ⟨trimmed_of_notMem h.blank, h.bar, h.newline⟩

theorem cellText_dash : CellText dash := by
  constructor <;> decide

theorem cellText_fixed2 (x : ℚ) : CellText (fixed2 x) := by
  have hmem {c : Char} (hc : c ∈ fixed2 x) :
      c = '-' ∨ c = '.' ∨ c.isDigit = true := by
    rw [fixed2, List.mem_append] at hc
    rcases hc with hsign | hdigits
    · split at hsign
      · exact .inl (List.mem_singleton.mp hsign)
      · exact absurd hsign List.not_mem_nil
    · exact .inr (mem_twoDecimals hdigits)
  have hpoint : '.' ∈ fixed2 x :=
    List.mem_append_right _ (point_mem_twoDecimals _)
  refine ⟨List.ne_nil_of_mem hpoint, ?_, ?_, ?_⟩
  · exact fun h => absurd (hmem h) (by decide)
  · exact fun h => absurd (hmem h) (by decide)
  · exact fun h => absurd (hmem h) (by decide)

theorem cellText_percentage (max min : ℚ) : CellText (percentage max min) := by
  rw [percentage]
  split
  · constructor <;> decide
  · obtain ⟨hne, hblank, hbar, hnewline⟩ :=
      cellText_fixed2 ((max / min - 1) * 100)
    refine ⟨List.append_ne_nil_of_left_ne_nil hne _, ?_, ?_, ?_⟩ <;>
      simp_all

theorem cellText_valStrOrDash (val : Option ℚ) : CellText (valStrOrDash val) := by
  cases val with
  | none => exact cellText_dash
  | some score => exact cellText_fixed2 score

theorem cellText_meanStr (t : SummaryTotals) : CellText t.meanStr := by
  rw [SummaryTotals.meanStr]
  split
  · exact cellText_fixed2 _
  · exact cellText_dash

theorem cellText_ratioPStr (t : SummaryTotals) : CellText t.ratioPStr := by
  rw [SummaryTotals.ratioPStr]
  split
  · exact cellText_percentage _ _
  · exact cellText_dash

/-- The four parts of a line, between the bars. -/
theorem TableRow.format_eq (row : TableRow) :
    row.format =
      (List.replicate 1 ' ' ++ (row.name ++
          List.replicate (8 - row.name.length + 1) ' ')) ++ '|' ::
        ((row.cells.flatMap resColFmtStr ++ [' ']) ++ '|' ::
          ((List.replicate (1 + (8 - row.avg.length)) ' ' ++
              (row.avg ++ List.replicate 1 ' ')) ++ '|' ::
            (List.replicate (1 + (8 - row.maxMin.length)) ' ' ++
              (row.maxMin ++ List.replicate 0 ' ')))) := by
  simp [TableRow.format, nameFmtStr, avgMinMaxFmtStr, padLeft, padRight,
    List.replicate_succ', List.replicate_add]

theorem notMem_flatMap_resColFmtStr {c : Char} (hc : c ≠ ' ')
    {cells : List StringView} (h : ∀ cell ∈ cells, c ∉ cell) :
    c ∉ cells.flatMap resColFmtStr := by
  intro hmem
  obtain ⟨cell, hcell, hmem⟩ := List.mem_flatMap.mp hmem
  rcases List.mem_cons.mp hmem with rfl | hmem
  · exact hc rfl
  · rcases mem_padLeft hmem with rfl | hmem
    · exact hc rfl
    · exact h cell hcell hmem

/-- A line is read back. -/
theorem readRow_format {row : TableRow} (hname : NameText row.name)
    (hcells : ∀ cell ∈ row.cells, CellText cell) (havg : CellText row.avg)
    (hmaxMin : CellText row.maxMin) : readRow row.format = some row := by
  have hblanks (n : ℕ) : '|' ∉ List.replicate n ' ' := by
    intro h
    exact absurd (List.eq_of_mem_replicate h) (by decide)
  have hcellBars : '|' ∉ row.cells.flatMap resColFmtStr :=
    notMem_flatMap_resColFmtStr (by decide) fun cell hcell =>
      (hcells cell hcell).bar
  have htokens : tokens ' ' (row.cells.flatMap resColFmtStr ++ [' ']) =
      row.cells := by
    rw [tokens_append_cons, tokens_nil, List.append_nil]
    exact tokens_flatMap_padLeft 8 fun cell hcell =>
      ⟨(hcells cell hcell).ne_nil, (hcells cell hcell).blank⟩
  rw [readRow, row.format_eq,
    List.splitOn_append_cons_self_of_not_mem
      (by simp [hblanks, hname.bar, -List.replicate_one]),
    List.splitOn_append_cons_self_of_not_mem (by simp [hcellBars]),
    List.splitOn_append_cons_self_of_not_mem
      (by simp [hblanks, havg.bar, -List.replicate_one]),
    List.splitOn_eq_singleton (by simp [hblanks, hmaxMin.bar])]
  dsimp only
  rw [trim_replicate_append_replicate hname.trimmed, htokens,
    trim_replicate_append_replicate havg.nameText.trimmed,
    trim_replicate_append_replicate hmaxMin.nameText.trimmed]

theorem newline_notMem_format {row : TableRow} (hname : '\n' ∉ row.name)
    (hcells : ∀ cell ∈ row.cells, '\n' ∉ cell) (havg : '\n' ∉ row.avg)
    (hmaxMin : '\n' ∉ row.maxMin) : '\n' ∉ row.format := by
  have hcellLines : '\n' ∉ row.cells.flatMap resColFmtStr :=
    notMem_flatMap_resColFmtStr (by decide) hcells
  rw [row.format_eq]
  simp [hname, hcellLines, havg, hmaxMin]

/-! ## The rows of the runs -/

theorem HarnessRun.readRow_row {numSubRuns : BitVec 32}
    {run : HarnessRun σ ℚ} (hname : NameText run.name) :
    readRow (run.row numSubRuns).format = some (run.row numSubRuns) := by
  refine readRow_format hname ?_ (cellText_meanStr _) (cellText_ratioPStr _)
  intro cell hcell
  obtain ⟨i, -, rfl⟩ := List.mem_map.mp hcell
  exact cellText_valStrOrDash _

theorem HarnessRun.newline_notMem_row {numSubRuns : BitVec 32}
    {run : HarnessRun σ ℚ} (hname : NameText run.name) :
    '\n' ∉ (run.row numSubRuns).format := by
  refine newline_notMem_format hname.newline ?_ (cellText_meanStr _).newline
    (cellText_ratioPStr _).newline
  intro cell hcell
  obtain ⟨i, -, rfl⟩ := List.mem_map.mp hcell
  exact (cellText_valStrOrDash _).newline

theorem newline_notMem_headerRow {var : StringView} (hvar : '\n' ∉ var)
    (numSubRuns : BitVec 32) : '\n' ∉ (headerRow var numSubRuns).format := by
  refine newline_notMem_format hvar ?_
    (show '\n' ∉ "avg".toList by decide) (show '\n' ∉ "max/min".toList by decide)
  intro cell hcell
  obtain ⟨i, -, rfl⟩ := List.mem_map.mp hcell
  rw [List.mem_append, not_or]
  refine ⟨by decide, ?_⟩
  intro hdigit
  exact absurd (isDigit_toDigits hdigit) (by decide)

theorem newline_notMem_rule (numSubRuns : BitVec 32) :
    '\n' ∉ rule numSubRuns := by
  intro h
  exact absurd (List.eq_of_mem_replicate h) (by decide)

/-- The printed table gives the rows back. -/
theorem Harness.readTable_resultLines {h : Harness σ ℚ} (hvar : '\n' ∉ h.var)
    (hnames : ∀ run ∈ h.runs, NameText run.name) :
    readTable (unlines '\n' h.resultLines) =
      some (h.runs.map fun run => run.row h.numSubRuns) := by
  have hlines : ∀ line ∈ h.resultLines, '\n' ∉ line := by
    intro line hline
    rw [Harness.resultLines, List.mem_append] at hline
    rcases hline with hfixed | hrow
    · simp only [List.mem_cons, List.not_mem_nil, or_false] at hfixed
      rcases hfixed with rfl | rfl | rfl | rfl | rfl
      · exact List.not_mem_nil
      · decide
      · simp [hvar]
      · exact newline_notMem_headerRow hvar _
      · exact newline_notMem_rule _
    · obtain ⟨run, hrun, rfl⟩ := List.mem_map.mp hrow
      exact run.newline_notMem_row (hnames run hrun)
  have hrows : ∀ runs : List (HarnessRun σ ℚ),
      (∀ run ∈ runs, NameText run.name) →
      (runs.map fun run => (run.row h.numSubRuns).format).mapM readRow =
        some (runs.map fun run => run.row h.numSubRuns) := by
    intro runs hruns
    induction runs with
    | nil => rfl
    | cons run runs ih =>
        rw [List.forall_mem_cons] at hruns
        rw [List.map_cons, List.mapM_cons, run.readRow_row hruns.1, ih hruns.2]
        rfl
  rw [readTable, getLines_unlines hlines]
  exact hrows h.runs hnames

/-! ## What the table shows -/

/-- A cell shows an outcome: the score up to half a hundredth, or dashes. -/
def Shows (cell : StringView) (val : Option ℚ) : Prop :=
  match val with
  | some score => ∃ x, readFixed2 cell = some x ∧ |x - score| ≤ 1 / 200
  | none => cell = dash

theorem shows_valStrOrDash (val : Option ℚ) : Shows (valStrOrDash val) val := by
  cases val with
  | none => rfl
  | some score => exact readFixed2_fixed2 score

/-- A run of the harness whose variable generates ends with a table that can be
read back: it has one row for each run, in order, with the name of the run and
the outcomes of its calls, and with the mean of its scores unless they add up to
less than the threshold. -/
theorem Harness.readTable_printResults (h : Harness σ ℚ)
    {before after : List (HarnessVariable Context σ ℚ)}
    {v : HarnessVariable Context σ ℚ} {context : Context} {world : World σ}
    (hbefore : ∀ x ∈ before, h.var ≠ x.name) (hv : h.var = v.name)
    {runs : List (HarnessRun σ ℚ)}
    (hgen : (v.gen h.optStr context world.state).1 = some runs)
    (hvar : '\n' ∉ h.var) (hnames : ∀ run ∈ runs, NameText run.name) :
    let k := h.numSubRuns.toNat
    let outcomes := (runCalls (benchCalls k runs)
      (v.gen h.optStr context world.state).2).1
    ∃ text rows,
      h.printResults (before ++ v :: after) context world = some text ∧
      readTable text = some rows ∧ rows.length = runs.length ∧
      ∀ (r : ℕ) (run : HarnessRun σ ℚ) (row : TableRow),
        runs[r]? = some run → rows[r]? = some row →
        let scores := ((outcomes.drop (r * k)).take k).reduceOption
        row.name = run.name ∧ row.cells.length = k ∧
          (∀ (i : ℕ) (cell : StringView) (val : Option ℚ),
            row.cells[i]? = some cell → outcomes[r * k + i]? = some val →
              Shows cell val) ∧
          (threshold ≤ scores.sum →
            Shows row.avg (some (scores.sum / scores.length))) := by
  intro k outcomes
  obtain ⟨executed, hrun, hget⟩ : ∃ executed,
      (h.run (before ++ v :: after) context world).1 =
          { h with runs := executed } ∧
        ∀ r : ℕ, executed[r]? = runs[r]?.map fun run =>
          { run with subRunResults := (outcomes.drop (r * k)).take k } := by
    refine ⟨_, by rw [Harness.run_of_some hbefore hv hgen], ?_⟩
    exact fun r => executeRuns_getElem? 0 r runs 0 _
  have hlength : executed.length = runs.length := by
    apply Nat.le_antisymm
    · rw [← List.getElem?_eq_none_iff, hget, Option.map_eq_none_iff,
        List.getElem?_eq_none_iff]
    · rw [← List.getElem?_eq_none_iff, ← Option.map_eq_none_iff, ← hget,
        List.getElem?_eq_none_iff]
  have hselected : (selectVariable h.var h.optStr context 0
      (before ++ v :: after) world).1 = (true, some runs) := by
    rw [selectVariable_append_cons hbefore hv, hgen]
  have hexecuted : ∀ run ∈ executed, NameText run.name := by
    intro run hmem
    obtain ⟨r, hr⟩ := List.mem_iff_getElem?.mp hmem
    rw [hget, Option.map_eq_some_iff] at hr
    obtain ⟨old, hold, rfl⟩ := hr
    exact hnames old (List.mem_of_getElem? hold)
  refine ⟨_, executed.map fun run => run.row h.numSubRuns, ?_,
    Harness.readTable_resultLines (h := { h with runs := executed }) hvar
      hexecuted, by rw [List.length_map, hlength], ?_⟩
  · rw [Harness.printResults, hselected, hrun]
    rfl
  · intro r run row hr hrow scores
    rw [List.getElem?_map, hget, hr, Option.map_some, Option.map_some,
      Option.some.injEq] at hrow
    subst hrow
    refine ⟨rfl, ?_, ?_, ?_⟩
    · rw [HarnessRun.row, List.length_map, List.length_range]
    · intro i cell val hcell hval
      rw [HarnessRun.row, List.getElem?_map, Option.map_eq_some_iff] at hcell
      obtain ⟨j, hj, rfl⟩ := hcell
      obtain ⟨hi, rfl⟩ := List.getElem?_eq_some_iff.mp hj
      rw [List.length_range] at hi
      rw [List.getElem_range, List.getD_eq_getElem?_getD,
        List.getElem?_take_of_lt hi, List.getElem?_drop, hval]
      exact shows_valStrOrDash val
    · intro hsum
      rw [HarnessRun.row, summarize_eq]
      dsimp only
      rw [SummaryTotals.meanStr, if_pos hsum]
      exact shows_valStrOrDash (some (scores.sum / scores.length))

/-- One run of two sub-runs, of which the second completes. -/
theorem Harness.readTable_printResults_second :
    let run : HarnessRun ℕ ℚ :=
      { name := "a".toList
        runBench := fun s => (if s = 0 then none else some 2, s + 1) }
    let vs : List (HarnessVariable Unit ℕ ℚ) :=
      [⟨"b".toList, fun _ _ s => (some [run], s)⟩]
    let h : Harness ℕ ℚ := { numSubRuns := 2, var := "b".toList }
    ∃ text row, h.printResults vs () ⟨0, []⟩ = some text ∧
      readTable text = some [row] ∧ row.name = "a".toList ∧
        ∀ cell, row.cells[0]? = some cell → cell = dash := by
  intro run vs h
  have hname : NameText run.name := ⟨by decide, by decide, by decide⟩
  obtain ⟨text, rows, hprint, hread, hlength, hrows⟩ :=
    @Harness.readTable_printResults Unit ℕ h [] [] vs[0] () ⟨0, []⟩
      (List.forall_mem_nil _) rfl [run] rfl (by decide)
      (List.forall_mem_singleton.mpr hname)
  obtain ⟨row, rfl⟩ := List.length_eq_one_iff.mp hlength
  obtain ⟨hrowName, -, hcells, -⟩ := hrows 0 run row rfl rfl
  exact ⟨text, row, hprint, hread, hrowName, fun cell hcell =>
    hcells 0 cell none hcell rfl⟩

/-! ## Columns -/

/-- No text of the line is wider than its column. -/
structure TableRow.Fits (row : TableRow) : Prop where
  name : row.name.length ≤ 8
  cells : ∀ cell ∈ row.cells, cell.length ≤ 8
  avg : row.avg.length ≤ 8
  maxMin : row.maxMin.length ≤ 8

theorem length_resColFmtStr (cell : StringView) :
    (resColFmtStr cell).length = max 8 cell.length + 1 := by
  rw [resColFmtStr, List.length_cons, length_padLeft]

/-- The cells take nine columns each, or more if one is too wide. -/
theorem length_flatMap_resColFmtStr (cells : List StringView) :
    9 * cells.length ≤ (cells.flatMap resColFmtStr).length ∧
      ((cells.flatMap resColFmtStr).length = 9 * cells.length ↔
        ∀ cell ∈ cells, cell.length ≤ 8) := by
  induction cells with
  | nil => simp
  | cons cell cells ih =>
      rw [List.flatMap_cons, List.length_append, length_resColFmtStr,
        List.length_cons, List.forall_mem_cons, ← ih.2]
      omega

theorem TableRow.length_format (row : TableRow) :
    row.format.length =
      max 8 row.name.length + (row.cells.flatMap resColFmtStr).length +
        max 8 row.avg.length + max 8 row.maxMin.length + 9 := by
  simp only [TableRow.format, nameFmtStr, avgMinMaxFmtStr, List.length_append,
    length_padRight, length_padLeft]
  show 1 + _ + 2 + _ + (3 + _ + 3 + _) = _
  omega

/-- Cells that fit stand in columns of their own. -/
theorem take_drop_flatMap_resColFmtStr {cells : List StringView}
    (h : ∀ cell ∈ cells, cell.length ≤ 8) {i : ℕ} {cell : StringView}
    (hcell : cells[i]? = some cell) (rest : StringView) :
    ((cells.flatMap resColFmtStr ++ rest).drop (9 * i)).take 9 =
      resColFmtStr cell := by
  induction cells generalizing i with
  | nil => simp at hcell
  | cons next cells ih =>
      rw [List.forall_mem_cons] at h
      have hlength : (resColFmtStr next).length = 9 := by
        rw [length_resColFmtStr]
        omega
      rw [List.flatMap_cons, List.append_assoc]
      cases i with
      | zero =>
          rw [List.getElem?_cons_zero, Option.some.injEq] at hcell
          rw [Nat.mul_zero, List.drop_zero, List.take_left' hlength, hcell]
      | succ i =>
          rw [List.getElem?_cons_succ] at hcell
          rw [Nat.mul_succ, Nat.add_comm, ← List.drop_drop,
            List.drop_left' hlength]
          exact ih h.2 hcell

/-- A line has the width that its number of cells calls for exactly if all its
texts fit.  Then every cell stands at the end of nine columns of its own, which
are the same ones in the header and in all rows. -/
theorem TableRow.format_aligned (row : TableRow) :
    (row.format.length = 33 + 9 * row.cells.length ↔ row.Fits) ∧
      (row.Fits → ∀ (i : ℕ) (cell : StringView), row.cells[i]? = some cell →
        (row.format.drop (11 + 9 * i)).take 9 =
          List.replicate (9 - cell.length) ' ' ++ cell) := by
  obtain ⟨hle, hcells⟩ := length_flatMap_resColFmtStr row.cells
  refine ⟨?_, ?_⟩
  · rw [row.length_format]
    constructor
    · intro h
      exact ⟨by omega, hcells.mp (by omega), by omega, by omega⟩
    · intro h
      obtain ⟨hname, hfit, havg, hmaxMin⟩ := h
      rw [hcells.mpr hfit]
      omega
  · intro hfits i cell hcell
    have hlength : (nameFmtStr row.name).length = 11 := by
      have hname := hfits.name
      simp only [nameFmtStr, List.length_append, length_padRight]
      show 1 + _ + 2 = 11
      omega
    have hpad : 9 - cell.length = 8 - cell.length + 1 := by
      have hle := hfits.cells cell (List.mem_of_getElem? hcell)
      omega
    rw [TableRow.format, List.append_assoc, ← List.drop_drop,
      List.drop_left' hlength,
      take_drop_flatMap_resColFmtStr hfits.cells hcell, resColFmtStr, padLeft,
      hpad, List.replicate_succ, List.cons_append]

/-- The second cell of a header. -/
theorem TableRow.format_aligned_header :
    ((headerRow "size".toList 2).format.drop (11 + 9 * 1)).take 9 =
      List.replicate (9 - 5) ' ' ++ "run 2".toList :=
  (headerRow "size".toList 2).format_aligned.2
    ⟨by decide, by decide, by decide, by decide⟩ 1 "run 2".toList (by decide)

end BenchBox
