import Mathlib.Data.List.Basic
import Mathlib.Data.List.Perm.Basic
import Mathlib.Order.Lattice.Nat

/-!
# Column-major traversal of ragged lists

A ragged list is a list of rows of different lengths.  This module develops its
column-major traversal: all first entries in row order, then all second
entries, and so on, a row dropping out once it is exhausted.  Two loops, one
over an index and one over the rows, guarded by `index < row.length`, perform
exactly this traversal, and so does dealing each row onto numbered slots.
-/

namespace Ragged

variable {α β γ : Type*}

/-- The longest length of a row, accumulated from the left. -/
def width (rows : List (List α)) : ℕ :=
  rows.foldl (fun acc row => max acc row.length) 0

/-- The entries at index `i` of the rows that have one, in row order. -/
def column (rows : List (List α)) (i : ℕ) : List α :=
  rows.filterMap (·[i]?)

/-- The first `n` columns, one after the other. -/
def columns (n : ℕ) (rows : List (List α)) : List α :=
  (List.range n).flatMap (column rows)

/-- All columns, one after the other. -/
def columnMajor (rows : List (List α)) : List α :=
  columns (width rows) rows

/-! ## Width -/

theorem foldl_max_le_iff (f : α → ℕ) (xs : List α) (init n : ℕ) :
    xs.foldl (fun acc x => max acc (f x)) init ≤ n ↔
      init ≤ n ∧ ∀ x ∈ xs, f x ≤ n := by
  induction xs generalizing init with
  | nil => simp
  | cons x xs ih =>
      rw [List.foldl_cons, ih, List.forall_mem_cons, max_le_iff, and_assoc]

theorem width_le_iff {rows : List (List α)} {n : ℕ} :
    width rows ≤ n ↔ ∀ row ∈ rows, row.length ≤ n := by
  rw [width, foldl_max_le_iff]
  simp

theorem length_le_width {rows : List (List α)} {row : List α}
    (hrow : row ∈ rows) : row.length ≤ width rows :=
  width_le_iff.mp le_rfl row hrow

/-! ## Columns -/

@[simp] theorem column_nil (i : ℕ) : column ([] : List (List α)) i = [] := rfl

@[simp] theorem column_cons (row : List α) (rows : List (List α)) (i : ℕ) :
    column (row :: rows) i = row[i]?.toList ++ column rows i := by
  cases h : row[i]? <;> simp [column, h]

theorem mem_column_iff {rows : List (List α)} {i : ℕ} {a : α} :
    a ∈ column rows i ↔ ∃ row ∈ rows, row[i]? = some a :=
  List.mem_filterMap

/-- Past the width every column is empty. -/
theorem column_eq_nil_of_width_le {rows : List (List α)} {i : ℕ}
    (h : width rows ≤ i) : column rows i = [] := by
  rw [column, List.filterMap_eq_nil_iff]
  intro row hrow
  exact List.getElem?_eq_none ((length_le_width hrow).trans h)

/-- A test that is constant along each row selects whole rows. -/
theorem filter_column_map {f : β → List α} {p : α → Bool} {q : β → Bool}
    {xs : List β} (h : ∀ x ∈ xs, ∀ a ∈ f x, p a = q x) (i : ℕ) :
    (column (xs.map f) i).filter p = column ((xs.filter q).map f) i := by
  induction xs with
  | nil => rfl
  | cons x xs ih =>
      have hrows := ih fun y hy => h y (List.mem_cons_of_mem x hy)
      have hrow : ∀ a ∈ f x, p a = q x := h x List.mem_cons_self
      rw [List.map_cons, column_cons, List.filter_append, hrows,
        List.filter_cons]
      cases hget : (f x)[i]? with
      | none => cases q x <;> simp [hget]
      | some a =>
          have ha : p a = q x := hrow a (List.mem_of_getElem? hget)
          cases hq : q x <;> simp [hget, ha, hq]

theorem column_flatMap (f : β → List (List α)) (xs : List β) (i : ℕ) :
    column (xs.flatMap f) i = xs.flatMap fun x => column (f x) i := by
  induction xs with
  | nil => rfl
  | cons x xs ih =>
      rw [List.flatMap_cons, List.flatMap_cons, ← ih, column, column, column,
        List.filterMap_append]

/-- Empty rows contribute to no column. -/
theorem column_filter_ne_nil (rows : List (List α)) (i : ℕ) :
    column (rows.filter (!·.isEmpty)) i = column rows i := by
  induction rows with
  | nil => rfl
  | cons row rows ih =>
      cases row with
      | nil => simpa using ih
      | cons a row => simp [ih]

/-! ## The traversal -/

theorem columns_succ (n : ℕ) (rows : List (List α)) :
    columns (n + 1) rows = columns n rows ++ column rows n := by
  simp [columns, List.range_succ]

/-- Columns past the width add nothing. -/
theorem columns_eq_columnMajor {n : ℕ} {rows : List (List α)}
    (h : width rows ≤ n) : columns n rows = columnMajor rows := by
  induction n, h using Nat.le_induction with
  | base => rfl
  | succ n hn ih =>
      rw [columns_succ, ih, column_eq_nil_of_width_le hn, List.append_nil]

theorem width_filter_map_le (f : β → List α) (q : β → Bool) (xs : List β) :
    width ((xs.filter q).map f) ≤ width (xs.map f) := by
  rw [width_le_iff, List.forall_mem_map]
  intro x hx
  exact length_le_width (List.mem_map_of_mem (List.mem_of_mem_filter hx))

theorem filter_columnMajor_map {f : β → List α} {p : α → Bool} {q : β → Bool}
    {xs : List β} (h : ∀ x ∈ xs, ∀ a ∈ f x, p a = q x) :
    (columnMajor (xs.map f)).filter p = columnMajor ((xs.filter q).map f) := by
  rw [← columns_eq_columnMajor (width_filter_map_le f q xs)]
  simp only [columnMajor, columns, List.filter_flatMap, filter_column_map h]

theorem columnMajor_filter_ne_nil (rows : List (List α)) :
    columnMajor (rows.filter (!·.isEmpty)) = columnMajor rows := by
  have hwidth := width_filter_map_le id (!·.isEmpty) rows
  rw [List.map_id, List.map_id] at hwidth
  rw [← columns_eq_columnMajor hwidth]
  exact List.flatMap_congr fun i _ => column_filter_ne_nil rows i

/-- One row read by increasing index is the row. -/
theorem flatMap_range_getElem? (row : List α) {n : ℕ} (h : row.length ≤ n) :
    (List.range n).flatMap (fun i => row[i]?.toList) = row := by
  induction row generalizing n with
  | nil => simp
  | cons a row ih =>
      obtain ⟨m, rfl⟩ : ∃ m, n = m + 1 :=
        Nat.exists_eq_succ_of_ne_zero (by simp at h; omega)
      rw [List.range_succ_eq_map, List.flatMap_cons, List.flatMap_map]
      simpa using ih (by simpa using h)

/-- The rows one after the other, by index. -/
theorem flatten_eq_flatMap_range (rows : List (List α)) :
    rows.flatten =
      (List.range rows.length).flatMap fun i => rows[i]?.getD [] := by
  induction rows with
  | nil => rfl
  | cons row rows ih =>
      rw [List.flatten_cons, ih, List.length_cons, List.range_succ_eq_map,
        List.flatMap_cons, List.flatMap_map]
      rfl

/-- The traversal visits every entry of every row exactly once. -/
theorem columns_perm_flatten {n : ℕ} {rows : List (List α)}
    (h : ∀ row ∈ rows, row.length ≤ n) :
    (columns n rows).Perm rows.flatten := by
  induction rows with
  | nil => simp [columns]
  | cons row rows ih =>
      have hrow : (List.range n).flatMap (fun i => row[i]?.toList) = row :=
        flatMap_range_getElem? row (h row List.mem_cons_self)
      have hrows : (columns n rows).Perm rows.flatten :=
        ih fun r hr => h r (List.mem_cons_of_mem row hr)
      have hcolumn : column (row :: rows) =
          fun i => row[i]?.toList ++ column rows i :=
        funext (column_cons row rows)
      have hsplit :
          (columns n (row :: rows)).Perm
            ((List.range n).flatMap (fun i => row[i]?.toList) ++
              columns n rows) := by
        rw [columns, hcolumn]
        exact (List.flatMap_append_perm _ _ _).symm
      rw [hrow] at hsplit
      exact hsplit.trans (hrows.append_left row)

theorem columnMajor_perm_flatten (rows : List (List α)) :
    (columnMajor rows).Perm rows.flatten :=
  columns_perm_flatten (width_le_iff.mp le_rfl)

/-- Rows of at most one entry are visited in row order. -/
theorem columnMajor_of_length_le_one {rows : List (List α)}
    (h : ∀ row ∈ rows, row.length ≤ 1) : columnMajor rows = rows.flatten := by
  rw [← columns_eq_columnMajor (width_le_iff.mpr h)]
  induction rows with
  | nil => rfl
  | cons row rows ih =>
      have hrow := h row List.mem_cons_self
      have hrows := ih fun r hr => h r (List.mem_cons_of_mem row hr)
      rw [columns, List.range_one, List.flatMap_singleton] at hrows ⊢
      rw [column_cons, hrows, List.flatten_cons]
      congr 1
      cases row with
      | nil => rfl
      | cons a row =>
          have hnil : row = [] :=
            List.eq_nil_of_length_eq_zero (by simpa using hrow)
          rw [hnil]
          rfl

theorem columnMajor_singleton (row : List α) : columnMajor [row] = row := by
  have hcolumn : column [row] = fun i => row[i]?.toList := by
    funext i
    rw [column_cons, column_nil, List.append_nil]
  rw [columnMajor, columns, hcolumn]
  exact flatMap_range_getElem? row (length_le_width List.mem_cons_self)

/-- If at most one row has entries, that row is the traversal. -/
theorem columnMajor_of_pairwise {rows : List (List α)}
    (h : rows.Pairwise fun row row' => row = [] ∨ row' = []) :
    columnMajor rows = rows.flatten := by
  rw [← columnMajor_filter_ne_nil, ← List.flatten_filter_not_isEmpty]
  have hne : ∀ row ∈ rows.filter (!·.isEmpty), row ≠ [] := by
    intro row hrow hnil
    simp [hnil] at hrow
  have hfilter := h.filter (!·.isEmpty)
  generalize rows.filter (!·.isEmpty) = rows at hne hfilter ⊢
  match rows with
  | [] => rfl
  | [row] => rw [columnMajor_singleton, List.flatten_singleton]
  | row :: row' :: rest =>
      rcases (List.pairwise_cons.mp hfilter).1 row' List.mem_cons_self with
        hnil | hnil
      · exact absurd hnil (hne row List.mem_cons_self)
      · exact absurd hnil
          (hne row' (List.mem_cons_of_mem row List.mem_cons_self))

/-- The traversal opens with the first column. -/
theorem column_zero_prefix_columnMajor (rows : List (List α)) :
    column rows 0 <+: columnMajor rows := by
  rw [← columns_eq_columnMajor (Nat.le_succ (width rows)), columns,
    List.range_succ_eq_map, List.flatMap_cons]
  exact List.prefix_append _ _

/-- It opens with the first entry of each row if none is empty. -/
theorem take_columnMajor {rows : List (List α)}
    (h : ∀ row ∈ rows, row ≠ []) :
    (columnMajor rows).take rows.length = column rows 0 := by
  have hlength : (column rows 0).length = rows.length := by
    induction rows with
    | nil => rfl
    | cons row rows ih =>
        have hrow : row ≠ [] := h row List.mem_cons_self
        have hrows := ih fun r hr => h r (List.mem_cons_of_mem row hr)
        cases row with
        | nil => exact absurd rfl hrow
        | cons a row => simp [hrows]
  rw [← hlength]
  exact (List.prefix_iff_eq_take.mp (column_zero_prefix_columnMajor rows)).symm

/-! ## Order of the entries -/

/-- Entries of one column follow the order of their rows. -/
theorem pairwise_column {R : α → α → Prop} {rows : List (List α)} {i : ℕ}
    (h : rows.Pairwise fun row row' =>
      ∀ a, row[i]? = some a → ∀ b, row'[i]? = some b → R a b) :
    (column rows i).Pairwise R :=
  List.pairwise_filterMap.mpr h

/-- The traversal is ordered if each column is and the columns ascend. -/
theorem pairwise_columnMajor {R : α → α → Prop} {rows : List (List α)}
    (hcolumn : ∀ i, (column rows i).Pairwise R)
    (hlt : ∀ i j, i < j → ∀ a ∈ column rows i, ∀ b ∈ column rows j, R a b) :
    (columnMajor rows).Pairwise R := by
  rw [columnMajor, columns, List.pairwise_flatMap]
  exact ⟨fun i _ => hcolumn i, List.pairwise_lt_range.imp fun hij => hlt _ _ hij⟩

/-! ## Loops that perform the traversal -/

/-- A loop over the rows guarded by `i < row.length` folds over the column. -/
theorem foldl_column (h : γ → α → γ) (rows : List (List α)) (i : ℕ)
    (init : γ) :
    rows.foldl (fun acc row =>
        match row[i]? with
        | none => acc
        | some a => h acc a) init =
      (column rows i).foldl h init := by
  rw [column, List.foldl_filterMap]
  congr 1
  funext acc row
  cases row[i]? <;> rfl

/-- The two nested loops fold over the columns in order. -/
theorem foldl_columns (h : γ → α → γ) (n : ℕ) (rows : List (List α))
    (init : γ) :
    (List.range n).foldl (fun acc i =>
        rows.foldl (fun acc row =>
          match row[i]? with
          | none => acc
          | some a => h acc a) acc) init =
      (columns n rows).foldl h init := by
  simp only [foldl_column, columns, List.foldl_flatMap]

/-- Deal a row onto numbered slots: entry `t` is appended to slot `t`, and
entries without a slot are dropped. -/
def deal (slots : List (List α)) (row : List α) : List (List α) :=
  (List.range slots.length).foldl (fun slots t =>
    match row[t]? with
    | none => slots
    | some a => slots.modify t (· ++ [a])) slots

/-- The loop of `deal` up to bound `n`, slot by slot. -/
theorem getElem?_foldl_deal (row : List α) (n : ℕ) (slots : List (List α))
    (t : ℕ) :
    ((List.range n).foldl (fun slots t =>
        match row[t]? with
        | none => slots
        | some a => slots.modify t (· ++ [a])) slots)[t]? =
      if t < n then slots[t]?.map (· ++ row[t]?.toList) else slots[t]? := by
  induction n with
  | zero => simp
  | succ n ih =>
      rw [List.range_succ, List.foldl_append]
      simp only [List.foldl_cons, List.foldl_nil]
      cases hrow : row[n]? with
      | none =>
          rw [ih]
          by_cases htn : t = n
          · subst t
            simp [hrow]
          · simp [show t < n + 1 ↔ t < n by omega]
      | some a =>
          rw [List.getElem?_modify, ih]
          by_cases htn : t = n
          · subst t
            simp [hrow]
          · have hne : n ≠ t := fun h => htn h.symm
            simp [hne, show t < n + 1 ↔ t < n by omega]

theorem getElem?_deal (slots : List (List α)) (row : List α) (t : ℕ) :
    (deal slots row)[t]? = slots[t]?.map (· ++ row[t]?.toList) := by
  rw [deal, getElem?_foldl_deal]
  split
  · rfl
  · rw [List.getElem?_eq_none (by omega)]
    rfl

@[simp] theorem length_deal (slots : List (List α)) (row : List α) :
    (deal slots row).length = slots.length := by
  rw [deal]
  generalize List.range slots.length = indexes
  induction indexes generalizing slots with
  | nil => rfl
  | cons t indexes ih =>
      rw [List.foldl_cons, ih]
      cases row[t]? <;> simp

/-- Dealing rows one after the other appends column `t` to slot `t`. -/
theorem getElem?_foldl_rows (rows : List (List α)) (slots : List (List α))
    (t : ℕ) :
    (rows.foldl deal slots)[t]? = slots[t]?.map (· ++ column rows t) := by
  induction rows generalizing slots with
  | nil => simp
  | cons row rows ih =>
      rw [List.foldl_cons, ih, getElem?_deal, Option.map_map]
      congr 1
      funext slot
      simp

/-- Dealing rows onto `n` empty slots yields the first `n` columns. -/
theorem foldl_deal_replicate (rows : List (List α)) (n : ℕ) :
    rows.foldl deal (List.replicate n []) = (List.range n).map (column rows) := by
  apply List.ext_getElem?
  intro t
  rw [getElem?_foldl_rows, List.getElem?_replicate, List.getElem?_map]
  by_cases ht : t < n
  · simp [ht]
  · simp [ht]

theorem flatten_foldl_deal_replicate (rows : List (List α)) (n : ℕ) :
    (rows.foldl deal (List.replicate n [])).flatten = columns n rows := by
  rw [foldl_deal_replicate, columns, List.flatMap_def]

end Ragged
