import BenchBox.Harness.Range

/-!
# Expanding and filtering the same range

`expand_range` lists an arithmetic progression; `filter_for_range_str` on
integral values walks an array and tests a modulus.  Over an ascending array
the second selects exactly what the first lists.
-/

namespace BenchBox

/-! ## The progression -/

/-- The values of a nonempty range, without wrap-around. -/
theorem ParsedRangeInt.map_toNat_values {T : UnsignedIntegral}
    {range : ParsedRangeInt T} (hle : range.min ≤ range.max) :
    range.values.map BitVec.toNat =
      (List.range
        ((range.max.toNat - range.min.toNat) / range.stride.toNat + 1)).map
          fun k => range.min.toNat + k * range.stride.toNat := by
  have hle' : range.min.toNat ≤ range.max.toNat := BitVec.le_def.mp hle
  rw [ParsedRangeInt.values, List.map_map]
  apply List.map_congr_left
  intro k hk
  have hk' : k ≤ (range.max.toNat - range.min.toNat) / range.stride.toNat :=
    Nat.lt_succ_iff.mp (List.mem_range.mp hk)
  have hbound : k * range.stride.toNat ≤
      range.max.toNat - range.min.toNat :=
    (Nat.mul_le_mul_right _ hk').trans (Nat.div_mul_le_self _ _)
  have hmax := range.max.isLt
  rw [Function.comp_apply, BitVec.toNat_ofNat, Nat.mod_eq_of_lt (by omega)]

/-- A value is listed if it lies in the range and a whole number of strides
above the minimum. -/
theorem ParsedRangeInt.mem_values_iff {T : UnsignedIntegral}
    {range : ParsedRangeInt T} (hle : range.min ≤ range.max)
    (hstride : range.stride ≠ 0) {v : T.Val} :
    v ∈ range.values ↔
      (range.min.toNat ≤ v.toNat ∧ v.toNat ≤ range.max.toNat) ∧
        range.stride.toNat ∣ v.toNat - range.min.toNat := by
  have hpos := range.stride_pos hstride
  have hmem : v ∈ range.values ↔
      v.toNat ∈ range.values.map BitVec.toNat := by
    constructor
    · exact List.mem_map_of_mem
    · intro h
      obtain ⟨w, hw, heq⟩ := List.mem_map.mp h
      rwa [← BitVec.eq_of_toNat_eq heq]
  rw [hmem, range.map_toNat_values hle, List.mem_map]
  simp only [List.mem_range, Nat.lt_succ_iff, Nat.le_div_iff_mul_le hpos]
  constructor
  · intro h
    rcases h with ⟨k, hk, heq⟩
    have hle' : range.min.toNat ≤ range.max.toNat := BitVec.le_def.mp hle
    rw [← heq]
    refine ⟨⟨by omega, by omega⟩, ?_⟩
    rw [Nat.add_sub_cancel_left]
    exact Nat.dvd_mul_left _ _
  · intro h
    rcases h with ⟨⟨hmin, hmax⟩, k, hk⟩
    refine ⟨k, ?_, ?_⟩
    · rw [Nat.mul_comm, ← hk]
      omega
    · rw [Nat.mul_comm, ← hk]
      omega

theorem expandRange_of_lt {T : UnsignedIntegral} {range : ParsedRangeInt T}
    (h : range.max < range.min) : expandRange range = some [] := by
  rw [expandRange, expandRangeLoop, if_neg]
  exact fun hle => absurd (BitVec.le_def.mp hle) (by
    have hlt := BitVec.lt_def.mp h
    omega)

/-- Every stride from one on makes the expansion return, and it lists
`min + k * stride` for `k` up to `(max - min) / stride`, in increasing order and
without wrap-around, or nothing if the range is empty. -/
theorem expandRange_progression {T : UnsignedIntegral}
    (range : ParsedRangeInt T) (hstride : 1 ≤ range.stride) :
    ∃ out, expandRange range = some out ∧ out.Pairwise (· < ·) ∧
      out.map BitVec.toNat =
        if range.min ≤ range.max then
          (List.range
            ((range.max.toNat - range.min.toNat) / range.stride.toNat + 1)).map
              fun k => range.min.toNat + k * range.stride.toNat
        else [] := by
  have hpos : 0 < range.stride.toNat := by
    have h := BitVec.le_def.mp hstride
    rwa [T.toNat_one] at h
  have hne : range.stride ≠ 0 := by
    intro hzero
    rw [hzero] at hpos
    exact absurd hpos (by simp)
  by_cases hle : range.min ≤ range.max
  · have hvalues := range.map_toNat_values hle
    refine ⟨range.values, expandRange_eq hle hne, ?_, by rw [if_pos hle, hvalues]⟩
    have hsorted : (range.values.map BitVec.toNat).Pairwise (· < ·) := by
      rw [hvalues, List.pairwise_map]
      exact List.pairwise_lt_range.imp fun hlt =>
        Nat.add_lt_add_left (Nat.mul_lt_mul_of_pos_right hlt hpos) _
    exact (List.pairwise_map.mp hsorted).imp BitVec.lt_def.mpr
  · refine ⟨[], expandRange_of_lt (BitVec.not_le.mp hle), List.Pairwise.nil, ?_⟩
    rw [if_neg hle]
    rfl

/-- Up to the largest `uint64_t` the expansion stops without wrapping. -/
theorem expandRange_progression_max :
    ∃ out, expandRange
        (ParsedRangeInt.mk 18446744073709551611 18446744073709551615 2 :
          ParsedRangeInt uint64) = some out ∧
      out.map BitVec.toNat =
        [18446744073709551611, 18446744073709551613, 18446744073709551615] := by
  obtain ⟨out, hout, -, hvalues⟩ := expandRange_progression
    (ParsedRangeInt.mk 18446744073709551611 18446744073709551615 2 :
      ParsedRangeInt uint64) (by decide)
  exact ⟨out, hout, hvalues.trans (by decide)⟩

/-! ## Filtering an ascending array -/

theorem mem_slice_iff {α : Type*} {values : List α} {start stop : ℕ} {a : α} :
    a ∈ slice values start stop ↔
      ∃ i, start ≤ i ∧ i ≤ stop ∧ values[i]? = some a := by
  rw [slice, List.mem_iff_getElem?]
  simp only [List.getElem?_take, List.getElem?_drop]
  constructor
  · intro h
    obtain ⟨n, hn⟩ := h
    split at hn
    next hlt => exact ⟨start + n, by omega, by omega, hn⟩
    next => simp at hn
  · intro h
    obtain ⟨i, hstart, hstop, hget⟩ := h
    refine ⟨i - start, ?_⟩
    rw [if_pos (by omega), Nat.add_sub_cancel' hstart, hget]

section Ascending

variable {α : Type*} {values : List α} {key : α → ℕ}

/-- In a list that ascends under a key, positions are ordered as the keys
are. -/
theorem key_le_key_iff (h : values.Pairwise fun a b => key a < key b)
    {i j : ℕ} {a b : α} (ha : values[i]? = some a) (hb : values[j]? = some b) :
    key a ≤ key b ↔ i ≤ j := by
  obtain ⟨hi, rfl⟩ := List.getElem?_eq_some_iff.mp ha
  obtain ⟨hj, rfl⟩ := List.getElem?_eq_some_iff.mp hb
  have hlt := List.pairwise_iff_getElem.mp h
  rcases Nat.lt_trichotomy i j with hij | rfl | hji
  · have hkeys := hlt i j hi hj hij
    omega
  · simp
  · have hkeys := hlt j i hj hi hji
    omega

/-- In such a list a slice holds what lies between its ends under the key. -/
theorem slice_eq_filter (h : values.Pairwise fun a b => key a < key b)
    {i j : ℕ} {a b : α} (ha : values[i]? = some a) (hb : values[j]? = some b) :
    slice values i j =
      values.filter fun v => key a ≤ key v ∧ key v ≤ key b := by
  have hslice : (slice values i j).Sublist values :=
    (List.take_sublist _ _).trans (List.drop_sublist _ _)
  have hfilter : (values.filter fun v =>
      key a ≤ key v ∧ key v ≤ key b).Sublist values := List.filter_sublist
  have hnodup : values.Nodup := h.imp fun hlt heq => by
    rw [heq] at hlt
    exact Nat.lt_irrefl _ hlt
  have hperm : (slice values i j).Perm
      (values.filter fun v => key a ≤ key v ∧ key v ≤ key b) := by
    rw [List.perm_ext_iff_of_nodup (hnodup.sublist hslice)
      (hnodup.sublist hfilter)]
    intro v
    rw [mem_slice_iff, List.mem_filter, decide_eq_true_eq]
    constructor
    · intro hv
      obtain ⟨m, hstart, hstop, hget⟩ := hv
      exact ⟨List.mem_of_getElem? hget, (key_le_key_iff h ha hget).mpr hstart,
        (key_le_key_iff h hget hb).mpr hstop⟩
    · intro hv
      obtain ⟨hmem, hmin, hmax⟩ := hv
      obtain ⟨m, hget⟩ := List.mem_iff_getElem?.mp hmem
      exact ⟨m, (key_le_key_iff h ha hget).mp hmin,
        (key_le_key_iff h hget hb).mp hmax, hget⟩
  exact hperm.eq_of_pairwise (fun x y _ _ hxy hyx => absurd hxy hyx.asymm)
    (h.sublist hslice) (h.sublist hfilter)

end Ascending

/-- From the minimum on the modulus test is divisibility, for narrow types
too. -/
theorem onStride_eq_true_iff {T : UnsignedIntegral} {value min stride : T.Val}
    (hle : min.toNat ≤ value.toNat) :
    onStride value min stride = true ↔
      stride.toNat ∣ value.toNat - min.toNat := by
  rw [onStride]
  split
  · rw [beq_iff_eq, ← Int.dvd_iff_tmod_eq_zero, ← Int.ofNat_sub hle,
      Int.natCast_dvd_natCast]
  · rw [beq_iff_eq, Nat.dvd_iff_mod_eq_zero,
      ← BitVec.toNat_sub_of_le (BitVec.le_def.mpr hle), ← BitVec.toNat_umod]
    constructor
    · intro h
      rw [h]
      rfl
    · intro h
      exact BitVec.eq_of_toNat_eq (by simpa using h)

/-- Over an ascending array the filter returns a list exactly when the spec is
read as a nonempty range with both ends in the array and a nonzero stride, and
the list is what `expand_range` and the array have in common. -/
theorem filterForRangeStrIntegral_eq_some_iff {T : UnsignedIntegral}
    {values : List T.Val} (hvalues : values.Pairwise (· < ·))
    (str : StringView) (defaultMin defaultMax defaultStride : T.Val)
    (result : List T.Val) :
    filterForRangeStrIntegral T str values defaultMin defaultMax
        defaultStride = some result ↔
      ∃ range, parseRange T str defaultMin defaultMax defaultStride =
          some range ∧
        range.min ∈ values ∧ range.max ∈ values ∧ range.min ≤ range.max ∧
        range.stride ≠ 0 ∧
        ∃ expanded, expandRange range = some expanded ∧
          result = values.filter (· ∈ expanded) := by
  have hkeys : values.Pairwise fun a b => a.toNat < b.toNat :=
    hvalues.imp BitVec.lt_def.mp
  -- what the filter collects once it has accepted the bounds
  have hfilter {range : ParsedRangeInt T} (hmin : range.min ∈ values)
      (hmax : range.max ∈ values) (hle : range.min ≤ range.max)
      (hstride : range.stride ≠ 0) :
      ((slice values (values.idxOf range.min)
          (values.idxOf range.max)).filter fun value =>
            onStride value range.min range.stride) =
        values.filter (· ∈ range.values) := by
    rw [slice_eq_filter hkeys (List.getElem?_idxOf hmin)
      (List.getElem?_idxOf hmax), List.filter_filter]
    apply List.filter_congr
    intro v _
    rw [Bool.eq_iff_iff, Bool.and_eq_true, decide_eq_true_eq,
      decide_eq_true_eq, range.mem_values_iff hle hstride]
    constructor
    · intro h
      exact ⟨h.2, (onStride_eq_true_iff h.2.1).mp h.1⟩
    · intro h
      exact ⟨(onStride_eq_true_iff h.1.1).mpr h.2, h.1⟩
  constructor
  · intro h
    obtain ⟨range, hrange, hstart, hstop, hidx, hstride, rfl⟩ :=
      eq_of_filterForRangeStrIntegral h
    have hmin := List.mem_of_getElem? hstart
    have hmax := List.mem_of_getElem? hstop
    have hle : range.min ≤ range.max :=
      BitVec.le_def.mpr ((key_le_key_iff hkeys hstart hstop).mpr hidx)
    exact ⟨range, hrange, hmin, hmax, hle, hstride, range.values,
      expandRange_eq hle hstride, hfilter hmin hmax hle hstride⟩
  · intro h
    rcases h with ⟨range, hrange, hmin, hmax, hle, hstride, expanded,
      hexpand, rfl⟩
    have hidx : values.idxOf range.min ≤ values.idxOf range.max :=
      (key_le_key_iff hkeys (List.getElem?_idxOf hmin)
        (List.getElem?_idxOf hmax)).mp (BitVec.le_def.mp hle)
    have hstart := List.idxOf_lt_length_of_mem hmin
    have hstop := List.idxOf_lt_length_of_mem hmax
    rw [expandRange_eq hle hstride, Option.some.injEq] at hexpand
    rw [filterForRangeStrIntegral, hrange]
    dsimp only
    rw [if_neg (by omega), if_neg hstride, hfilter hmin hmax hle hstride,
      hexpand]

/-- The sizes of the tests, of which `5-11:2` selects 5, 7 and 11. -/
theorem filterForRangeStrIntegral_eq_some_iff_sizes :
    filterForRangeStrIntegral uint64 "5-11:2".toList [4, 5, 7, 11] 5 11 1 =
      some [5, 7, 11] := by
  apply (filterForRangeStrIntegral_eq_some_iff
    (show List.Pairwise (· < ·) ([4, 5, 7, 11] : List uint64.Val) by decide)
    "5-11:2".toList 5 11 1 [5, 7, 11]).mpr
  exact ⟨⟨5, 11, 2⟩, by decide, by decide, by decide, by decide, by decide,
    [5, 7, 9, 11], by decide, by decide⟩

end BenchBox
