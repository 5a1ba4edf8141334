import BenchBox.Harness.Sweep

/-!
# Omitted bounds and the default sweep

The option string `-` is a range that leaves both bounds to their defaults.
This module compares it with the empty string and `auto`, which select the
default sweep.
-/

namespace BenchBox

variable {Context Run : Type*}

/-- The text `-`. -/
def dashText : StringView := "-".toList

/-- A sweep builder yields the same for the empty string, `auto` and `-`. -/
def DefaultsAgree {β : Type*} (sweepFor : StringView → β) : Prop :=
  sweepFor [] = sweepFor autoText ∧ sweepFor dashText = sweepFor autoText

theorem dashText_ne_nil : dashText ≠ [] := by decide

theorem dashText_ne_autoText : dashText ≠ autoText := by decide

theorem parseMinMaxStrideStr_dashText :
    parseMinMaxStrideStr dashText = {} := by decide

/-- Without bounds the defaults are checked like parsed bounds. -/
theorem parseRange_dashText {T : UnsignedIntegral}
    (defaultMin defaultMax : T.Val) :
    parseRange T dashText defaultMin defaultMax 1 =
      if defaultMin ≤ defaultMax then some ⟨defaultMin, defaultMax, 1⟩
      else none := by
  rw [parseRange, if_neg (by decide), parseMinMaxStrideStr_dashText]
  by_cases hle : defaultMin ≤ defaultMax
  · simp [parseOr, hle, BitVec.not_lt.mpr hle, T.bits_pos.ne']
  · simp [parseOr, hle, BitVec.not_le.mp hle]

/-! ## Numeric sweeps -/

/-- The default loop lists the values from `v` up to, but not including, the
end. -/
theorem countUp_eq {T : UnsignedIntegral} (v defaultEnd : T.Val) :
    countUp v defaultEnd =
      (List.range (defaultEnd.toNat - v.toNat)).map fun k =>
        BitVec.ofNat T.bits (v.toNat + k) := by
  induction v using countUp.induct defaultEnd with
  | case1 v hlt ih =>
      have hlt' : v.toNat < defaultEnd.toNat := BitVec.lt_def.mp hlt
      have hlength : defaultEnd.toNat - v.toNat =
          defaultEnd.toNat - (v + 1).toNat + 1 := by
        rw [toNat_add_one_of_lt hlt]
        omega
      rw [countUp, dif_pos hlt, ih, hlength, List.range_succ_eq_map,
        List.map_cons, List.map_map, toNat_add_one_of_lt hlt]
      congr 1
      · simp
      · apply List.map_congr_left
        intro k _
        rw [Function.comp_apply, Nat.succ_eq_add_one, Nat.add_comm k,
          Nat.add_assoc]
  | case2 v hge =>
      have hge' : defaultEnd.toNat ≤ v.toNat :=
        BitVec.le_def.mp (BitVec.not_lt.mp hge)
      rw [countUp, dif_neg hge, Nat.sub_eq_zero_of_le hge']
      rfl

/-- Expanding the default bounds lists one value more than the default loop. -/
theorem values_default {T : UnsignedIntegral} {defaultBegin defaultEnd : T.Val}
    (hle : defaultBegin ≤ defaultEnd) :
    (ParsedRangeInt.mk defaultBegin defaultEnd 1).values =
      countUp defaultBegin defaultEnd ++ [defaultEnd] := by
  have hle' : defaultBegin.toNat ≤ defaultEnd.toNat := BitVec.le_def.mp hle
  rw [ParsedRangeInt.values, countUp_eq]
  dsimp only
  rw [T.toNat_one, Nat.div_one, List.range_succ,
    List.map_append, List.map_singleton]
  simp only [Nat.mul_one, Nat.add_sub_cancel' hle', BitVec.ofNat_toNat,
    BitVec.setWidth_eq]

/-- The default sweep of the numeric builder runs the default loop. -/
theorem makeNumericSweep_default {T : UnsignedIntegral} {optStr : StringView}
    (h : optStr = [] ∨ optStr = autoText) (context : Context)
    (createRun : Context → T.Val → Run) (defaultBegin defaultEnd : T.Val) :
    makeNumericSweep T optStr context createRun defaultBegin defaultEnd =
      some (some ((countUp defaultBegin defaultEnd).map (createRun context))) :=
  sweep_default h _ _ _ _

/-- The range `-` of the numeric builder also runs the end. -/
theorem makeNumericSweep_dashText {T : UnsignedIntegral} (context : Context)
    (createRun : Context → T.Val → Run) {defaultBegin defaultEnd : T.Val}
    (hle : defaultBegin ≤ defaultEnd) :
    makeNumericSweep T dashText context createRun defaultBegin defaultEnd =
      some (some ((countUp defaultBegin defaultEnd ++ [defaultEnd]).map
        (createRun context))) := by
  have hrange := parseRange_dashText defaultBegin defaultEnd
  rw [if_pos hle] at hrange
  obtain ⟨-, -, hsweep⟩ := makeNumericSweep_of_range dashText_ne_nil
    dashText_ne_autoText context createRun hrange
  rw [hsweep, values_default hle]

/-- The range `-` of the numeric builder ends with a run for `default_end`,
which the default sweep does not have, so the two never agree. -/
theorem makeNumericSweep_not_defaultsAgree (T : UnsignedIntegral)
    (context : Context) (createRun : Context → T.Val → Run)
    {defaultBegin defaultEnd : T.Val} (hlt : defaultBegin < defaultEnd) :
    makeNumericSweep T dashText context createRun defaultBegin defaultEnd ≠
        makeNumericSweep T autoText context createRun defaultBegin
          defaultEnd ∧
      makeNumericSweep T dashText context createRun defaultBegin defaultEnd ≠
        makeNumericSweep T [] context createRun defaultBegin defaultEnd ∧
      ¬DefaultsAgree fun optStr =>
        makeNumericSweep T optStr context createRun defaultBegin
          defaultEnd := by
  have hdash := makeNumericSweep_dashText context createRun
    (BitVec.le_of_lt hlt)
  have hne : ∀ optStr, optStr = [] ∨ optStr = autoText →
      makeNumericSweep T dashText context createRun defaultBegin defaultEnd ≠
        makeNumericSweep T optStr context createRun defaultBegin
          defaultEnd := by
    intro optStr hdefault heq
    rw [hdash, makeNumericSweep_default hdefault] at heq
    have hlength := congrArg List.length (Option.some.inj (Option.some.inj heq))
    simp at hlength
  exact ⟨hne autoText (Or.inr rfl), hne [] (Or.inl rfl),
    fun hagree => hne autoText (Or.inr rfl) hagree.2⟩

theorem makeNumericSweep_not_defaultsAgree_one_four :
    makeNumericSweep uint64 dashText () (fun _ v => v.toNat) 1 4 ≠
      makeNumericSweep uint64 autoText () (fun _ v => v.toNat) 1 4 :=
  (makeNumericSweep_not_defaultsAgree uint64 () (fun _ v => v.toNat)
    (by decide)).1

/-- From 3 to 8 the range `-` runs 8, the default sweep does not. -/
theorem makeNumericSweep_dashText_three_eight :
    makeNumericSweep uint64 dashText () (fun _ v => v.toNat) 3 8 =
        some (some [3, 4, 5, 6, 7, 8]) ∧
      makeNumericSweep uint64 autoText () (fun _ v => v.toNat) 3 8 =
        some (some [3, 4, 5, 6, 7]) ∧
      ¬DefaultsAgree fun optStr =>
        makeNumericSweep uint64 optStr () (fun _ v => v.toNat) 3 8 := by
  have hdash := makeNumericSweep_dashText (T := uint64) ()
    (fun _ v => v.toNat) (show (3 : uint64.Val) ≤ 8 by decide)
  have hauto := makeNumericSweep_default (T := uint64) (Or.inr rfl) ()
    (fun _ v => v.toNat) 3 8
  rw [countUp_eq] at hdash hauto
  refine ⟨hdash, hauto, ?_⟩
  intro h
  rcases h with ⟨-, hagree⟩
  simp only [hdash, hauto] at hagree
  exact absurd hagree (by decide)

/-! ## Filtered sweeps -/

/-- A slice is the whole array only if it runs from the first to the last
index. -/
theorem slice_eq_self_iff {α : Type*} {values : List α} {start stop : ℕ}
    (hle : start ≤ stop) (hstop : stop < values.length) :
    slice values start stop = values ↔
      start = 0 ∧ stop + 1 = values.length := by
  constructor
  · intro heq
    have hlength : (slice values start stop).length = stop + 1 - start :=
      length_slice hstop
    rw [heq] at hlength
    omega
  · intro h
    rcases h with ⟨rfl, hlast⟩
    rw [slice, List.drop_zero, Nat.sub_zero, hlast, List.take_length]

theorem head?_eq_some_iff_idxOf {α : Type*} [BEq α] [LawfulBEq α]
    {values : List α} {a : α} (ha : a ∈ values) :
    values.head? = some a ↔ values.idxOf a = 0 := by
  rw [List.head?_eq_getElem?]
  constructor
  · intro hget
    cases values with
    | nil => simp at hget
    | cons v values =>
        obtain rfl : v = a := by simpa using hget
        exact List.idxOf_cons_self
  · intro hidx
    rw [← hidx]
    exact List.getElem?_idxOf ha

theorem getLast?_eq_some_iff_idxOf {α : Type*} [BEq α] [LawfulBEq α]
    {values : List α} (hnodup : values.Nodup) {a : α} (ha : a ∈ values) :
    values.getLast? = some a ↔ values.idxOf a + 1 = values.length := by
  rw [List.getLast?_eq_getElem?]
  constructor
  · intro hget
    obtain ⟨hidx, hlt⟩ := idxOf_eq_of_nodup hnodup hget
    omega
  · intro hidx
    rw [← hidx, Nat.add_sub_cancel]
    exact List.getElem?_idxOf ha

/-- Where the range of the defaults selects a slice, it is the default sweep
exactly when the slice is the whole array. -/
theorem defaultsAgree_iff_of_slice {α : Type*} [BEq α] [LawfulBEq α]
    {sweepFor : StringView → Outcome (Option (List Run))} {values : List α}
    (createRun : α → Run) (hnodup : values.Nodup) {defaultMin defaultMax : α}
    (hmin : defaultMin ∈ values) (hmax : defaultMax ∈ values)
    (hle : values.idxOf defaultMin ≤ values.idxOf defaultMax)
    (hdefault : ∀ optStr, optStr = [] ∨ optStr = autoText →
      sweepFor optStr = some (some (values.map createRun)))
    (hdash : sweepFor dashText =
      some (some ((slice values (values.idxOf defaultMin)
        (values.idxOf defaultMax)).map createRun))) :
    DefaultsAgree sweepFor ↔
      values.head? = some defaultMin ∧ values.getLast? = some defaultMax := by
  have hstop := List.idxOf_lt_length_of_mem hmax
  rw [DefaultsAgree, hdash, hdefault [] (Or.inl rfl),
    hdefault autoText (Or.inr rfl), head?_eq_some_iff_idxOf hmin,
    getLast?_eq_some_iff_idxOf hnodup hmax, ← slice_eq_self_iff hle hstop]
  constructor
  · intro h
    rcases h with ⟨-, heq⟩
    rw [slice_eq_self_iff hle hstop]
    have hlength := congrArg List.length (Option.some.inj (Option.some.inj heq))
    rw [List.length_map, List.length_map, length_slice hstop] at hlength
    omega
  · intro heq
    exact ⟨rfl, by rw [heq]⟩

theorem filterForRangeStrString_dashText {names : List StringView}
    {defaultMin defaultMax : StringView} (hmin : defaultMin ∈ names)
    (hmax : defaultMax ∈ names)
    (hle : names.idxOf defaultMin ≤ names.idxOf defaultMax) :
    filterForRangeStrString dashText names defaultMin defaultMax =
      some (slice names (names.idxOf defaultMin)
        (names.idxOf defaultMax)) := by
  have hstart := List.idxOf_lt_length_of_mem hmin
  have hstop := List.idxOf_lt_length_of_mem hmax
  rw [filterForRangeStrString, parseMinMaxStrideStr_dashText]
  simp only [List.isEmpty_nil, if_true, Bool.not_true, Bool.false_eq_true,
    if_false]
  rw [if_neg (by omega)]

theorem onStride_one {T : UnsignedIntegral} (value min : T.Val) :
    onStride value min 1 = true := by
  rw [onStride]
  split
  · rw [T.toNat_one, Int.natCast_one, Int.tmod_one, beq_self_eq_true]
  · have hmod : (value - min) % 1 = 0 := by
      apply BitVec.eq_of_toNat_eq
      rw [BitVec.toNat_umod, T.toNat_one, Nat.mod_one]
      rfl
    rw [hmod, beq_self_eq_true]

theorem filterForRangeStrIntegral_dashText {T : UnsignedIntegral}
    {values : List T.Val} {defaultMin defaultMax : T.Val}
    (hmin : defaultMin ∈ values) (hmax : defaultMax ∈ values)
    (hle : values.idxOf defaultMin ≤ values.idxOf defaultMax) :
    filterForRangeStrIntegral T dashText values defaultMin defaultMax 1 =
      if defaultMin ≤ defaultMax then
        some (slice values (values.idxOf defaultMin)
          (values.idxOf defaultMax))
      else none := by
  have hstart := List.idxOf_lt_length_of_mem hmin
  have hstop := List.idxOf_lt_length_of_mem hmax
  rw [filterForRangeStrIntegral, parseRange_dashText]
  by_cases horder : defaultMin ≤ defaultMax
  · rw [if_pos horder, if_pos horder]
    dsimp only
    rw [if_neg (by omega), if_neg T.one_ne_zero,
      List.filter_eq_self.mpr fun value _ => onStride_one value defaultMin]
  · rw [if_neg horder, if_neg horder]

/-- The default sweep of the integral builder runs all valid values. -/
theorem makeFilteredSweepIntegral_default {T : UnsignedIntegral}
    {optStr : StringView} (h : optStr = [] ∨ optStr = autoText)
    (context : Context) (values : List T.Val)
    (createRun : Context → T.Val → Run) (defaultMin defaultMax : T.Val) :
    makeFilteredSweepIntegral T optStr context values createRun defaultMin
      defaultMax = some (some (values.map (createRun context))) :=
  sweep_default h _ _ _ _

/-- When the defaults are numerically out of order, the integral builder takes
`-` for a list and rejects it. -/
theorem makeFilteredSweepIntegral_dashText_of_lt {T : UnsignedIntegral}
    (context : Context) (createRun : Context → T.Val → Run)
    {values : List T.Val} {defaultMin defaultMax : T.Val}
    (hnone : filterForRangeStrIntegral T dashText values defaultMin
      defaultMax 1 = none) :
    makeFilteredSweepIntegral T dashText context values createRun defaultMin
      defaultMax = some none := by
  have htokens : dashText.splitOn ',' = [dashText] := by decide
  have hparse : parseInt T dashText = none := by
    rw [parseInt_eq, if_neg]
    intro h
    rcases h with ⟨-, hdigits, -⟩
    exact absurd (hdigits '-' (by decide)) (by decide)
  rw [makeFilteredSweepIntegral, hnone,
    sweep_of_tokens dashText_ne_nil dashText_ne_autoText,
    funext (find?_parseInt T values), htokens, List.mapM_cons, hparse]
  rfl

/-- Over distinct valid values the default sweep of a filtered builder is its
`-` range exactly when the defaults are the first and the last valid value, and
for integral values are also in numeric order. -/
theorem makeFilteredSweep_defaultsAgree_iff (context : Context)
    {names : List StringView} (hnames : names.Nodup)
    (createNamed : Context → StringView → Run)
    {defaultMinName defaultMaxName : StringView}
    (hminName : defaultMinName ∈ names) (hmaxName : defaultMaxName ∈ names)
    (hnameOrder : names.idxOf defaultMinName ≤ names.idxOf defaultMaxName)
    (T : UnsignedIntegral) {values : List T.Val} (hvalues : values.Nodup)
    (createRun : Context → T.Val → Run) {defaultMin defaultMax : T.Val}
    (hmin : defaultMin ∈ values) (hmax : defaultMax ∈ values)
    (horder : values.idxOf defaultMin ≤ values.idxOf defaultMax) :
    (DefaultsAgree (fun optStr => makeFilteredSweepString optStr context names
          createNamed defaultMinName defaultMaxName) ↔
        names.head? = some defaultMinName ∧
          names.getLast? = some defaultMaxName) ∧
      (DefaultsAgree (fun optStr => makeFilteredSweepIntegral T optStr context
          values createRun defaultMin defaultMax) ↔
        values.head? = some defaultMin ∧ values.getLast? = some defaultMax ∧
          defaultMin ≤ defaultMax) := by
  constructor
  · apply defaultsAgree_iff_of_slice (createNamed context) hnames hminName
      hmaxName hnameOrder
    · intro optStr hdefault
      exact sweep_default hdefault _ _ _ _
    · have hslice :=
        filterForRangeStrString_dashText hminName hmaxName hnameOrder
      rw [makeFilteredSweepString, hslice]
      exact sweep_of_ranged dashText_ne_nil dashText_ne_autoText
        (filterForRangeStrString_ne_nil hslice) _ _ _
  · have hfilter := filterForRangeStrIntegral_dashText hmin hmax horder
    by_cases hle : defaultMin ≤ defaultMax
    · rw [if_pos hle] at hfilter
      simp only [hle, and_true]
      apply defaultsAgree_iff_of_slice (createRun context) hvalues hmin hmax
        horder
      · intro optStr hdefault
        exact makeFilteredSweepIntegral_default hdefault _ _ _ _ _
      · rw [makeFilteredSweepIntegral, hfilter]
        exact sweep_of_ranged dashText_ne_nil dashText_ne_autoText
          (filterForRangeStrIntegral_ne_nil hfilter) _ _ _
    · rw [if_neg hle] at hfilter
      simp only [hle, and_false, iff_false]
      intro h
      rcases h with ⟨-, hagree⟩
      simp only [makeFilteredSweepIntegral_dashText_of_lt context createRun
        hfilter, makeFilteredSweepIntegral_default (Or.inr rfl)] at hagree
      exact absurd hagree (by simp)

/-- Two names that the defaults span and the sizes of the tests, which they do
not. -/
theorem makeFilteredSweep_defaultsAgree_iff_sizes :
    (DefaultsAgree fun optStr =>
        makeFilteredSweepString optStr () ["sse2".toList, "avx".toList]
          (fun _ name => name) "sse2".toList "avx".toList) ∧
      ¬DefaultsAgree fun optStr =>
        makeFilteredSweepIntegral uint64 optStr () [4, 5, 7, 11]
          (fun _ v => Nat.toDigits 10 v.toNat) 5 11 := by
  obtain ⟨hstring, hintegral⟩ := makeFilteredSweep_defaultsAgree_iff ()
    (show ["sse2".toList, "avx".toList].Nodup by decide) (fun _ name => name)
    (show "sse2".toList ∈ ["sse2".toList, "avx".toList] by decide)
    (show "avx".toList ∈ ["sse2".toList, "avx".toList] by decide) (by decide)
    uint64 (show List.Nodup ([4, 5, 7, 11] : List uint64.Val) by decide)
    (fun _ v => Nat.toDigits 10 v.toNat)
    (show (5 : uint64.Val) ∈ [4, 5, 7, 11] by decide)
    (show (11 : uint64.Val) ∈ [4, 5, 7, 11] by decide) (by decide)
  exact ⟨hstring.mpr (by decide), fun h => absurd (hintegral.mp h) (by decide)⟩

/-- Over the sizes 4, 5, 7 and 11 with the defaults 5 and 11 the range `-`
leaves out the first size, the default sweep does not. -/
theorem makeFilteredSweepIntegral_dashText_sizes :
    makeFilteredSweepIntegral uint64 dashText () [4, 5, 7, 11]
        (fun _ v => v.toNat) 5 11 = some (some [5, 7, 11]) ∧
      makeFilteredSweepIntegral uint64 autoText () [4, 5, 7, 11]
        (fun _ v => v.toNat) 5 11 = some (some [4, 5, 7, 11]) := by
  decide

end BenchBox
