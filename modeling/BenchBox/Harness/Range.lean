import BenchBox.Parse
import Mathlib.Order.Basic

/-!
# Range specifications

The range half of `harness_helpers.h`: splitting a `min-max:stride` text,
reading it as a range of an unsigned integer type, filtering an array of valid
values by it and expanding it.  An iterator into an array is its index, and
`end()` is the length.
-/

namespace BenchBox

/-- The outcome of a call, `none` if it never returns. -/
abbrev Outcome (α : Type u) := Option α

/-! ## Tokens -/

structure MinMaxStrideStrParsed where
  min : StringView := []
  max : StringView := []
  stride : StringView := []
deriving DecidableEq, Repr

/-- `parse_min_max_stride_str`. -/
def parseMinMaxStrideStr (str : StringView) : MinMaxStrideStrParsed :=
  let colonPos := find str ':' 0
  let rangePart := substr str 0 colonPos
  let stridePart :=
    match colonPos with
    | none => []
    | some pos => substr str (pos + 1) none
  let output : MinMaxStrideStrParsed := {}
  let output :=
    if !stridePart.isEmpty then { output with stride := stridePart } else output
  match find rangePart '-' 0 with
  | none =>
      if !rangePart.isEmpty then
        { output with min := rangePart, max := rangePart }
      else
        output
  | some dashPos =>
      let minStr := substr rangePart 0 (some dashPos)
      let maxStr := substr rangePart (dashPos + 1) none
      let output :=
        if !minStr.isEmpty then { output with min := minStr } else output
      if !maxStr.isEmpty then { output with max := maxStr } else output

/-! ## Ranges of an unsigned integer type -/

structure ParsedRangeInt (T : UnsignedIntegral) where
  min : T.Val := 0
  max : T.Val := 0
  stride : T.Val := 0
deriving DecidableEq

/-- One optional number of `parse_range`: the default if it is omitted, `none`
if it is present and does not parse. -/
def parseOr (T : UnsignedIntegral) (sv : StringView) (default : T.Val) :
    Option T.Val :=
  if !sv.isEmpty then parseInt T sv else some default

/-- `parse_range`. -/
def parseRange (T : UnsignedIntegral) (str : StringView)
    (defaultMin defaultMax defaultStride : T.Val) :
    Option (ParsedRangeInt T) :=
  if str.isEmpty ∨ str = autoText then
    some ⟨defaultMin, defaultMax, defaultStride⟩
  else
    let rangeStrParsed := parseMinMaxStrideStr str
    match parseOr T rangeStrParsed.min defaultMin with
    | none => none
    | some min =>
      match parseOr T rangeStrParsed.max defaultMax with
      | none => none
      | some max =>
        match parseOr T rangeStrParsed.stride defaultStride with
        | none => none
        | some stride =>
          if min > max then
            none
          else if stride = 0 then
            none
          else
            some ⟨min, max, stride⟩

/-- The loop of `expand_range` for at most `fuel` rounds; `none` if they do not
suffice. -/
def expandRangeLoop {T : UnsignedIntegral} (range : ParsedRangeInt T) :
    ℕ → T.Val → List T.Val → Outcome (List T.Val)
  | 0, _, _ => none
  | fuel + 1, val, out =>
      if val ≤ range.max then
        if range.stride > range.max - val then
          some (out ++ [val])
        else
          expandRangeLoop range fuel (val + range.stride) (out ++ [val])
      else
        some out

/-- `expand_range`.  The fuel exceeds the number of values of the type, so only
a loop that repeats a value runs out of it. -/
def expandRange {T : UnsignedIntegral} (range : ParsedRangeInt T) :
    Outcome (List T.Val) :=
  expandRangeLoop range (2 ^ T.bits + 1) range.min []

/-! ## Filtering an array of valid values -/

/-- The elements from index `start` to index `stop`, both included. -/
def slice {α : Type*} (values : List α) (start stop : ℕ) : List α :=
  (values.drop start).take (stop + 1 - start)

/-- The test `((value - min) % stride) == 0`.  Types narrower than `int` are
promoted, so their difference may be negative. -/
def onStride {T : UnsignedIntegral} (value min stride : T.Val) : Bool :=
  if T.bits < 32 then
    ((value.toNat : ℤ) - min.toNat).tmod stride.toNat == 0
  else
    (value - min) % stride == 0

/-- `filter_for_range_str` on integral values. -/
def filterForRangeStrIntegral (T : UnsignedIntegral) (str : StringView)
    (values : List T.Val) (defaultMin defaultMax defaultStride : T.Val) :
    Option (List T.Val) :=
  match parseRange T str defaultMin defaultMax defaultStride with
  | none => none
  | some parsedRange =>
      let start := values.idxOf parsedRange.min
      let stop := values.idxOf parsedRange.max
      let stride := parsedRange.stride
      if start = values.length ∨ stop = values.length ∨ start > stop then
        none
      else if stride = 0 then
        none
      else
        some ((slice values start stop).filter fun value =>
          onStride value parsedRange.min stride)

/-- `filter_for_range_str` on names. -/
def filterForRangeStrString (str : StringView) (values : List StringView)
    (defaultMin defaultMax : StringView) : Option (List StringView) :=
  let tokens := parseMinMaxStrideStr str
  let start := values.idxOf (if tokens.min.isEmpty then defaultMin else tokens.min)
  let stop := values.idxOf (if tokens.max.isEmpty then defaultMax else tokens.max)
  if start = values.length ∨ stop = values.length ∨ start > stop then
    none
  else if !tokens.stride.isEmpty then
    none
  else
    some (slice values start stop)

/-! ## What `parse_range` accepts -/

/-- `parse_range` on a text that is neither empty nor `auto`, token by token. -/
theorem parseRange_eq_some_iff_tokens {T : UnsignedIntegral}
    {str : StringView} (hne : str ≠ []) (hauto : str ≠ autoText)
    {defaultMin defaultMax defaultStride : T.Val} {range : ParsedRangeInt T} :
    parseRange T str defaultMin defaultMax defaultStride = some range ↔
      parseOr T (parseMinMaxStrideStr str).min defaultMin = some range.min ∧
      parseOr T (parseMinMaxStrideStr str).max defaultMax = some range.max ∧
      parseOr T (parseMinMaxStrideStr str).stride defaultStride =
        some range.stride ∧
      range.min ≤ range.max ∧ range.stride ≠ 0 := by
  rw [parseRange, if_neg (by simp [hne, hauto])]
  dsimp only
  cases parseOr T (parseMinMaxStrideStr str).min defaultMin with
  | none => simp
  | some min =>
      cases parseOr T (parseMinMaxStrideStr str).max defaultMax with
      | none => simp
      | some max =>
          cases parseOr T (parseMinMaxStrideStr str).stride defaultStride with
          | none => simp
          | some stride =>
              dsimp only
              split
              next hgt =>
                simp only [reduceCtorEq, Option.some.injEq, false_iff]
                intro h
                rcases h with ⟨rfl, rfl, -, hle, -⟩
                exact absurd hle (BitVec.not_le.mpr hgt)
              next hle =>
                split
                next hzero =>
                  simp only [reduceCtorEq, Option.some.injEq, false_iff]
                  intro h
                  rcases h with ⟨-, -, rfl, -, hstride⟩
                  exact hstride hzero
                next hstride =>
                  simp only [Option.some.injEq]
                  constructor
                  · intro h
                    rcases h with rfl
                    exact ⟨rfl, rfl, rfl, BitVec.not_lt.mp hle, hstride⟩
                  · intro h
                    rcases h with ⟨rfl, rfl, rfl, -, -⟩
                    rfl

/-- An accepted range is nonempty and has a nonzero stride. -/
theorem parseRange_valid {T : UnsignedIntegral} {str : StringView}
    {defaultMin defaultMax defaultStride : T.Val} {range : ParsedRangeInt T}
    (hne : str ≠ []) (hauto : str ≠ autoText)
    (h : parseRange T str defaultMin defaultMax defaultStride = some range) :
    range.min ≤ range.max ∧ range.stride ≠ 0 :=
  ((parseRange_eq_some_iff_tokens hne hauto).mp h).2.2.2

/-! ## The expansion loop -/

/-- An arithmetic progression opens with its first value. -/
theorem map_range_succ_progression {w : ℕ} (val : BitVec w) (stride n : ℕ) :
    (List.range (n + 1)).map
        (fun k => BitVec.ofNat w (val.toNat + k * stride)) =
      val :: (List.range n).map fun k =>
        BitVec.ofNat w (val.toNat + stride + k * stride) := by
  rw [List.range_succ_eq_map, List.map_cons, List.map_map]
  congr 1
  · simp
  · apply List.map_congr_left
    intro k _
    rw [Function.comp_apply, Nat.succ_mul, Nat.add_assoc, Nat.add_comm stride]

theorem ParsedRangeInt.stride_pos {T : UnsignedIntegral}
    {range : ParsedRangeInt T} (h : range.stride ≠ 0) :
    0 < range.stride.toNat := by
  rw [Nat.pos_iff_ne_zero]
  intro hzero
  exact h (BitVec.eq_of_toNat_eq (by simpa using hzero))

/-- With enough fuel the loop lists the values from `val` by steps of the
stride, as long as they do not exceed the maximum. -/
theorem expandRangeLoop_eq {T : UnsignedIntegral} {range : ParsedRangeInt T}
    (hstride : range.stride ≠ 0) {fuel : ℕ} {val : T.Val}
    (out : List T.Val) (hval : val ≤ range.max)
    (hfuel : (range.max.toNat - val.toNat) / range.stride.toNat < fuel) :
    expandRangeLoop range fuel val out =
      some (out ++ (List.range
        ((range.max.toNat - val.toNat) / range.stride.toNat + 1)).map fun k =>
          BitVec.ofNat T.bits (val.toNat + k * range.stride.toNat)) := by
  have hpos := range.stride_pos hstride
  induction fuel generalizing val out with
  | zero => exact absurd hfuel (Nat.not_lt_zero _)
  | succ fuel ih =>
      have hle : val.toNat ≤ range.max.toNat := BitVec.le_def.mp hval
      have hsub : (range.max - val).toNat = range.max.toNat - val.toNat :=
        BitVec.toNat_sub_of_le hval
      rw [expandRangeLoop, if_pos hval]
      split
      next hlast =>
        have hdiv : (range.max.toNat - val.toNat) / range.stride.toNat = 0 := by
          apply Nat.div_eq_of_lt
          rw [← hsub]
          exact BitVec.lt_def.mp hlast
        simp [hdiv]
      next hmore =>
        have hstep : range.stride.toNat ≤ range.max.toNat - val.toNat := by
          rw [← hsub]
          exact BitVec.le_def.mp (BitVec.not_lt.mp hmore)
        have hnext : (val + range.stride).toNat =
            val.toNat + range.stride.toNat := by
          rw [BitVec.toNat_add, Nat.mod_eq_of_lt]
          have hmax := range.max.isLt
          omega
        have hdiv : (range.max.toNat - val.toNat) / range.stride.toNat =
            (range.max.toNat - (val + range.stride).toNat) /
              range.stride.toNat + 1 := by
          rw [Nat.div_eq_sub_div hpos hstep, hnext, Nat.sub_add_eq]
        have hle' : val + range.stride ≤ range.max := by
          rw [BitVec.le_def, hnext]
          omega
        rw [ih (out ++ [val]) hle' (by omega), hdiv,
          map_range_succ_progression val, hnext, List.append_assoc,
          List.singleton_append]

/-- The values a range denotes, without wrap-around. -/
def ParsedRangeInt.values {T : UnsignedIntegral} (range : ParsedRangeInt T) :
    List T.Val :=
  (List.range
    ((range.max.toNat - range.min.toNat) / range.stride.toNat + 1)).map fun k =>
      BitVec.ofNat T.bits (range.min.toNat + k * range.stride.toNat)

/-- A nonempty range with a nonzero stride expands to its values. -/
theorem expandRange_eq {T : UnsignedIntegral} {range : ParsedRangeInt T}
    (hle : range.min ≤ range.max) (hstride : range.stride ≠ 0) :
    expandRange range = some range.values := by
  have hfuel : (range.max.toNat - range.min.toNat) / range.stride.toNat <
      2 ^ T.bits + 1 := by
    have hdiv := Nat.div_le_self (range.max.toNat - range.min.toNat)
      range.stride.toNat
    have hmax := range.max.isLt
    omega
  rw [expandRange, expandRangeLoop_eq hstride [] hle hfuel]
  rfl

theorem ParsedRangeInt.values_ne_nil {T : UnsignedIntegral}
    (range : ParsedRangeInt T) : range.values ≠ [] := by
  simp [ParsedRangeInt.values]

/-! ## What the filters return -/

/-- An element within the slice bounds is present. -/
theorem mem_slice_start {α : Type*} {values : List α} {start stop : ℕ} {a : α}
    (hget : values[start]? = some a) (hle : start ≤ stop) :
    a ∈ slice values start stop := by
  obtain ⟨hlt, rfl⟩ := List.getElem?_eq_some_iff.mp hget
  rw [slice, List.drop_eq_getElem_cons hlt,
    show stop + 1 - start = stop - start + 1 by omega, List.take_succ_cons]
  exact List.mem_cons_self

theorem length_slice {α : Type*} {values : List α} {start stop : ℕ}
    (hstop : stop < values.length) :
    (slice values start stop).length = stop + 1 - start := by
  rw [slice, List.length_take, List.length_drop]
  omega

/-- The first value of a range is on its stride. -/
theorem onStride_min {T : UnsignedIntegral} (min stride : T.Val) :
    onStride min min stride = true := by
  rw [onStride]
  split
  · simp
  · simp

/-- What the filters have checked once they start collecting. -/
theorem getElem?_of_bounds {α : Type*} [BEq α] [LawfulBEq α] {values : List α}
    {a b : α}
    (h : ¬(values.idxOf a = values.length ∨ values.idxOf b = values.length ∨
      values.idxOf a > values.idxOf b)) :
    values[values.idxOf a]? = some a ∧ values[values.idxOf b]? = some b ∧
      values.idxOf a ≤ values.idxOf b := by
  simp only [not_or, not_lt] at h
  obtain ⟨hstart, hstop, hle⟩ := h
  have ha : a ∈ values := List.idxOf_lt_length_iff.mp
    (lt_of_le_of_ne List.idxOf_le_length hstart)
  have hb : b ∈ values := List.idxOf_lt_length_iff.mp
    (lt_of_le_of_ne List.idxOf_le_length hstop)
  exact ⟨List.getElem?_idxOf ha, List.getElem?_idxOf hb, hle⟩

/-- The integral filter checks the bounds and the stride before it collects. -/
theorem eq_of_filterForRangeStrIntegral {T : UnsignedIntegral}
    {str : StringView} {values : List T.Val}
    {defaultMin defaultMax defaultStride : T.Val} {result : List T.Val}
    (h : filterForRangeStrIntegral T str values defaultMin defaultMax
      defaultStride = some result) :
    ∃ range, parseRange T str defaultMin defaultMax defaultStride =
        some range ∧
      values[values.idxOf range.min]? = some range.min ∧
      values[values.idxOf range.max]? = some range.max ∧
      values.idxOf range.min ≤ values.idxOf range.max ∧
      range.stride ≠ 0 ∧
      result = (slice values (values.idxOf range.min)
        (values.idxOf range.max)).filter fun value =>
          onStride value range.min range.stride := by
  rw [filterForRangeStrIntegral] at h
  split at h
  next => simp at h
  next range hrange =>
    dsimp only at h
    split at h
    next => simp at h
    next hbounds =>
      split at h
      next => simp at h
      next hstride =>
        obtain ⟨hstart, hstop, hle⟩ := getElem?_of_bounds hbounds
        exact ⟨range, hrange, hstart, hstop, hle, hstride,
          (Option.some.inj h).symm⟩

/-- The first value of the range is among those that are collected. -/
theorem filterForRangeStrIntegral_ne_nil {T : UnsignedIntegral}
    {str : StringView} {values : List T.Val}
    {defaultMin defaultMax defaultStride : T.Val} {result : List T.Val}
    (h : filterForRangeStrIntegral T str values defaultMin defaultMax
      defaultStride = some result) : result ≠ [] := by
  obtain ⟨range, -, hstart, -, hle, -, rfl⟩ :=
    eq_of_filterForRangeStrIntegral h
  apply List.ne_nil_of_mem (a := range.min)
  rw [List.mem_filter]
  exact ⟨mem_slice_start hstart hle, onStride_min _ _⟩

/-- The name a range over an array of names starts from. -/
def MinMaxStrideStrParsed.minOr (tokens : MinMaxStrideStrParsed)
    (defaultMin : StringView) : StringView :=
  if tokens.min.isEmpty then defaultMin else tokens.min

/-- The name a range over an array of names ends at. -/
def MinMaxStrideStrParsed.maxOr (tokens : MinMaxStrideStrParsed)
    (defaultMax : StringView) : StringView :=
  if tokens.max.isEmpty then defaultMax else tokens.max

/-- In an array without repetitions an element is found at its index. -/
theorem idxOf_eq_of_nodup {α : Type*} [BEq α] [LawfulBEq α] {values : List α}
    (hnodup : values.Nodup) {a : α} {i : ℕ} (hget : values[i]? = some a) :
    values.idxOf a = i ∧ i < values.length := by
  obtain ⟨hlt, rfl⟩ := List.getElem?_eq_some_iff.mp hget
  exact ⟨hnodup.idxOf_getElem i hlt, hlt⟩

theorem eq_of_filterForRangeStrString {str : StringView}
    {values : List StringView} {defaultMin defaultMax : StringView}
    {result : List StringView}
    (h : filterForRangeStrString str values defaultMin defaultMax =
      some result) :
    (parseMinMaxStrideStr str).stride = [] ∧
      ∃ i j, i ≤ j ∧
        values[i]? = some ((parseMinMaxStrideStr str).minOr defaultMin) ∧
        values[j]? = some ((parseMinMaxStrideStr str).maxOr defaultMax) ∧
        result = slice values i j := by
  rw [filterForRangeStrString, ← MinMaxStrideStrParsed.minOr,
    ← MinMaxStrideStrParsed.maxOr] at h
  generalize (parseMinMaxStrideStr str).minOr defaultMin = minName at h ⊢
  generalize (parseMinMaxStrideStr str).maxOr defaultMax = maxName at h ⊢
  split at h
  next => simp at h
  next hbounds =>
    split at h
    next => simp at h
    next hstride =>
      obtain ⟨hmin, hmax, hle⟩ := getElem?_of_bounds hbounds
      exact ⟨by simpa using hstride, _, _, hle, hmin, hmax,
        (Option.some.inj h).symm⟩

/-- Over distinct names the filter returns the slice between the two names, and
only if no stride is given. -/
theorem filterForRangeStrString_eq_some_iff {str : StringView}
    {values : List StringView} (hnodup : values.Nodup)
    {defaultMin defaultMax : StringView} {result : List StringView} :
    filterForRangeStrString str values defaultMin defaultMax = some result ↔
      (parseMinMaxStrideStr str).stride = [] ∧
        ∃ i j, i ≤ j ∧
          values[i]? = some ((parseMinMaxStrideStr str).minOr defaultMin) ∧
          values[j]? = some ((parseMinMaxStrideStr str).maxOr defaultMax) ∧
          result = slice values i j := by
  constructor
  · exact eq_of_filterForRangeStrString
  · intro h
    rcases h with ⟨hstride, i, j, hle, hmin, hmax, rfl⟩
    obtain ⟨hi, hilt⟩ := idxOf_eq_of_nodup hnodup hmin
    obtain ⟨hj, hjlt⟩ := idxOf_eq_of_nodup hnodup hmax
    rw [filterForRangeStrString, ← MinMaxStrideStrParsed.minOr,
      ← MinMaxStrideStrParsed.maxOr, hi, hj, if_neg (by omega),
      if_neg (by simp [hstride])]

theorem filterForRangeStrString_ne_nil {str : StringView}
    {values : List StringView} {defaultMin defaultMax : StringView}
    {result : List StringView}
    (h : filterForRangeStrString str values defaultMin defaultMax =
      some result) : result ≠ [] := by
  obtain ⟨-, i, j, hle, hmin, -, rfl⟩ := eq_of_filterForRangeStrString h
  exact List.ne_nil_of_mem (mem_slice_start hmin hle)

end BenchBox
