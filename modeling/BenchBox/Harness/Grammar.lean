import BenchBox.Harness.Range

/-!
# The grammar of range specifications

A specification is a range part and, after the first colon, a stride part.  The
range part is empty, a numeral, or two parts around its first dash; each part may
be omitted.  `parse_range` accepts exactly these texts and computes what they
denote.
-/

namespace BenchBox

/-! ## Splitting at a separator -/

/-- The text before the first `c`, all of it if there is none. -/
def beforeFirst (c : Char) (sv : StringView) : StringView :=
  sv.takeWhile (· != c)

/-- The text after the first `c`, nothing if there is none. -/
def afterFirst (c : Char) (sv : StringView) : StringView :=
  (sv.dropWhile (· != c)).tail

theorem beforeFirst_append {c : Char} {a : StringView} (ha : c ∉ a)
    (b : StringView) : beforeFirst c (a ++ c :: b) = a := by
  have hall : ∀ d ∈ a, (d != c) = true := fun d hd =>
    bne_iff_ne.mpr fun heq => ha (heq ▸ hd)
  rw [beforeFirst, List.takeWhile_append_of_pos hall,
    List.takeWhile_cons_of_neg (by simp), List.append_nil]

theorem afterFirst_append {c : Char} {a : StringView} (ha : c ∉ a)
    (b : StringView) : afterFirst c (a ++ c :: b) = b := by
  have hall : ∀ d ∈ a, (d != c) = true := fun d hd =>
    bne_iff_ne.mpr fun heq => ha (heq ▸ hd)
  rw [afterFirst, List.dropWhile_append_of_pos hall,
    List.dropWhile_cons_of_neg (by simp), List.tail_cons]

theorem beforeFirst_of_notMem {c : Char} {sv : StringView} (h : c ∉ sv) :
    beforeFirst c sv = sv := by
  rw [beforeFirst, List.takeWhile_eq_self_iff]
  exact fun d hd => bne_iff_ne.mpr fun heq => h (heq ▸ hd)

theorem afterFirst_of_notMem {c : Char} {sv : StringView} (h : c ∉ sv) :
    afterFirst c sv = [] := by
  rw [afterFirst, List.dropWhile_eq_nil_iff.mpr]
  · rfl
  · exact fun d hd => bne_iff_ne.mpr fun heq => h (heq ▸ hd)

/-- A text with a separator is what stands before it and after it. -/
theorem beforeFirst_append_afterFirst {c : Char} {sv : StringView}
    (h : c ∈ sv) : beforeFirst c sv ++ c :: afterFirst c sv = sv := by
  obtain ⟨a, b, rfl, ha⟩ := List.eq_append_cons_of_mem h
  rw [beforeFirst_append ha, afterFirst_append ha]

theorem notMem_beforeFirst (c : Char) (sv : StringView) :
    c ∉ beforeFirst c sv := by
  intro hmem
  simpa using List.mem_takeWhile_imp hmem

/-- What a search from the start says about the two parts. -/
theorem find_zero_cases (sv : StringView) (c : Char) :
    (find sv c 0 = none ∧ c ∉ sv) ∨
      ∃ pos, find sv c 0 = some pos ∧ c ∈ sv ∧
        substr sv 0 (some pos) = beforeFirst c sv ∧
        substr sv (pos + 1) none = afterFirst c sv := by
  cases hfind : find sv c 0 with
  | none => exact Or.inl ⟨rfl, by simpa using find_eq_none hfind⟩
  | some pos =>
      obtain ⟨hfresh, hsplit⟩ := find_eq_some hfind
      rw [Nat.sub_zero] at hfresh hsplit
      rw [List.drop_zero] at hsplit
      refine Or.inr ⟨pos, rfl, ?_, ?_, ?_⟩
      · rw [hsplit]
        simp
      · rw [← beforeFirst_append hfresh (sv.drop (pos + 1)), ← hsplit]
      · conv_rhs => rw [hsplit]
        exact (afterFirst_append hfresh _).symm

/-! ## The tokens -/

/-- `parse_min_max_stride_str` splits at the first colon, and what stands before
it at the first dash; without a dash it is both bounds. -/
theorem parseMinMaxStrideStr_eq (str : StringView) :
    parseMinMaxStrideStr str =
      { min := beforeFirst '-' (beforeFirst ':' str)
        max :=
          if '-' ∈ beforeFirst ':' str then
            afterFirst '-' (beforeFirst ':' str)
          else
            beforeFirst ':' str
        stride := afterFirst ':' str } := by
  unfold parseMinMaxStrideStr
  extract_lets colonPos rangePart stridePart noToken output
  have hparts : rangePart = beforeFirst ':' str ∧
      stridePart = afterFirst ':' str := by
    rcases find_zero_cases str ':' with
      ⟨hnone, hmem⟩ | ⟨pos, hsome, -, hbefore, hafter⟩
    · rw [beforeFirst_of_notMem hmem, afterFirst_of_notMem hmem]
      simp only [rangePart, stridePart, colonPos, hnone]
      exact ⟨rfl, trivial⟩
    · simp only [rangePart, stridePart, colonPos, hsome]
      exact ⟨hbefore, hafter⟩
  -- an omitted token is the empty view its field starts from
  have hset {α : Type} (f : StringView → α) (sv : StringView) :
      (if !sv.isEmpty then f sv else f []) = f sv := by
    cases sv <;> rfl
  have houtput : output = { stride := stridePart } :=
    hset (fun sv => ({ stride := sv } : MinMaxStrideStrParsed)) stridePart
  rw [← hparts.1, ← hparts.2, houtput]
  clear_value rangePart stridePart
  rcases find_zero_cases rangePart '-' with
    ⟨hnone, hmem⟩ | ⟨dash, hsome, hmem, hmin, hmax⟩
  · rw [hnone, if_neg hmem, beforeFirst_of_notMem hmem]
    exact hset (fun sv => (⟨sv, sv, stridePart⟩ : MinMaxStrideStrParsed))
      rangePart
  · rw [hsome, if_pos hmem]
    dsimp only
    rw [hmin, hmax]
    rw [hset (fun sv => (⟨sv, [], stridePart⟩ : MinMaxStrideStrParsed))]
    exact hset (fun sv =>
      (⟨beforeFirst '-' rangePart, sv, stridePart⟩ : MinMaxStrideStrParsed)) _

/-! ## The grammar and its meaning -/

variable {T : UnsignedIntegral}

/-- `v` is what an optional numeral stands for: its value, or the default if it
is omitted. -/
def Denotes (sv : StringView) (default v : T.Val) : Prop :=
  (sv = [] ∧ v = default) ∨
    (IsNumeral T.bits sv ∧ v.toNat = Nat.ofDigitChars 10 sv 0)

/-- The range parts and the bounds they stand for. -/
inductive RangeText (defaultMin defaultMax : T.Val) :
    StringView → T.Val → T.Val → Prop
  | omitted : RangeText defaultMin defaultMax [] defaultMin defaultMax
  | single {sv : StringView} {v : T.Val} (hnumeral : IsNumeral T.bits sv)
      (hv : v.toNat = Nat.ofDigitChars 10 sv 0) :
      RangeText defaultMin defaultMax sv v v
  | bounds {minStr maxStr : StringView} {min max : T.Val}
      (hfirst : '-' ∉ minStr) (hmin : Denotes minStr defaultMin min)
      (hmax : Denotes maxStr defaultMax max) :
      RangeText defaultMin defaultMax (minStr ++ '-' :: maxStr) min max

theorem parseInt_eq_some_iff {sv : StringView} {v : T.Val} :
    parseInt T sv = some v ↔
      IsNumeral T.bits sv ∧ v.toNat = Nat.ofDigitChars 10 sv 0 := by
  rw [parseInt_eq]
  constructor
  · intro h
    split at h
    next hnumeral =>
      refine ⟨hnumeral, ?_⟩
      rw [← Option.some.inj h, BitVec.toNat_ofNat,
        Nat.mod_eq_of_lt hnumeral.2.2]
    next => simp at h
  · intro h
    obtain ⟨hnumeral, hv⟩ := h
    rw [if_pos hnumeral, ← hv, BitVec.ofNat_toNat, BitVec.setWidth_eq]

theorem parseOr_eq_some_iff {sv : StringView} {default v : T.Val} :
    parseOr T sv default = some v ↔ Denotes sv default v := by
  rw [parseOr, Denotes, ← parseInt_eq_some_iff]
  cases sv with
  | nil =>
      have hnone : parseInt T [] = none := rfl
      rw [hnone]
      simp [eq_comm]
  | cons c sv => simp

/-- A numeral has no dash. -/
theorem IsNumeral.dash_notMem {bits : ℕ} {sv : StringView}
    (h : IsNumeral bits sv) : '-' ∉ sv := fun hmem =>
  absurd (h.2.1 '-' hmem) (by decide)

/-- A range part is read as the two tokens it is split into. -/
theorem rangeText_iff {sv : StringView} {defaultMin defaultMax min max : T.Val} :
    RangeText defaultMin defaultMax sv min max ↔
      Denotes (beforeFirst '-' sv) defaultMin min ∧
        Denotes (if '-' ∈ sv then afterFirst '-' sv else sv) defaultMax max := by
  constructor
  · intro h
    cases h with
    | omitted => exact ⟨Or.inl ⟨rfl, rfl⟩, Or.inl ⟨rfl, rfl⟩⟩
    | single hnumeral hv =>
        have hdash := hnumeral.dash_notMem
        rw [beforeFirst_of_notMem hdash, if_neg hdash]
        exact ⟨Or.inr ⟨hnumeral, hv⟩, Or.inr ⟨hnumeral, hv⟩⟩
    | bounds hfirst hmin hmax =>
        rw [beforeFirst_append hfirst, afterFirst_append hfirst,
          if_pos (by simp)]
        exact ⟨hmin, hmax⟩
  · intro h
    obtain ⟨hmin, hmax⟩ := h
    by_cases hdash : '-' ∈ sv
    · rw [if_pos hdash] at hmax
      rw [← beforeFirst_append_afterFirst hdash]
      exact RangeText.bounds (notMem_beforeFirst '-' sv) hmin hmax
    · rw [beforeFirst_of_notMem hdash] at hmin
      rw [if_neg hdash] at hmax
      rcases hmin with ⟨rfl, rfl⟩ | ⟨hnumeral, hv⟩
      · rcases hmax with ⟨-, rfl⟩ | ⟨hnumeral, -⟩
        · exact RangeText.omitted
        · exact absurd rfl hnumeral.1
      · rcases hmax with ⟨rfl, -⟩ | ⟨-, hv'⟩
        · exact absurd rfl hnumeral.1
        · obtain rfl : min = max := BitVec.eq_of_toNat_eq (hv.trans hv'.symm)
          exact RangeText.single hnumeral hv

/-- `parse_range` returns the defaults on the empty text and on `auto`, and on
any other text the range it denotes, provided that is nonempty and its stride is
not zero. -/
theorem parseRange_eq_some_iff (T : UnsignedIntegral) (str : StringView)
    (defaultMin defaultMax defaultStride : T.Val) (range : ParsedRangeInt T) :
    parseRange T str defaultMin defaultMax defaultStride = some range ↔
      ((str = [] ∨ str = autoText) ∧
        range = ⟨defaultMin, defaultMax, defaultStride⟩) ∨
      (str ≠ [] ∧ str ≠ autoText ∧
        RangeText defaultMin defaultMax (beforeFirst ':' str) range.min
          range.max ∧
        Denotes (afterFirst ':' str) defaultStride range.stride ∧
        range.min ≤ range.max ∧ range.stride ≠ 0) := by
  by_cases hdefault : str = [] ∨ str = autoText
  · have hexplicit : ¬(str ≠ [] ∧ str ≠ autoText) := by tauto
    rw [parseRange, if_pos (by simpa using hdefault), Option.some.injEq,
      eq_comm]
    tauto
  · obtain ⟨hne, hauto⟩ := not_or.mp hdefault
    rw [parseRange_eq_some_iff_tokens hne hauto, parseMinMaxStrideStr_eq,
      rangeText_iff, ← parseOr_eq_some_iff, ← parseOr_eq_some_iff,
      ← parseOr_eq_some_iff]
    tauto

end BenchBox
