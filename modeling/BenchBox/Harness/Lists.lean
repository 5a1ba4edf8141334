import BenchBox.Harness.Grammar
import BenchBox.Harness.Sweep

/-!
# Comma-separated values

An option string that joins values with commas goes through the range parser
first.  For numbers the range parser rejects it or denotes the one number it
consists of, so the values are selected as listed.
-/

namespace BenchBox

open PartialLoop

/-- The tokens joined with commas. -/
def joinList (tokens : List StringView) : StringView :=
  [','].intercalate tokens

/-- A value in decimal. -/
def decimal {T : UnsignedIntegral} (v : T.Val) : StringView :=
  Nat.toDigits 10 v.toNat

/-! ## Joined lists -/

theorem joinList_singleton (token : StringView) : joinList [token] = token :=
  List.intercalate_singleton

theorem joinList_cons_cons (token next : StringView)
    (tokens : List StringView) :
    joinList (token :: next :: tokens) =
      token ++ ',' :: joinList (next :: tokens) := by
  rw [joinList, List.intercalate_cons_cons, List.append_assoc]
  rfl

/-- Without commas in the tokens the list is split as it was joined. -/
theorem splitOn_joinList {tokens : List StringView} (hne : tokens ≠ [])
    (hcomma : ∀ token ∈ tokens, ',' ∉ token) :
    (joinList tokens).splitOn ',' = tokens :=
  List.splitOn_intercalate ',' hcomma hne

theorem mem_joinList {tokens : List StringView} {c : Char}
    (h : c ∈ joinList tokens) : c = ',' ∨ ∃ token ∈ tokens, c ∈ token := by
  induction tokens with
  | nil => exact absurd h List.not_mem_nil
  | cons token tokens ih =>
      cases tokens with
      | nil =>
          rw [joinList_singleton] at h
          exact Or.inr ⟨token, List.mem_cons_self, h⟩
      | cons next tokens =>
          rw [joinList_cons_cons, List.mem_append, List.mem_cons] at h
          rcases h with h | rfl | h
          · exact Or.inr ⟨token, List.mem_cons_self, h⟩
          · exact Or.inl rfl
          · rcases ih h with rfl | ⟨found, hfound, hc⟩
            · exact Or.inl rfl
            · exact Or.inr ⟨found, List.mem_cons_of_mem token hfound, hc⟩

/-- A joined list is one token or has a comma. -/
theorem comma_mem_joinList {tokens : List StringView} (hne : tokens ≠ [])
    (h : ∀ token, tokens ≠ [token]) : ',' ∈ joinList tokens := by
  cases tokens with
  | nil => exact absurd rfl hne
  | cons token tokens =>
      cases tokens with
      | nil => exact absurd rfl (h token)
      | cons next tokens =>
          rw [joinList_cons_cons]
          simp

/-- A text without a comma is joined from itself only. -/
theorem joinList_ne {tokens : List StringView} (hne : tokens ≠ [])
    {str : StringView} (hcomma : ',' ∉ str) (hstr : str ∉ tokens) :
    joinList tokens ≠ str := by
  rintro rfl
  apply hcomma
  apply comma_mem_joinList hne
  rintro token rfl
  rw [joinList_singleton] at hstr
  exact hstr List.mem_cons_self

/-! ## Decimal lists -/

theorem isNumeral_decimal {T : UnsignedIntegral} (v : T.Val) :
    IsNumeral T.bits (decimal v) ∧
      Nat.ofDigitChars 10 (decimal v) 0 = v.toNat := by
  have hvalue : Nat.ofDigitChars 10 (decimal v) 0 = v.toNat :=
    Nat.ofDigitChars_ten_toDigits
  refine ⟨⟨Nat.toDigits_ne_nil, ?_, ?_⟩, hvalue⟩
  · exact fun c hc => Nat.isDigit_of_mem_toDigits (by decide) (by decide) hc
  · rw [hvalue]
    exact v.isLt

theorem parseInt_decimal {T : UnsignedIntegral} (v : T.Val) :
    parseInt T (decimal v) = some v :=
  parseInt_eq_some_iff.mpr
    ⟨(isNumeral_decimal v).1, (isNumeral_decimal v).2.symm⟩

/-- Without a colon and a dash a text is one token that is both bounds. -/
theorem parseMinMaxStrideStr_of_plain {str : StringView} (hcolon : ':' ∉ str)
    (hdash : '-' ∉ str) :
    parseMinMaxStrideStr str = { min := str, max := str } := by
  rw [parseMinMaxStrideStr_eq, beforeFirst_of_notMem hcolon, if_neg hdash,
    beforeFirst_of_notMem hdash, afterFirst_of_notMem hcolon]

/-- Such a text is a range only if it is a number, which it then denotes. -/
theorem parseRange_of_plain {T : UnsignedIntegral} {str : StringView}
    (hne : str ≠ []) (hauto : str ≠ autoText) (hcolon : ':' ∉ str)
    (hdash : '-' ∉ str) (defaultMin defaultMax : T.Val) :
    parseRange T str defaultMin defaultMax 1 =
      (parseInt T str).map fun v => ⟨v, v, 1⟩ := by
  ext range
  rw [parseRange_eq_some_iff_tokens hne hauto,
    parseMinMaxStrideStr_of_plain hcolon hdash, Option.map_eq_some_iff]
  have hparse (default : T.Val) : parseOr T str default = parseInt T str := by
    rw [parseOr, if_pos (by simpa using hne)]
  have hstride : parseOr T [] (1 : T.Val) = some 1 := rfl
  simp only [hparse, hstride, Option.some.injEq]
  constructor
  · intro h
    obtain ⟨min, max, stride⟩ := range
    obtain ⟨hmin, hmax, rfl, -, -⟩ := h
    obtain rfl : min = max := Option.some.inj (hmin.symm.trans hmax)
    exact ⟨min, hmin, rfl⟩
  · intro h
    obtain ⟨v, hv, rfl⟩ := h
    exact ⟨hv, hv, rfl, BitVec.le_refl v, T.one_ne_zero⟩

theorem ParsedRangeInt.values_single {T : UnsignedIntegral} (v : T.Val) :
    (ParsedRangeInt.mk v v 1).values = [v] := by
  simp [ParsedRangeInt.values]

theorem slice_self {α : Type*} {values : List α} {i : ℕ} {a : α}
    (h : values[i]? = some a) : slice values i i = [a] := by
  obtain ⟨hlt, rfl⟩ := List.getElem?_eq_some_iff.mp h
  rw [slice, List.drop_eq_getElem_cons hlt, Nat.add_sub_cancel_left]
  rfl

/-- A number filters an array down to itself. -/
theorem filterForRangeStrIntegral_of_plain {T : UnsignedIntegral}
    {str : StringView} (hne : str ≠ []) (hauto : str ≠ autoText)
    (hcolon : ':' ∉ str) (hdash : '-' ∉ str) (values : List T.Val)
    (defaultMin defaultMax : T.Val) :
    filterForRangeStrIntegral T str values defaultMin defaultMax 1 =
      ((parseInt T str).filter fun v => decide (v ∈ values)).map
        fun v => [v] := by
  rw [filterForRangeStrIntegral,
    parseRange_of_plain hne hauto hcolon hdash defaultMin defaultMax]
  cases parseInt T str with
  | none => rfl
  | some v =>
      rw [Option.map_some, Option.filter_some]
      dsimp only
      by_cases hv : v ∈ values
      · have hidx := List.idxOf_lt_length_of_mem hv
        rw [if_neg (by omega), if_neg T.one_ne_zero,
          slice_self (List.getElem?_idxOf hv)]
        simp [hv, onStride_min]
      · have hidx : values.idxOf v = values.length :=
          List.idxOf_eq_length hv
        rw [if_pos (Or.inl hidx)]
        simp [hv]

/-- A list of digits meets the preconditions of the lemmas above. -/
theorem joinList_plain_of_digits {tokens : List StringView} (hne : tokens ≠ [])
    (hnil : [] ∉ tokens)
    (hdigits : ∀ token ∈ tokens, ∀ c ∈ token, c.isDigit = true) :
    joinList tokens ≠ [] ∧ joinList tokens ≠ autoText ∧
      ':' ∉ joinList tokens ∧ '-' ∉ joinList tokens := by
  have hplain {c : Char} (hc : c ≠ ',') (hdigit : ¬c.isDigit) :
      c ∉ joinList tokens := by
    intro hmem
    rcases mem_joinList hmem with hcomma | ⟨token, htoken, hmem⟩
    · exact hc hcomma
    · exact hdigit (hdigits token htoken c hmem)
  refine ⟨joinList_ne hne List.not_mem_nil hnil, ?_,
    hplain (by decide) (by decide), hplain (by decide) (by decide)⟩
  intro hauto
  apply hplain (c := 'a') (by decide) (by decide)
  rw [hauto]
  decide

theorem splitOn_joinList_of_digits {tokens : List StringView}
    (hne : tokens ≠ [])
    (hdigits : ∀ token ∈ tokens, ∀ c ∈ token, c.isDigit = true) :
    (joinList tokens).splitOn ',' = tokens := by
  apply splitOn_joinList hne
  intro token htoken hcomma
  exact absurd (hdigits token htoken ',' hcomma) (by decide)

theorem isDigit_of_mem_map_decimal {T : UnsignedIntegral} {vs : List T.Val} :
    ∀ token ∈ vs.map decimal, ∀ c ∈ token, c.isDigit = true := by
  intro token htoken
  obtain ⟨v, -, rfl⟩ := List.mem_map.mp htoken
  exact (isNumeral_decimal v).1.2.1

theorem joinList_decimal_plain {T : UnsignedIntegral} {vs : List T.Val}
    (hne : vs ≠ []) :
    joinList (vs.map decimal) ≠ [] ∧ joinList (vs.map decimal) ≠ autoText ∧
      ':' ∉ joinList (vs.map decimal) ∧ '-' ∉ joinList (vs.map decimal) := by
  refine joinList_plain_of_digits (by simpa using hne) ?_
    isDigit_of_mem_map_decimal
  intro hnil
  obtain ⟨v, -, hv⟩ := List.mem_map.mp hnil
  exact (isNumeral_decimal v).1.1 hv

theorem splitOn_joinList_decimal {T : UnsignedIntegral} {vs : List T.Val}
    (hne : vs ≠ []) :
    (joinList (vs.map decimal)).splitOn ',' = vs.map decimal :=
  splitOn_joinList_of_digits (by simpa using hne) isDigit_of_mem_map_decimal

/-- A decimal list that is itself a number lists only that number. -/
theorem eq_singleton_of_parseInt_joinList {T : UnsignedIntegral}
    {vs : List T.Val} (hne : vs ≠ []) {v : T.Val}
    (h : parseInt T (joinList (vs.map decimal)) = some v) : vs = [v] := by
  have hcomma : ',' ∉ joinList (vs.map decimal) := fun hmem =>
    absurd ((parseInt_eq_some_iff.mp h).1.2.1 ',' hmem) (by decide)
  have hsplit := splitOn_joinList_decimal hne
  rw [List.splitOn_eq_singleton hcomma] at hsplit
  have hparsed : (vs.map decimal).mapM (parseInt T) = some vs :=
    mapM_map_eq_some fun w _ => parseInt_decimal w
  rw [← hsplit, List.mapM_cons, h] at hparsed
  exact (Option.some.inj hparsed).symm

variable {Context Run : Type*}

/-- The decimal forms of values, joined with commas, select exactly these values
in order: for the numeric builder always, for the filtered one if all of them
are valid. -/
theorem makeSweep_of_decimals (T : UnsignedIntegral) (context : Context)
    (createRun : Context → T.Val → Run) {vs : List T.Val} (hne : vs ≠ [])
    (defaultBegin defaultEnd : T.Val) (values : List T.Val)
    (defaultMin defaultMax : T.Val) :
    makeNumericSweep T (joinList (vs.map decimal)) context createRun
        defaultBegin defaultEnd =
      some (some (vs.map (createRun context))) ∧
    makeFilteredSweepIntegral T (joinList (vs.map decimal)) context values
        createRun defaultMin defaultMax =
      some (if ∀ v ∈ vs, v ∈ values then
        some (vs.map (createRun context)) else none) := by
  obtain ⟨hnil, hauto, hcolon, hdash⟩ := joinList_decimal_plain hne
  have hsplit := splitOn_joinList_decimal hne
  constructor
  · have hrange := parseRange_of_plain hnil hauto hcolon hdash defaultBegin
      defaultEnd
    cases hparse : parseInt T (joinList (vs.map decimal)) with
    | none =>
        rw [hparse] at hrange
        rw [makeNumericSweep_of_list hnil hauto context createRun hrange,
          hsplit, mapM_map_eq_some fun v _ => parseInt_decimal v]
        rfl
    | some v =>
        rw [hparse] at hrange
        obtain ⟨-, -, hsweep⟩ := makeNumericSweep_of_range hnil hauto context
          createRun hrange
        rw [hsweep, ParsedRangeInt.values_single,
          eq_singleton_of_parseInt_joinList hne hparse]
  · rw [makeFilteredSweepIntegral,
      filterForRangeStrIntegral_of_plain hnil hauto hcolon hdash]
    cases hselected : (parseInt T (joinList (vs.map decimal))).filter
        fun v => decide (v ∈ values) with
    | none =>
        have htoken : (fun v : T.Val =>
            (parseInt T (decimal v)).filter fun w => decide (w ∈ values)) =
              fun v => if v ∈ values then some v else none := by
          funext v
          rw [parseInt_decimal, Option.filter_some]
          simp
        rw [Option.map_none, sweep_of_tokens hnil hauto, hsplit,
          funext (find?_parseInt T values), List.mapM_map,
          Function.comp_def, htoken, mapM_ite_some]
        split <;> rfl
    | some v =>
        obtain ⟨hparse, hv⟩ := Option.filter_eq_some_iff.mp hselected
        obtain rfl := eq_singleton_of_parseInt_joinList hne hparse
        rw [Option.map_some,
          sweep_of_ranged hnil hauto (List.cons_ne_nil v []),
          if_pos (by simpa using hv)]

/-- The sizes 11, 4 and 4 in this order; 6 is not valid. -/
theorem makeSweep_of_decimals_sizes :
    makeFilteredSweepIntegral uint64 "11,4,4".toList () [4, 5, 7, 11]
        (fun _ v => v.toNat) 5 11 = some (some [11, 4, 4]) ∧
      makeFilteredSweepIntegral uint64 "6".toList () [4, 5, 7, 11]
        (fun _ v => v.toNat) 5 11 = some none := by
  have hlist := (makeSweep_of_decimals uint64 () (fun _ v => v.toNat)
    (show ([11, 4, 4] : List uint64.Val) ≠ [] by decide) 0 0 [4, 5, 7, 11]
    5 11).2
  have hsingle := (makeSweep_of_decimals uint64 () (fun _ v => v.toNat)
    (show ([6] : List uint64.Val) ≠ [] by decide) 0 0 [4, 5, 7, 11] 5 11).2
  rw [show joinList (([11, 4, 4] : List uint64.Val).map decimal) =
    "11,4,4".toList by decide, if_pos (by simp)] at hlist
  rw [show joinList (([6] : List uint64.Val).map decimal) = "6".toList
    by decide, if_neg (by simp only [List.forall_mem_singleton]; decide)]
    at hsingle
  exact ⟨hlist.trans (by decide), hsingle⟩

end BenchBox
