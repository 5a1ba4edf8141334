import BenchBox.Harness.Defaults
import BenchBox.Harness.Lists

/-!
# The language of numeric sweeps

The option strings of a numeric sweep as a language: specifications are syntax
trees, with the strings that spell them and the values they stand for.  The
builder runs the values of the specification that its option string spells, and
rejects the string exactly if there are none.
-/

namespace BenchBox

open PartialLoop

/-- A specification.  What is `none` is omitted from its text. -/
inductive SweepSpec (T : UnsignedIntegral) where
  | defaults (auto : Bool)
  | strided (stride : T.Val)
  | single (v : T.Val) (stride : Option T.Val)
  | between (min max stride : Option T.Val)
  | listed (v w : T.Val) (vs : List T.Val)

namespace SweepSpec

variable {T : UnsignedIntegral}

/-! ## Spellings -/

/-- A numeral for `v`, possibly with leading zeros. -/
def StandsFor (sv : StringView) (v : T.Val) : Prop :=
  IsNumeral T.bits sv ∧ v.toNat = Nat.ofDigitChars 10 sv 0

/-- A number that may be omitted. -/
inductive SpellsOptional : StringView → Option T.Val → Prop
  | omitted : SpellsOptional [] none
  | given {sv : StringView} {v : T.Val} (h : StandsFor sv v) :
      SpellsOptional sv (some v)

/-- A stride part with its colon, behind which the stride may be omitted. -/
inductive SpellsStride : StringView → Option T.Val → Prop
  | omitted : SpellsStride [] none
  | colon {sv : StringView} {stride : Option T.Val}
      (h : SpellsOptional sv stride) : SpellsStride (':' :: sv) stride

/-- The strings that spell a specification. -/
inductive Spells : StringView → SweepSpec T → Prop
  | empty : Spells [] (defaults false)
  | auto : Spells autoText (defaults true)
  | strided {sv : StringView} {stride : T.Val} (h : StandsFor sv stride) :
      Spells (':' :: sv) (strided stride)
  | colon : Spells [':'] (between none none none)
  | single {sv strideStr : StringView} {v : T.Val} {stride : Option T.Val}
      (hv : StandsFor sv v) (hstride : SpellsStride strideStr stride) :
      Spells (sv ++ strideStr) (single v stride)
  | between {minStr maxStr strideStr : StringView}
      {min max stride : Option T.Val} (hmin : SpellsOptional minStr min)
      (hmax : SpellsOptional maxStr max)
      (hstride : SpellsStride strideStr stride) :
      Spells ((minStr ++ '-' :: maxStr) ++ strideStr) (between min max stride)
  | listed {tokens : List StringView} {v w : T.Val} {vs : List T.Val}
      (h : List.Forall₂ StandsFor tokens (v :: w :: vs)) :
      Spells (joinList tokens) (listed v w vs)

/-! ## Texts -/

/-- An optional number. -/
def optional : Option T.Val → StringView
  | none => []
  | some v => decimal v

/-- A stride part with its colon. -/
def strideText : Option T.Val → StringView
  | none => []
  | some stride => ':' :: decimal stride

/-- The text of a specification. -/
def text : SweepSpec T → StringView
  | defaults auto => if auto then autoText else []
  | strided stride => strideText (some stride)
  | single v stride => decimal v ++ strideText stride
  | between min max stride =>
      (optional min ++ '-' :: optional max) ++ strideText stride
  | listed v w vs => joinList ((v :: w :: vs).map decimal)

/-! ## Values -/

/-- The values of a range, none if it is empty or without a stride. -/
def rangeValues (min max stride : T.Val) : Option (List T.Val) :=
  if min ≤ max ∧ stride ≠ 0 then
    some (ParsedRangeInt.mk min max stride).values
  else
    none

/-- The values of a specification, `none` if it is rejected.  Omitted bounds are
the defaults, and the end is among the values of a range but not of the default
sweep. -/
def values (defaultBegin defaultEnd : T.Val) :
    SweepSpec T → Option (List T.Val)
  | defaults _ => some (countUp defaultBegin defaultEnd)
  | strided stride => rangeValues defaultBegin defaultEnd stride
  | single v stride => rangeValues v v (stride.getD 1)
  | between min max stride =>
      rangeValues (min.getD defaultBegin) (max.getD defaultEnd)
        (stride.getD 1)
  | listed v w vs => some (v :: w :: vs)

/-! ## The text spells the specification -/

theorem standsFor_decimal (v : T.Val) : StandsFor (decimal v) v :=
  ⟨(isNumeral_decimal v).1, (isNumeral_decimal v).2.symm⟩

theorem spellsOptional_optional (v : Option T.Val) :
    SpellsOptional (optional v) v := by
  cases v with
  | none => exact .omitted
  | some v => exact .given (standsFor_decimal v)

theorem spellsStride_strideText (stride : Option T.Val) :
    SpellsStride (strideText stride) stride := by
  cases stride with
  | none => exact .omitted
  | some stride => exact .colon (.given (standsFor_decimal stride))

theorem spells_text (spec : SweepSpec T) : Spells spec.text spec := by
  cases spec with
  | defaults auto =>
      cases auto with
      | false => exact .empty
      | true => exact .auto
  | strided stride => exact .strided (standsFor_decimal stride)
  | single v stride =>
      exact .single (standsFor_decimal v) (spellsStride_strideText stride)
  | between min max stride =>
      exact .between (spellsOptional_optional min)
        (spellsOptional_optional max) (spellsStride_strideText stride)
  | listed v w vs =>
      refine .listed ?_
      rw [List.forall₂_map_left_iff, List.forall₂_same]
      exact fun v _ => standsFor_decimal v

/-! ## Reading the parts of a range -/

theorem StandsFor.isDigit {sv : StringView} {v : T.Val} (h : StandsFor sv v) :
    ∀ c ∈ sv, c.isDigit = true := h.1.2.1

theorem SpellsOptional.isDigit {sv : StringView} {v : Option T.Val}
    (h : SpellsOptional sv v) : ∀ c ∈ sv, c.isDigit = true := by
  cases h with
  | omitted => exact List.forall_mem_nil _
  | given hv => exact hv.isDigit

theorem SpellsStride.eq_colon_or_isDigit {sv : StringView}
    {stride : Option T.Val} (h : SpellsStride sv stride) :
    ∀ c ∈ sv, c = ':' ∨ c.isDigit = true := by
  cases h with
  | omitted => exact List.forall_mem_nil _
  | colon hstride =>
      rw [List.forall_mem_cons]
      exact ⟨.inl rfl, fun c hc => .inr (hstride.isDigit c hc)⟩

/-- An optional number is read as itself or its default. -/
theorem SpellsOptional.parseOr {sv : StringView} {v : Option T.Val}
    (h : SpellsOptional sv v) (default : T.Val) :
    parseOr T sv default = some (v.getD default) := by
  cases h with
  | omitted => rfl
  | given hv => exact parseOr_eq_some_iff.mpr (.inr hv)

/-- What an optional numeral denotes, it spells. -/
theorem exists_spellsOptional {sv : StringView} {default v : T.Val}
    (h : Denotes sv default v) :
    ∃ o, SpellsOptional sv o ∧ v = o.getD default := by
  rcases h with ⟨rfl, rfl⟩ | hv
  · exact ⟨none, .omitted, rfl⟩
  · exact ⟨some v, .given hv, rfl⟩

/-- The colon separates the stride. -/
theorem SpellsStride.parseMinMaxStrideStr {bounds strideStr : StringView}
    (hcolon : ':' ∉ bounds) {stride : Option T.Val}
    (h : SpellsStride strideStr stride) :
    ∃ sv, SpellsOptional sv stride ∧
      parseMinMaxStrideStr (bounds ++ strideStr) =
        { min := beforeFirst '-' bounds
          max := if '-' ∈ bounds then afterFirst '-' bounds else bounds
          stride := sv } := by
  rw [parseMinMaxStrideStr_eq]
  cases h with
  | omitted =>
      refine ⟨[], .omitted, ?_⟩
      rw [List.append_nil, beforeFirst_of_notMem hcolon,
        afterFirst_of_notMem hcolon]
  | @colon sv _ hstride =>
      refine ⟨sv, hstride, ?_⟩
      rw [beforeFirst_append hcolon, afterFirst_append hcolon]

/-- A string of bounds and a stride is read as a range if that is one. -/
theorem SpellsStride.parseRange {bounds strideStr : StringView}
    (hcolon : ':' ∉ bounds) {stride : Option T.Val}
    (h : SpellsStride strideStr stride) (hne : bounds ++ strideStr ≠ [])
    (hauto : bounds ++ strideStr ≠ autoText)
    {defaultBegin defaultEnd min max : T.Val}
    (hmin : parseOr T (beforeFirst '-' bounds) defaultBegin = some min)
    (hmax : parseOr T (if '-' ∈ bounds then afterFirst '-' bounds else bounds)
      defaultEnd = some max) :
    parseRange T (bounds ++ strideStr) defaultBegin defaultEnd 1 =
      if min ≤ max ∧ stride.getD 1 ≠ 0 then some ⟨min, max, stride.getD 1⟩
      else none := by
  obtain ⟨sv, hstride, htokens⟩ := h.parseMinMaxStrideStr hcolon
  ext range
  rw [parseRange_eq_some_iff_tokens hne hauto, htokens, hmin, hmax,
    hstride.parseOr]
  obtain ⟨min', max', stride'⟩ := range
  simp only [Option.some.injEq, Option.ite_none_right_eq_some,
    ParsedRangeInt.mk.injEq]
  constructor
  · intro h
    obtain ⟨rfl, rfl, rfl, hle, hstride⟩ := h
    exact ⟨⟨hle, hstride⟩, rfl, rfl, rfl⟩
  · intro h
    obtain ⟨⟨hle, hstride⟩, rfl, rfl, rfl⟩ := h
    exact ⟨rfl, rfl, rfl, hle, hstride⟩

theorem parseInt_eq_none_of_mem {sv : StringView} {c : Char} (hc : c ∈ sv)
    (hdigit : ¬c.isDigit) : parseInt T sv = none := by
  rw [parseInt_eq, if_neg fun h : IsNumeral T.bits sv => hdigit (h.2.1 c hc)]

/-! ## The builder runs the values -/

section Builder

variable {Context Run : Type*} (context : Context)
  (createRun : Context → T.Val → Run) (defaultBegin defaultEnd : T.Val)

/-- A string of bounds and a stride either runs its range or is rejected. -/
theorem makeNumericSweep_append {bounds strideStr : StringView}
    (hbounds : ∀ c ∈ bounds, c = '-' ∨ c.isDigit = true)
    {stride : Option T.Val} (hstride : SpellsStride strideStr stride)
    (hne : bounds ++ strideStr ≠ []) {min max : T.Val}
    (hmin : parseOr T (beforeFirst '-' bounds) defaultBegin = some min)
    (hmax : parseOr T (if '-' ∈ bounds then afterFirst '-' bounds else bounds)
      defaultEnd = some max)
    (hrejected : ¬(min ≤ max ∧ stride.getD 1 ≠ 0) →
      ∃ c ∈ bounds ++ strideStr, ¬c.isDigit) :
    makeNumericSweep T (bounds ++ strideStr) context createRun
        defaultBegin defaultEnd =
      some ((rangeValues min max (stride.getD 1)).map
        (List.map (createRun context))) := by
  have hnotMem {c : Char} (hdigit : ¬c.isDigit) (hdash : c ≠ '-')
      (hcolon : c ≠ ':') : c ∉ bounds ++ strideStr := by
    rw [List.mem_append, not_or]
    refine ⟨fun hmem => ?_, fun hmem => ?_⟩
    · exact (hbounds c hmem).elim hdash hdigit
    · exact (hstride.eq_colon_or_isDigit c hmem).elim hcolon hdigit
  have hcolon : ':' ∉ bounds := by
    intro hmem
    rcases hbounds ':' hmem with h | h
    · exact absurd h (by decide)
    · exact absurd h (by decide)
  have hauto : bounds ++ strideStr ≠ autoText := by
    intro h
    have ha : 'a' ∈ bounds ++ strideStr := by
      rw [h]
      decide
    exact hnotMem (by decide) (by decide) (by decide) ha
  have hrange := hstride.parseRange hcolon hne hauto hmin hmax
  rw [rangeValues]
  by_cases hvalid : min ≤ max ∧ stride.getD 1 ≠ 0
  · rw [if_pos hvalid] at hrange ⊢
    exact (makeNumericSweep_of_range hne hauto context createRun hrange).2.2
  · rw [if_neg hvalid] at hrange ⊢
    obtain ⟨c, hc, hdigit⟩ := hrejected hvalid
    rw [makeNumericSweep_of_list hne hauto context createRun hrange,
      List.splitOn_eq_singleton
        (hnotMem (by decide) (by decide) (by decide)),
      List.mapM_cons, parseInt_eq_none_of_mem hc hdigit]
    rfl

/-- A list of several numbers is no range. -/
theorem makeNumericSweep_listed {tokens : List StringView} {v w : T.Val}
    {vs : List T.Val} (h : List.Forall₂ StandsFor tokens (v :: w :: vs)) :
    makeNumericSweep T (joinList tokens) context createRun defaultBegin
        defaultEnd =
      some (some ((v :: w :: vs).map (createRun context))) := by
  have hparsed : tokens.mapM (parseInt T) = some (v :: w :: vs) :=
    mapM_of_forall₂ (h.imp fun _ _ => parseInt_eq_some_iff.mpr)
  have hnumeral : ∀ token ∈ tokens, IsNumeral T.bits token := by
    intro token htoken
    obtain ⟨i, hi, rfl⟩ := List.getElem_of_mem htoken
    exact (List.forall₂_iff_get.mp h).2 i hi (h.length_eq ▸ hi) |>.1
  have hlength := h.length_eq
  have hne : tokens ≠ [] := by
    rintro rfl
    contradiction
  have hdigits : ∀ token ∈ tokens, ∀ c ∈ token, c.isDigit = true :=
    fun token htoken => (hnumeral token htoken).2.1
  obtain ⟨hnil, hauto, hcolon, hdash⟩ :=
    joinList_plain_of_digits hne (fun hmem => (hnumeral [] hmem).1 rfl) hdigits
  have hcomma : ',' ∈ joinList tokens := by
    apply comma_mem_joinList hne
    rintro token rfl
    contradiction
  have hrange := parseRange_of_plain hnil hauto hcolon hdash defaultBegin
    defaultEnd
  rw [parseInt_eq_none_of_mem hcomma (by decide)] at hrange
  rw [makeNumericSweep_of_list hnil hauto context createRun hrange,
    splitOn_joinList_of_digits hne hdigits, hparsed]
  rfl

/-- The builder runs the values of a specification that its option string spells,
in order, and rejects the string if there are none. -/
theorem makeNumericSweep_of_spells {optStr : StringView} {spec : SweepSpec T}
    (h : Spells optStr spec) :
    makeNumericSweep T optStr context createRun defaultBegin defaultEnd =
      some ((spec.values defaultBegin defaultEnd).map
        (List.map (createRun context))) := by
  have hdash : ¬ '-'.isDigit = true := by decide
  cases h with
  | empty => exact makeNumericSweep_default (.inl rfl) _ _ _ _
  | auto => exact makeNumericSweep_default (.inr rfl) _ _ _ _
  | strided hstride =>
      exact makeNumericSweep_append context createRun defaultBegin defaultEnd
        (List.forall_mem_nil _) (.colon (.given hstride)) (List.cons_ne_nil _ _)
        rfl rfl fun _ => ⟨':', List.mem_cons_self, by decide⟩
  | colon =>
      exact makeNumericSweep_append context createRun defaultBegin defaultEnd
        (List.forall_mem_nil _) (.colon .omitted) (List.cons_ne_nil _ _)
        rfl rfl fun _ => ⟨':', List.mem_cons_self, by decide⟩
  | @single sv strideStr v stride hv hstride =>
      have hnotMem : '-' ∉ sv := fun hmem => hdash (hv.isDigit '-' hmem)
      have hparse (default : T.Val) : parseOr T sv default = some v :=
        (SpellsOptional.given hv).parseOr default
      apply makeNumericSweep_append
      · exact fun c hc => .inr (hv.isDigit c hc)
      · exact hstride
      · exact List.append_ne_nil_of_left_ne_nil hv.1.1 _
      · rw [beforeFirst_of_notMem hnotMem, hparse]
      · rw [if_neg hnotMem, hparse]
      · intro hinvalid
        cases hstride with
        | omitted => exact absurd ⟨BitVec.le_refl v, T.one_ne_zero⟩ hinvalid
        | colon _ =>
            exact ⟨':', List.mem_append_right _ List.mem_cons_self, by decide⟩
  | @between minStr maxStr strideStr min max stride hmin hmax hstride =>
      have hnotMem : '-' ∉ minStr := fun hmem => hdash (hmin.isDigit '-' hmem)
      apply makeNumericSweep_append
      · intro c hc
        rw [List.mem_append, List.mem_cons] at hc
        rcases hc with hc | hc | hc
        · exact .inr (hmin.isDigit c hc)
        · exact .inl hc
        · exact .inr (hmax.isDigit c hc)
      · exact hstride
      · simp
      · rw [beforeFirst_append hnotMem, hmin.parseOr]
      · rw [if_pos (by simp), afterFirst_append hnotMem, hmax.parseOr]
      · exact fun _ => ⟨'-', by simp, hdash⟩
  | listed hlist =>
      exact makeNumericSweep_listed context createRun defaultBegin defaultEnd
        hlist

end Builder

/-! ## Every string is rejected or spells a specification -/

/-- The stride part of a string. -/
theorem exists_spellsStride {optStr : StringView} {default stride : T.Val}
    (h : Denotes (afterFirst ':' optStr) default stride) :
    ∃ strideStr o, SpellsStride strideStr o ∧ stride = o.getD default ∧
      optStr = beforeFirst ':' optStr ++ strideStr := by
  by_cases hcolon : ':' ∈ optStr
  · obtain ⟨o, ho, hstride⟩ := exists_spellsOptional h
    exact ⟨_, o, .colon ho, hstride, (beforeFirst_append_afterFirst hcolon).symm⟩
  · rw [afterFirst_of_notMem hcolon] at h
    rcases h with ⟨-, rfl⟩ | ⟨hnumeral, -⟩
    · refine ⟨[], none, .omitted, rfl, ?_⟩
      rw [beforeFirst_of_notMem hcolon, List.append_nil]
    · exact absurd rfl hnumeral.1

/-- A string that is read as a range spells one. -/
theorem exists_spells_of_range {optStr : StringView} (hne : optStr ≠ [])
    (hauto : optStr ≠ autoText) {defaultBegin defaultEnd : T.Val}
    {range : ParsedRangeInt T}
    (h : parseRange T optStr defaultBegin defaultEnd 1 = some range) :
    ∃ spec : SweepSpec T, Spells optStr spec ∧
      spec.values defaultBegin defaultEnd = some range.values := by
  have hvalid := parseRange_valid hne hauto h
  rcases (parseRange_eq_some_iff _ _ _ _ _ _).mp h with
    ⟨hdefault, -⟩ | ⟨-, -, hrange, hstride, -⟩
  · exact absurd hdefault (not_or.mpr ⟨hne, hauto⟩)
  obtain ⟨min, max, stride⟩ := range
  obtain ⟨strideStr, o, hspells, rfl, hsplit⟩ := exists_spellsStride hstride
  have hvalues : rangeValues min max (o.getD 1) =
      some (ParsedRangeInt.mk min max (o.getD 1)).values := if_pos hvalid
  rw [hsplit] at hne ⊢
  generalize beforeFirst ':' optStr = bounds at hrange hne ⊢
  cases hrange with
  | omitted =>
      cases hspells with
      | omitted => exact absurd rfl hne
      | colon hoptional =>
          cases hoptional with
          | omitted => exact ⟨between none none none, .colon, hvalues⟩
          | given hv => exact ⟨strided _, .strided hv, hvalues⟩
  | single hnumeral hv =>
      exact ⟨single _ o, .single ⟨hnumeral, hv⟩ hspells, hvalues⟩
  | bounds _ hmin hmax =>
      obtain ⟨minO, hminO, rfl⟩ := exists_spellsOptional hmin
      obtain ⟨maxO, hmaxO, rfl⟩ := exists_spellsOptional hmax
      exact ⟨between minO maxO o, .between hminO hmaxO hspells, hvalues⟩

/-- A string whose tokens are numbers spells them. -/
theorem exists_spells_of_list {optStr : StringView} {values : List T.Val}
    (h : (optStr.splitOn ',').mapM (parseInt T) = some values)
    (defaultBegin defaultEnd : T.Val) :
    ∃ spec : SweepSpec T, Spells optStr spec ∧
      spec.values defaultBegin defaultEnd = some values := by
  have hall : List.Forall₂ StandsFor (optStr.splitOn ',') values :=
    (forall₂_of_mapM h).imp fun _ _ => parseInt_eq_some_iff.mp
  have hjoin : joinList (optStr.splitOn ',') = optStr :=
    List.intercalate_splitOn ','
  have htokens := List.splitOn_ne_nil ',' optStr
  generalize optStr.splitOn ',' = tokens at hall hjoin htokens
  obtain rfl := hjoin
  match values, hall with
  | [], .nil => exact absurd rfl htokens
  | [v], .cons (a := token) hv .nil =>
      refine ⟨single v none, ?_, ?_⟩
      · rw [joinList_singleton, ← List.append_nil token]
        exact .single hv .omitted
      · rw [SweepSpec.values, Option.getD_none, rangeValues,
          if_pos ⟨BitVec.le_refl v, T.one_ne_zero⟩]
        exact congrArg some (ParsedRangeInt.values_single v)
  | v :: w :: vs, hall => exact ⟨listed v w vs, .listed hall, rfl⟩

/-- The builder returns for every option string: the runs of some values if the
string spells a specification of these values, and otherwise a rejection. -/
theorem makeNumericSweep_iff_spells (optStr : StringView)
    (defaultBegin defaultEnd : T.Val) :
    ∃ values : Option (List T.Val),
      (∀ {Context Run : Type} (context : Context)
        (createRun : Context → T.Val → Run),
        makeNumericSweep T optStr context createRun defaultBegin defaultEnd =
          some (values.map (List.map (createRun context)))) ∧
      ∀ vs, values = some vs ↔ ∃ spec : SweepSpec T,
        Spells optStr spec ∧ spec.values defaultBegin defaultEnd = some vs := by
  by_cases hspelled : ∃ (spec : SweepSpec T) (vs : List T.Val),
      Spells optStr spec ∧ spec.values defaultBegin defaultEnd = some vs
  · obtain ⟨spec, vs, hspells, hvs⟩ := hspelled
    refine ⟨some vs, ?_, ?_⟩
    · intro Context Run context createRun
      rw [makeNumericSweep_of_spells context createRun _ _ hspells, hvs]
    · intro ws
      constructor
      · rintro ⟨⟩
        exact ⟨spec, hspells, hvs⟩
      · rintro ⟨other, hother, hws⟩
        -- the builder runs both, on runs that are their values
        have hruns := makeNumericSweep_of_spells () (fun _ v => v) defaultBegin
          defaultEnd hspells
        rw [makeNumericSweep_of_spells () (fun _ v => v) defaultBegin
          defaultEnd hother, hvs, hws] at hruns
        simpa [eq_comm] using hruns
  · have hnone : ¬(optStr = [] ∨ optStr = autoText) := by
      rintro (rfl | rfl)
      · exact hspelled ⟨defaults false, _, .empty, rfl⟩
      · exact hspelled ⟨defaults true, _, .auto, rfl⟩
    obtain ⟨hne, hauto⟩ := not_or.mp hnone
    refine ⟨none, ?_, ?_⟩
    · intro Context Run context createRun
      cases hrange : parseRange T optStr defaultBegin defaultEnd 1 with
      | some range =>
          obtain ⟨spec, hspec⟩ := exists_spells_of_range hne hauto hrange
          exact absurd ⟨spec, _, hspec⟩ hspelled
      | none =>
          rw [makeNumericSweep_of_list hne hauto context createRun hrange]
          cases htokens : (optStr.splitOn ',').mapM (parseInt T) with
          | none => rfl
          | some vs =>
              obtain ⟨spec, hspec⟩ := exists_spells_of_list htokens
                defaultBegin defaultEnd
              exact absurd ⟨spec, _, hspec⟩ hspelled
    · intro vs
      constructor
      · rintro ⟨⟩
      · rintro ⟨spec, hspec⟩
        exact absurd ⟨spec, vs, hspec⟩ hspelled

end SweepSpec

end BenchBox
