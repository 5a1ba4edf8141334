import BenchBox.Harness.Expansion
import BenchBox.Harness.Lists

/-!
# Selecting names

Names may contain the characters of the range syntax, and an option string is
tried as a range first.  A list of several names is never a range, but a single
name may spell one: it then selects the names from one end of the range to the
other.
-/

namespace BenchBox

/-- Without a stride the name is read as a range between two names of the array
in their order, other than from the name to itself. -/
def SpellsRange (names : List StringView) (defaultMin defaultMax : StringView)
    (name : StringView) : Prop :=
  (parseMinMaxStrideStr name).stride = [] ∧
    ∃ i j : ℕ, i ≤ j ∧
      names[i]? = some ((parseMinMaxStrideStr name).minOr defaultMin) ∧
      names[j]? = some ((parseMinMaxStrideStr name).maxOr defaultMax) ∧
      ¬((parseMinMaxStrideStr name).minOr defaultMin = name ∧
        (parseMinMaxStrideStr name).maxOr defaultMax = name)

/-! ## Lists of several names -/

theorem mem_beforeFirst_or_afterFirst {c sep : Char} {sv : StringView}
    (hc : c ∈ sv) (hne : c ≠ sep) :
    c ∈ beforeFirst sep sv ∨ c ∈ afterFirst sep sv := by
  by_cases hsep : sep ∈ sv
  · rw [← beforeFirst_append_afterFirst hsep, List.mem_append,
      List.mem_cons] at hc
    rcases hc with hc | rfl | hc
    · exact Or.inl hc
    · exact absurd rfl hne
    · exact Or.inr hc
  · exact Or.inl (by rwa [beforeFirst_of_notMem hsep])

/-- Without a stride a comma is part of a bound. -/
theorem comma_mem_token {str : StringView} (hcomma : ',' ∈ str)
    (hstride : (parseMinMaxStrideStr str).stride = []) :
    ',' ∈ (parseMinMaxStrideStr str).min ∨
      ',' ∈ (parseMinMaxStrideStr str).max := by
  rw [parseMinMaxStrideStr_eq] at hstride ⊢
  dsimp only at hstride ⊢
  have hrange : ',' ∈ beforeFirst ':' str := by
    have hcolon : ',' ≠ ':' := by decide
    rcases mem_beforeFirst_or_afterFirst hcomma hcolon with h | h
    · exact h
    · rw [hstride] at h
      exact absurd h List.not_mem_nil
  split
  next => exact mem_beforeFirst_or_afterFirst hrange (by decide)
  next => exact Or.inr hrange

/-- A list that is a range over names without commas is a single name. -/
theorem eq_singleton_of_filterForRangeStrString {names vs : List StringView}
    (hcomma : ∀ name ∈ names, ',' ∉ name) (hne : vs ≠ [])
    {defaultMin defaultMax : StringView} {selected : List StringView}
    (h : filterForRangeStrString (joinList vs) names defaultMin defaultMax =
      some selected) : ∃ name, vs = [name] := by
  obtain ⟨hstride, i, j, -, hmin, hmax, -⟩ := eq_of_filterForRangeStrString h
  by_contra hsingle
  have hlist := comma_mem_joinList hne (not_exists.mp hsingle)
  rcases comma_mem_token hlist hstride with htoken | htoken
  · rw [MinMaxStrideStrParsed.minOr,
      if_neg (by simpa using List.ne_nil_of_mem htoken)] at hmin
    exact hcomma _ (List.mem_of_getElem? hmin) htoken
  · rw [MinMaxStrideStrParsed.maxOr,
      if_neg (by simpa using List.ne_nil_of_mem htoken)] at hmax
    exact hcomma _ (List.mem_of_getElem? hmax) htoken

/-! ## Single names -/

/-- A slice of distinct names is one name only if both ends are that name. -/
theorem slice_eq_singleton_iff {names : List StringView}
    (hnames : names.Nodup) {i j : ℕ} {minName maxName name : StringView}
    (hmin : names[i]? = some minName) (hmax : names[j]? = some maxName)
    (hle : i ≤ j) :
    slice names i j = [name] ↔ minName = name ∧ maxName = name := by
  constructor
  · intro h
    have hstart : minName ∈ slice names i j := mem_slice_start hmin hle
    have hstop : maxName ∈ slice names i j :=
      mem_slice_iff.mpr ⟨j, hle, le_rfl, hmax⟩
    rw [h, List.mem_singleton] at hstart hstop
    exact ⟨hstart, hstop⟩
  · intro h
    obtain ⟨rfl, rfl⟩ := h
    have hi := (idxOf_eq_of_nodup hnames hmin).1
    have hj := (idxOf_eq_of_nodup hnames hmax).1
    obtain rfl : i = j := hi.symm.trans hj
    exact slice_self hmin

/-- Read as a range, a name selects something other than itself exactly when it
spells a range. -/
theorem spellsRange_iff {names : List StringView} (hnames : names.Nodup)
    {defaultMin defaultMax name : StringView} :
    SpellsRange names defaultMin defaultMax name ↔
      ∃ selected, filterForRangeStrString name names defaultMin defaultMax =
        some selected ∧ selected ≠ [name] := by
  constructor
  · intro h
    obtain ⟨hstride, i, j, hle, hmin, hmax, hends⟩ := h
    refine ⟨slice names i j, (filterForRangeStrString_eq_some_iff hnames).mpr
      ⟨hstride, i, j, hle, hmin, hmax, rfl⟩, ?_⟩
    rwa [ne_eq, slice_eq_singleton_iff hnames hmin hmax hle]
  · intro h
    obtain ⟨selected, hselected, hne⟩ := h
    obtain ⟨hstride, i, j, hle, hmin, hmax, rfl⟩ :=
      eq_of_filterForRangeStrString hselected
    rw [ne_eq, slice_eq_singleton_iff hnames hmin hmax hle] at hne
    exact ⟨hstride, i, j, hle, hmin, hmax, hne⟩

/-- A name without a dash and a colon spells no range. -/
theorem not_spellsRange_of_plain {names : List StringView}
    {defaultMin defaultMax name : StringView} (hne : name ≠ [])
    (hcolon : ':' ∉ name) (hdash : '-' ∉ name) :
    ¬SpellsRange names defaultMin defaultMax name := by
  intro h
  obtain ⟨-, i, j, -, -, -, hends⟩ := h
  apply hends
  rw [parseMinMaxStrideStr_of_plain hcolon hdash]
  simp [MinMaxStrideStrParsed.minOr, MinMaxStrideStrParsed.maxOr, hne]

/-! ## The sweep of a list of names -/

theorem joinList_names_ne {names vs : List StringView}
    (hempty : [] ∉ names) (hauto : autoText ∉ names) (hne : vs ≠ [])
    (hvs : ∀ v ∈ vs, v ∈ names) :
    joinList vs ≠ [] ∧ joinList vs ≠ autoText :=
  ⟨joinList_ne hne List.not_mem_nil fun hmem => hempty (hvs _ hmem),
    joinList_ne hne (by decide) fun hmem => hauto (hvs _ hmem)⟩

/-- Where the range parser rejects a list of valid names, it selects these
names. -/
theorem makeFilteredSweepString_of_list {Context Run : Type*}
    {names vs : List StringView} (hnil : joinList vs ≠ [])
    (hauto : joinList vs ≠ autoText) (hcomma : ∀ name ∈ names, ',' ∉ name)
    (hne : vs ≠ []) (hvs : ∀ v ∈ vs, v ∈ names) (context : Context)
    (createRun : Context → StringView → Run)
    {defaultMin defaultMax : StringView}
    (h : filterForRangeStrString (joinList vs) names defaultMin defaultMax =
      none) :
    makeFilteredSweepString (joinList vs) context names createRun defaultMin
      defaultMax = some (some (vs.map (createRun context))) := by
  rw [makeFilteredSweepString, h, sweep_of_tokens hnil hauto,
    splitOn_joinList hne fun v hv => hcomma v (hvs v hv)]
  simp only [find?_beq, PartialLoop.mapM_ite_some, if_pos hvs]
  rfl

/-- A string between two names of the array selects the names from the one to the
other. -/
theorem makeFilteredSweepString_of_slice {Context Run : Type*}
    {names : List StringView} (hnames : names.Nodup) {str : StringView}
    (hnil : str ≠ []) (hauto : str ≠ autoText) {defaultMin defaultMax : StringView}
    (hstride : (parseMinMaxStrideStr str).stride = []) {i j : ℕ} (hle : i ≤ j)
    (hmin : names[i]? = some ((parseMinMaxStrideStr str).minOr defaultMin))
    (hmax : names[j]? = some ((parseMinMaxStrideStr str).maxOr defaultMax))
    (context : Context) (createRun : Context → StringView → Run) :
    makeFilteredSweepString str context names createRun defaultMin defaultMax =
      some (some ((slice names i j).map (createRun context))) := by
  have hfilter : filterForRangeStrString str names defaultMin defaultMax =
      some (slice names i j) :=
    (filterForRangeStrString_eq_some_iff hnames).mpr
      ⟨hstride, i, j, hle, hmin, hmax, rfl⟩
  rw [makeFilteredSweepString, hfilter]
  exact sweep_of_ranged hnil hauto (filterForRangeStrString_ne_nil hfilter) _ _ _

/-- Over distinct names that are not empty, have no comma and are not `auto`, a
list of names selects exactly these names in order unless it is a single name
that spells a range, and then it selects the names of that range; a name without
a dash and a colon does not spell one. -/
theorem makeFilteredSweepString_names_iff {Context : Type*} (context : Context)
    {names : List StringView} (hnames : names.Nodup) (hempty : [] ∉ names)
    (hcomma : ∀ name ∈ names, ',' ∉ name) (hauto : autoText ∉ names)
    {vs : List StringView} (hne : vs ≠ []) (hvs : ∀ v ∈ vs, v ∈ names)
    (defaultMin defaultMax : StringView) :
    ((∀ (Run : Type) (createRun : Context → StringView → Run),
        makeFilteredSweepString (joinList vs) context names createRun
          defaultMin defaultMax = some (some (vs.map (createRun context)))) ↔
      ∀ name, vs = [name] → ¬SpellsRange names defaultMin defaultMax name) ∧
    (∀ name, vs = [name] → SpellsRange names defaultMin defaultMax name →
      ∃ i j, i ≤ j ∧
        names[i]? = some ((parseMinMaxStrideStr name).minOr defaultMin) ∧
        names[j]? = some ((parseMinMaxStrideStr name).maxOr defaultMax) ∧
        ∀ (Run : Type) (createRun : Context → StringView → Run),
          makeFilteredSweepString (joinList vs) context names createRun
              defaultMin defaultMax =
            some (some ((slice names i j).map (createRun context)))) ∧
    ∀ name ∈ names, ':' ∉ name → '-' ∉ name →
      ¬SpellsRange names defaultMin defaultMax name := by
  obtain ⟨hspec, hspecAuto⟩ := joinList_names_ne hempty hauto hne hvs
  refine ⟨?_, ?_, ?_⟩
  · cases hfilter : filterForRangeStrString (joinList vs) names defaultMin
      defaultMax with
    | none =>
        constructor
        · intro _ name hvs' hspells
          subst hvs'
          obtain ⟨selected, hselected, -⟩ := (spellsRange_iff hnames).mp hspells
          rw [joinList_singleton, hselected] at hfilter
          exact absurd hfilter (by simp)
        · intro _ Run createRun
          exact makeFilteredSweepString_of_list hspec hspecAuto hcomma hne hvs
            context createRun hfilter
    | some selected =>
        obtain ⟨name, rfl⟩ :=
          eq_singleton_of_filterForRangeStrString hcomma hne hfilter
        have hsweep (Run : Type) (createRun : Context → StringView → Run) :
            makeFilteredSweepString (joinList [name]) context names createRun
              defaultMin defaultMax =
                some (some (selected.map (createRun context))) := by
          rw [makeFilteredSweepString, hfilter]
          exact sweep_of_ranged hspec hspecAuto
            (filterForRangeStrString_ne_nil hfilter) _ _ _
        rw [joinList_singleton] at hfilter
        have hselected : selected = [name] ↔
            ¬SpellsRange names defaultMin defaultMax name := by
          rw [spellsRange_iff hnames, hfilter]
          simp
        constructor
        · intro h name' hname'
          obtain rfl : name = name' := by simpa using hname'
          have hruns := (hsweep StringView fun _ v => v).symm.trans
            (h StringView fun _ v => v)
          simp only [List.map_id_fun', id_eq, Option.some.injEq] at hruns
          exact hselected.mp hruns
        · intro h Run createRun
          rw [hsweep, hselected.mpr (h name rfl)]
  · intro name hvs' hspells
    subst hvs'
    rw [joinList_singleton] at hspec hspecAuto ⊢
    obtain ⟨hstride, i, j, hle, hmin, hmax, -⟩ := hspells
    refine ⟨i, j, hle, hmin, hmax, ?_⟩
    intro Run createRun
    exact makeFilteredSweepString_of_slice hnames hspec hspecAuto hstride hle
      hmin hmax context createRun
  · intro name hname hcolon hdash
    exact not_spellsRange_of_plain (fun hnil => hempty (hnil ▸ hname)) hcolon
      hdash

/-- The names of the tests, two of them listed. -/
theorem makeFilteredSweepString_names_iff_isa :
    makeFilteredSweepString "avx512vl,sse2".toList ()
        ["sse2".toList, "avx".toList, "avx512vl".toList]
        (fun _ name => name) "sse2".toList "avx512vl".toList =
      some (some ["avx512vl".toList, "sse2".toList]) := by
  have hiff := (makeFilteredSweepString_names_iff ()
    (show ["sse2".toList, "avx".toList, "avx512vl".toList].Nodup by decide)
    (by decide) (by decide) (by decide)
    (show ["avx512vl".toList, "sse2".toList] ≠ [] by decide) (by decide)
    "sse2".toList "avx512vl".toList).1
  exact hiff.mpr (by simp) _ fun _ name => name

/-- With a name `sse2-avx` beside `sse2` and `avx`, naming it selects the other
two. -/
theorem makeFilteredSweepString_names_dash :
    makeFilteredSweepString (joinList ["sse2-avx".toList]) ()
        ["sse2".toList, "avx".toList, "sse2-avx".toList]
        (fun _ name => name) "sse2".toList "avx".toList =
      some (some ["sse2".toList, "avx".toList]) ∧
    ["sse2".toList, "avx".toList, "sse2-avx".toList].Nodup ∧
    (∀ name ∈ ["sse2".toList, "avx".toList, "sse2-avx".toList],
      name ≠ [] ∧ ',' ∉ name ∧ name ≠ autoText) ∧
    makeFilteredSweepString (joinList ["sse2-avx".toList]) ()
        ["sse2".toList, "avx".toList, "sse2-avx".toList]
        (fun _ name => name) "sse2".toList "avx".toList ≠
      some (some ["sse2-avx".toList]) := by
  decide

end BenchBox
