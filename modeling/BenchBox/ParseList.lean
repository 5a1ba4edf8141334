import BenchBox.Harness.Lists

/-!
# The scan of `parse_list`

The loop of `parse_list` in `std::size_t` arithmetic, where `npos` is the largest
position, a count reaches past the end of the text and a position past it is an
exception.  It computes what the loop on natural positions computes, and that is
the inverse of joining with commas.
-/

namespace BenchBox

/-- `std::string_view::npos`. -/
def npos : BitVec 64 := -1#64

/-- `sv.find(c, start)` in `std::size_t`. -/
def findSize (sv : StringView) (c : Char) (start : BitVec 64) : BitVec 64 :=
  match find sv c start.toNat with
  | none => npos
  | some pos => BitVec.ofNat 64 pos

/-- `sv.substr(pos, count)` in `std::size_t`; `none` is a thrown
`std::out_of_range`. -/
def substrSize (sv : StringView) (pos count : BitVec 64) : Option StringView :=
  if pos.toNat > sv.length then
    none
  else
    some ((sv.drop pos.toNat).take (min count.toNat (sv.length - pos.toNat)))

/-- How a number of passes of the loop ends. -/
inductive ScanResult where
  | returned (result : List StringView)
  | outOfRange
  | unfinished
deriving DecidableEq

/-- At most `fuel` passes of the loop of `parse_list`. -/
def scanList (sv : StringView) :
    ℕ → BitVec 64 → List StringView → ScanResult
  | 0, _, _ => .unfinished
  | fuel + 1, start, result =>
      let comma := findSize sv ',' start
      match substrSize sv start (comma - start) with
      | none => .outOfRange
      | some token =>
          if comma = npos then
            .returned (result ++ [token])
          else
            scanList sv fuel (comma + 1#64) (result ++ [token])

theorem toNat_npos : npos.toNat = 2 ^ 64 - 1 := by
  decide

section Positions

variable {sv : StringView} {start : ℕ}

theorem toNat_ofNat_position (hsize : sv.length < npos.toNat)
    (hstart : start ≤ sv.length) : (BitVec.ofNat 64 start).toNat = start := by
  rw [toNat_npos] at hsize
  rw [BitVec.toNat_ofNat, Nat.mod_eq_of_lt (by omega)]

/-- A position inside the text is not `npos`. -/
theorem ofNat_ne_npos (hsize : sv.length < npos.toNat)
    (hstart : start ≤ sv.length) : BitVec.ofNat 64 start ≠ npos := by
  intro h
  have hposition := toNat_ofNat_position hsize hstart
  rw [h] at hposition
  omega

/-- The count from a position to `npos` reaches the end of the text. -/
theorem substrSize_npos (hsize : sv.length < npos.toNat)
    (hstart : start ≤ sv.length) :
    substrSize sv (BitVec.ofNat 64 start) (npos - BitVec.ofNat 64 start) =
      some (substr sv start none) := by
  have hposition := toNat_ofNat_position hsize hstart
  have hcount : (npos - BitVec.ofNat 64 start).toNat =
      npos.toNat - start := by
    rw [BitVec.toNat_sub_of_le, hposition]
    rw [BitVec.le_def, hposition]
    omega
  rw [substrSize, hposition, hcount, if_neg (by omega), substr,
    List.take_of_length_le]
  rw [List.length_drop]
  omega

/-- The count from a position to a comma stops in front of the comma. -/
theorem substrSize_comma (hsize : sv.length < npos.toNat) {comma : ℕ}
    (hstart : start ≤ comma) (hcomma : comma < sv.length) :
    substrSize sv (BitVec.ofNat 64 start)
        (BitVec.ofNat 64 comma - BitVec.ofNat 64 start) =
      some (substr sv start (some (comma - start))) := by
  have hposition := toNat_ofNat_position hsize (hstart.trans hcomma.le)
  have hcount : (BitVec.ofNat 64 comma - BitVec.ofNat 64 start).toNat =
      comma - start := by
    rw [BitVec.toNat_sub_of_le, hposition,
      toNat_ofNat_position hsize hcomma.le]
    rw [BitVec.le_def, hposition, toNat_ofNat_position hsize hcomma.le]
    exact hstart
  rw [substrSize, hposition, hcount, if_neg (by omega), substr,
    Nat.min_eq_left (by omega)]

/-- With a pass for every character ahead and one more, the loop returns, throws
nothing and finds the tokens of the loop on natural positions. -/
theorem scanList_eq (hsize : sv.length < npos.toNat)
    (result : List StringView) (hstart : start ≤ sv.length) {fuel : ℕ}
    (hfuel : sv.length - start < fuel) :
    scanList sv fuel (BitVec.ofNat 64 start) result =
      .returned (parseListLoop sv start result) := by
  induction start, result using parseListLoop.induct sv generalizing fuel with
  | case1 start result hnone =>
      obtain ⟨fuel, rfl⟩ := Nat.exists_eq_add_one.mpr (Nat.zero_lt_of_lt hfuel)
      have hfind : findSize sv ',' (BitVec.ofNat 64 start) = npos := by
        rw [findSize, toNat_ofNat_position hsize hstart, hnone]
      rw [parseListLoop_of_none hnone, scanList]
      simp only [hfind, substrSize_npos hsize hstart, if_true]
  | case2 start result comma hsome ih =>
      obtain ⟨fuel, rfl⟩ := Nat.exists_eq_add_one.mpr (Nat.zero_lt_of_lt hfuel)
      obtain ⟨hle, hlt⟩ := find_bounds hsome
      have hfind : findSize sv ',' (BitVec.ofNat 64 start) =
          BitVec.ofNat 64 comma := by
        rw [findSize, toNat_ofNat_position hsize hstart, hsome]
      have hnext : BitVec.ofNat 64 comma + 1#64 =
          BitVec.ofNat 64 (comma + 1) := by
        rw [← BitVec.ofNat_add]
      rw [parseListLoop_of_some hsome, scanList]
      simp only [hfind, substrSize_comma hsize hle hlt,
        ofNat_ne_npos hsize hlt.le, if_false, hnext]
      exact ih hlt (by omega)

end Positions

/-! ## Splitting and joining -/

/-- No token has a comma. -/
theorem comma_notMem_parseListLoop {sv : StringView} {start : ℕ}
    {result : List StringView} (hresult : ∀ token ∈ result, ',' ∉ token) :
    ∀ token ∈ parseListLoop sv start result, ',' ∉ token := by
  induction start, result using parseListLoop.induct sv with
  | case1 start result hnone =>
      rw [parseListLoop_of_none hnone, List.forall_mem_append,
        List.forall_mem_singleton]
      exact ⟨hresult, find_eq_none hnone⟩
  | case2 start result comma hsome ih =>
      rw [parseListLoop_of_some hsome]
      apply ih
      rw [List.forall_mem_append, List.forall_mem_singleton]
      exact ⟨hresult, (find_eq_some hsome).1⟩

/-- The tokens of a list, joined again, are the list. -/
theorem joinList_parseListLoop (sv : StringView) :
    joinList (parseListLoop sv 0 []) = sv := by
  rw [parseListLoop_eq, List.nil_append, List.drop_zero, joinList]
  exact List.intercalate_splitOn ','

/-- `parse_list` is the inverse of joining with commas, on every text other than
`auto`, and its loop returns without reading past the end of the text. -/
theorem parseList_inverse :
    (∀ listSv : StringView, listSv ≠ autoText →
      ∃ tokens, parseList listSv = some tokens ∧
        (∀ token ∈ tokens, ',' ∉ token) ∧ joinList tokens = listSv ∧
        (listSv.length < npos.toNat →
          scanList listSv (listSv.length + 1) 0#64 [] = .returned tokens)) ∧
      (∀ tokens : List StringView, tokens ≠ [] →
        (∀ token ∈ tokens, ',' ∉ token) → joinList tokens ≠ autoText →
        parseList (joinList tokens) = some tokens) := by
  constructor
  · intro listSv hauto
    refine ⟨parseListLoop listSv 0 [], if_neg hauto,
      comma_notMem_parseListLoop (List.forall_mem_nil _),
      joinList_parseListLoop listSv, ?_⟩
    intro hsize
    exact scanList_eq hsize [] (Nat.zero_le _) (by omega)
  · intro tokens hne hcomma hauto
    rw [parseList_eq, if_neg hauto, splitOn_joinList hne hcomma]

/-- A leading and a trailing comma, both ways. -/
theorem parseList_inverse_empty_tokens :
    parseList (joinList [[], ['a'], []]) = some [[], ['a'], []] ∧
      ∃ tokens, parseList [',', 'a', ','] = some tokens ∧
        joinList tokens = [',', 'a', ','] ∧
        scanList [',', 'a', ','] 4 0#64 [] = .returned tokens := by
  obtain ⟨hsplit, hjoin⟩ := parseList_inverse
  obtain ⟨tokens, hparse, -, htokens, hscan⟩ :=
    hsplit [',', 'a', ','] (by decide)
  exact ⟨hjoin [[], ['a'], []] (by decide) (by decide) (by decide),
    tokens, hparse, htokens, hscan (by decide)⟩

end BenchBox
