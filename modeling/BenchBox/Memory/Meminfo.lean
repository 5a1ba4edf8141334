import BenchBox.Memory.LargePages
import BenchBox.Parse
import BenchBox.Support.Decimal
import BenchBox.Support.PartialLoop
import BenchBox.Support.Words
import Mathlib.Data.List.Infix

/-!
# The page size

On Linux the size of a large page and the available memory are numbers in
`/proc/meminfo`.  Both are read by the same scan for a line with a key, and the
page size is read once and kept in a static variable.
-/

namespace BenchBox

open Decimal PartialLoop Words

/-! ## The scan -/

/-- `sv.find(pattern, pos)`. -/
def findText (sv pattern : StringView) (pos : ℕ) : Option ℕ :=
  ((sv.drop pos).tails.findIdx? fun rest => pattern.isPrefixOf rest).map
    (pos + ·)

/-- `std::stoull` of a text that starts with a digit; `none` is a thrown
`std::out_of_range`. -/
def stoull (text : StringView) : Option ℕ :=
  let value := Nat.ofDigitChars 10 (text.takeWhile Char.isDigit) 0
  if value < 2 ^ 64 then some value else none

/-- The number in a line: from the first digit on, and up to ` kB`. -/
def lineNumber (line : StringView) : Option ℕ :=
  match line.findIdx? Char.isDigit with
  | none => some 0
  | some start =>
      let stop := findText line " kB".toList start
      stoull (substr line start (stop.map (· - start)))

/-- The loop over the lines, which ends at the first one with the key. -/
def scanMeminfo (key : StringView) : List StringView → Option ℕ
  | [] => some 0
  | line :: lines =>
      if (findText line key 0).isSome then lineNumber line
      else scanMeminfo key lines

/-- The number of a key in `/proc/meminfo`, zero if the file does not open or has
no such line.  The callers are `noexcept`, so an exception ends the program: the
result is then `none`. -/
def meminfoKb (key : StringView) (meminfo : Option StringView) : Option ℕ :=
  match meminfo with
  | none => some 0
  | some text => scanMeminfo key (getLines '\n' text)

/-- The number of a key in bytes. -/
def meminfoBytes (key : StringView) (meminfo : Option StringView) :
    Option (BitVec 64) :=
  (meminfoKb key meminfo).map fun kb => BitVec.ofNat 64 kb * 1024#64

/-- `get_available_mem`. -/
def getAvailableMem (meminfo : Option StringView) : Option (BitVec 64) :=
  meminfoBytes "MemAvailable:".toList meminfo

/-- `get_large_page_size_impl`. -/
def getLargePageSizeImpl (meminfo : Option StringView) : Option (BitVec 64) :=
  meminfoBytes "Hugepagesize:".toList meminfo

section Scan

variable {sv pattern key label unit : StringView} {pos stop n : ℕ}

theorem findText_eq_some (h : findText sv pattern pos = some stop) :
    pos ≤ stop ∧ pattern <+: sv.drop stop := by
  rw [findText, Option.map_eq_some_iff] at h
  obtain ⟨i, hi, rfl⟩ := h
  rw [List.findIdx?_eq_some_iff_getElem] at hi
  obtain ⟨hlt, hprefix, -⟩ := hi
  rw [List.getElem_tails, List.drop_drop, List.isPrefixOf_iff_prefix] at hprefix
  exact ⟨Nat.le_add_right pos i, hprefix⟩

theorem isSome_findText_iff :
    (findText sv pattern 0).isSome = true ↔ pattern <:+: sv := by
  rw [findText, Option.isSome_map, List.findIdx?_isSome, List.any_eq_true,
    List.infix_iff_prefix_suffix, List.drop_zero]
  constructor
  · rintro ⟨rest, hrest, hprefix⟩
    exact ⟨rest, List.isPrefixOf_iff_prefix.mp hprefix,
      (List.mem_tails _ _).mp hrest⟩
  · rintro ⟨rest, hprefix, hsuffix⟩
    exact ⟨rest, (List.mem_tails _ _).mpr hsuffix,
      List.isPrefixOf_iff_prefix.mpr hprefix⟩

theorem stoull_toDigits (hunit : ∀ c ∈ unit.head?, c.isDigit = false) :
    stoull (Nat.toDigits 10 n ++ unit) = if n < 2 ^ 64 then some n else none := by
  rw [stoull, takeWhile_isDigit_toDigits hunit, Nat.ofDigitChars_ten_toDigits]

/-- The unit is not found before the end of the number. -/
theorem le_of_findText_unit {digits : StringView}
    (hdigits : ∀ c ∈ digits, c.isDigit = true)
    (h : findText (label ++ (digits ++ unit)) " kB".toList label.length =
      some stop) : label.length + digits.length ≤ stop := by
  obtain ⟨hle, hprefix⟩ := findText_eq_some h
  by_contra hlt
  obtain ⟨i, rfl⟩ := Nat.exists_eq_add_of_le hle
  have hi : i < digits.length := by omega
  rw [List.drop_append, List.drop_of_length_le (by omega), List.nil_append,
    Nat.add_sub_cancel_left, List.drop_append_of_le_length hi.le,
    List.drop_eq_getElem_cons hi, List.cons_append] at hprefix
  have hspace := (List.cons_prefix_cons.mp hprefix).1
  have hdigit := hdigits _ (List.getElem_mem hi)
  rw [← hspace] at hdigit
  exact absurd hdigit (by decide)

/-- A line with one number, after a text without digits. -/
theorem lineNumber_eq (hlabel : ∀ c ∈ label, c.isDigit = false)
    (hunit : ∀ c ∈ unit.head?, c.isDigit = false) :
    lineNumber (label ++ (Nat.toDigits 10 n ++ unit)) =
      if n < 2 ^ 64 then some n else none := by
  have hdigits : ∀ c ∈ Nat.toDigits 10 n, c.isDigit = true := fun c hc =>
    Nat.isDigit_of_mem_toDigits (by decide) (by decide) hc
  have hstart : (label ++ (Nat.toDigits 10 n ++ unit)).findIdx? Char.isDigit =
      some label.length := by
    obtain ⟨c, rest, hnumber⟩ :=
      List.exists_cons_of_ne_nil (Nat.toDigits_ne_nil (n := n) (b := 10))
    have hc : c.isDigit = true := hdigits c (hnumber ▸ List.mem_cons_self)
    rw [List.findIdx?_append, List.findIdx?_eq_none_iff.mpr hlabel, hnumber,
      List.cons_append, List.findIdx?_cons, if_pos hc]
    simp
  rw [lineNumber, hstart]
  dsimp only
  cases hstop : findText (label ++ (Nat.toDigits 10 n ++ unit)) " kB".toList
    label.length with
  | none =>
      rw [Option.map_none, substr, List.drop_left, stoull_toDigits hunit]
  | some stop =>
      have hle := le_of_findText_unit hdigits hstop
      have hrest : ∀ k, ∀ c ∈ (unit.take k).head?, c.isDigit = false := by
        intro k c hc
        rw [List.head?_take] at hc
        split at hc
        · contradiction
        · exact hunit c hc
      rw [Option.map_some, substr, List.drop_left, List.take_append,
        List.take_of_length_le (by omega), stoull_toDigits (hrest _)]

/-- Lines before the one with the key are skipped. -/
theorem scanMeminfo_append {before lines : List StringView}
    (hbefore : ∀ line ∈ before, ¬key <:+: line) :
    scanMeminfo key (before ++ lines) = scanMeminfo key lines := by
  induction before with
  | nil => rfl
  | cons line before ih =>
      rw [List.forall_mem_cons] at hbefore
      have hnot : ¬(findText line key 0).isSome = true :=
        fun h => hbefore.1 (isSome_findText_iff.mp h)
      rw [List.cons_append, scanMeminfo, if_neg hnot, ih hbefore.2]

/-- In a file of lines the number of the first line with the key is read; one that
does not fit 64 bits ends the program. -/
theorem meminfoKb_unlines {before after : List StringView}
    (hlines : ∀ line ∈ before ++ (label ++ (Nat.toDigits 10 n ++ unit)) :: after,
      '\n' ∉ line)
    (hbefore : ∀ line ∈ before, ¬key <:+: line) (hkey : key <:+: label)
    (hlabel : ∀ c ∈ label, c.isDigit = false)
    (hunit : ∀ c ∈ unit.head?, c.isDigit = false) :
    meminfoKb key (some (unlines '\n'
        (before ++ (label ++ (Nat.toDigits 10 n ++ unit)) :: after))) =
      if n < 2 ^ 64 then some n else none := by
  have hfound : (findText (label ++ (Nat.toDigits 10 n ++ unit)) key 0).isSome =
      true :=
    isSome_findText_iff.mpr (hkey.trans (List.infix_append' [] label _))
  rw [meminfoKb, getLines_unlines hlines, scanMeminfo_append hbefore, scanMeminfo,
    if_pos hfound, lineNumber_eq hlabel hunit]

/-- Without a line with the key the number is zero. -/
theorem meminfoKb_of_absent {lines : List StringView}
    (hlines : ∀ line ∈ lines, '\n' ∉ line)
    (habsent : ∀ line ∈ lines, ¬key <:+: line) :
    meminfoKb key (some (unlines '\n' lines)) = some 0 := by
  rw [meminfoKb, getLines_unlines hlines, ← List.append_nil lines,
    scanMeminfo_append habsent]
  rfl

/-- Both functions read the first line with their key, as bytes modulo `2 ^ 64`.
Without such a line, or without the file, they return zero, and a number of more
than 64 bits ends the program. -/
theorem meminfoBytes_eq (key : StringView) :
    (∀ before after label unit n,
      (∀ line ∈ before ++ (label ++ (Nat.toDigits 10 n ++ unit)) :: after,
        '\n' ∉ line) →
      (∀ line ∈ before, ¬key <:+: line) → key <:+: label →
      (∀ c ∈ label, c.isDigit = false) →
      (∀ c ∈ unit.head?, c.isDigit = false) →
      meminfoBytes key (some (unlines '\n'
          (before ++ (label ++ (Nat.toDigits 10 n ++ unit)) :: after))) =
        if n < 2 ^ 64 then some (BitVec.ofNat 64 (n * 1024)) else none) ∧
    (∀ lines, (∀ line ∈ lines, '\n' ∉ line) → (∀ line ∈ lines, ¬key <:+: line) →
      meminfoBytes key (some (unlines '\n' lines)) = some 0#64) ∧
    meminfoBytes key none = some 0#64 := by
  refine ⟨?_, ?_, by simp [meminfoBytes, meminfoKb]⟩
  · intro before after label unit n hlines hbefore hkey hlabel hunit
    rw [meminfoBytes, meminfoKb_unlines hlines hbefore hkey hlabel hunit]
    split
    · rw [Option.map_some, BitVec.ofNat_mul]
    · rfl
  · intro lines hlines habsent
    rw [meminfoBytes, meminfoKb_of_absent hlines habsent]
    simp

/-- The page size of 2 MiB, after a line with another key. -/
theorem meminfoBytes_eq_hugepagesize :
    getLargePageSizeImpl (some (unlines '\n'
      ["MemTotal:       16314552 kB".toList,
        "Hugepagesize:       2048 kB".toList, "Hugetlb: 0 kB".toList])) =
      some 2097152#64 := by
  have hlabel : ∀ c ∈ "Hugepagesize:       ".toList, c.isDigit = false := by
    intro c hc
    have hall : ("Hugepagesize:       ".toList.all fun c => !c.isDigit) =
        true := by
      decide
    simpa using List.all_eq_true.mp hall c hc
  have hunit : ∀ c ∈ " kB".toList.head?, c.isDigit = false := by
    intro c hc
    obtain rfl : ' ' = c := Option.some.inj hc
    rfl
  have hread := (meminfoBytes_eq "Hugepagesize:".toList).1
    ["MemTotal:       16314552 kB".toList] ["Hugetlb: 0 kB".toList]
    "Hugepagesize:       ".toList " kB".toList 2048 (by decide +kernel)
    (by decide +kernel) (by decide +kernel) hlabel hunit
  exact hread

end Scan

/-! ## The page size in a run -/

variable {Address : Type*}

/-- `get_large_page_size`, with the value of its static variable, if it has one
already. -/
def getLargePageSize (pageSize : Option (BitVec 64))
    (meminfo : Option StringView) : Option (BitVec 64) :=
  match pageSize with
  | some size => some size
  | none => getLargePageSizeImpl meminfo

/-- The static variable, the mappings with the bytes they were asked for, and the
mappings given back with what `munmap` was passed for them. -/
structure LargePages (Address : Type*) where
  pageSize : Option (BitVec 64) := none
  mapped : List (Mapping Address × ℕ) := []
  unmapped : List (Mapping Address × Mapping Address) := []
deriving DecidableEq

/-- A call, with what `/proc/meminfo` holds at that time and with the answer of
`mmap`.  A mapping is given back with the bytes it was asked for. -/
inductive LargePageCall (Address : Type*) where
  | tryMalloc (meminfo : Option StringView) (bytes : ℕ)
      (answer : Option Address)
  | free (meminfo : Option StringView) (index : ℕ)
deriving DecidableEq

/-- The file that a call would read the page size from. -/
def LargePageCall.meminfo : LargePageCall Address → Option StringView
  | .tryMalloc meminfo _ _ => meminfo
  | .free meminfo _ => meminfo

namespace LargePages

/-- One call; `none` if the program ends or no mapping has the index. -/
def step (pages : LargePages Address) :
    LargePageCall Address → Option (LargePages Address)
  | .tryMalloc meminfo bytes answer =>
      (getLargePageSize pages.pageSize meminfo).map fun size =>
        { pages with
          pageSize := some size
          mapped := pages.mapped ++
            (tryMallocLargePage size (fun _ => answer) bytes).toList.map
              fun ptr => (ptr, bytes) }
  | .free meminfo index =>
      (getLargePageSize pages.pageSize meminfo).bind fun size =>
        pages.mapped[index]?.map fun block =>
          { pageSize := some size
            mapped := pages.mapped.eraseIdx index
            unmapped := pages.unmapped ++
              (freeLargePage size (some block.1) block.2).toList.map
                fun args => (block.1, args) }

def run (pages : LargePages Address) (calls : List (LargePageCall Address)) :
    Option (LargePages Address) :=
  calls.foldlM step pages

/-- Every mapping has the length that the page size gives for its bytes, and was
given back with its own length. -/
structure Consistent (pages : LargePages Address) : Prop where
  mapped : ∀ x ∈ pages.mapped, ∃ size, pages.pageSize = some size ∧
    x.1.length = bytesRoundedUp size x.2
  unmapped : ∀ x ∈ pages.unmapped, x.2 = x.1

theorem consistent_nil : Consistent ({} : LargePages Address) :=
  ⟨List.forall_mem_nil _, List.forall_mem_nil _⟩

/-- The static variable keeps its value. -/
theorem getLargePageSize_of_some {pageSize : Option (BitVec 64)}
    {meminfo : Option StringView} {size p : BitVec 64}
    (hsize : getLargePageSize pageSize meminfo = some size)
    (hp : pageSize = some p) : size = p := by
  rw [hp, getLargePageSize] at hsize
  exact (Option.some.inj hsize).symm

theorem Consistent.step {pages pages' : LargePages Address}
    (h : pages.Consistent) {call : LargePageCall Address}
    (hstep : pages.step call = some pages') : pages'.Consistent := by
  cases call with
  | tryMalloc meminfo bytes answer =>
      simp only [LargePages.step, Option.map_eq_some_iff] at hstep
      obtain ⟨size, hsize, rfl⟩ := hstep
      refine ⟨?_, h.unmapped⟩
      intro x hx
      refine ⟨size, rfl, ?_⟩
      rcases List.mem_append.mp hx with hx | hx
      · obtain ⟨p, hp, hlength⟩ := h.mapped x hx
        rw [getLargePageSize_of_some hsize hp]
        exact hlength
      · obtain ⟨ptr, hptr, rfl⟩ := List.mem_map.mp hx
        rw [Option.mem_toList, tryMallocLargePage,
          Option.map_eq_some_iff] at hptr
        obtain ⟨address, -, rfl⟩ := hptr
        rfl
  | free meminfo index =>
      simp only [LargePages.step, Option.bind_eq_some_iff,
        Option.map_eq_some_iff] at hstep
      obtain ⟨size, hsize, block, hblock, rfl⟩ := hstep
      refine ⟨?_, ?_⟩
      · intro x hx
        obtain ⟨p, hp, hlength⟩ := h.mapped x (List.mem_of_mem_eraseIdx hx)
        refine ⟨size, rfl, ?_⟩
        rw [getLargePageSize_of_some hsize hp]
        exact hlength
      · intro x hx
        rcases List.mem_append.mp hx with hx | hx
        · exact h.unmapped x hx
        · obtain ⟨p, hp, hlength⟩ := h.mapped block (List.mem_of_getElem? hblock)
          rw [freeLargePage, Option.map_some, Option.toList_some,
            List.map_singleton, List.mem_singleton] at hx
          rw [hx, getLargePageSize_of_some hsize hp, ← hlength]

theorem Consistent.run {pages pages' : LargePages Address}
    (h : pages.Consistent) {calls : List (LargePageCall Address)}
    (hrun : pages.run calls = some pages') : pages'.Consistent :=
  foldlM_induction (fun hreached hstep => hreached.step hstep) h hrun

/-- A call leaves the page size in the static variable. -/
theorem pageSize_step {pages pages' : LargePages Address}
    {call : LargePageCall Address} (hstep : pages.step call = some pages') :
    ∃ size, getLargePageSize pages.pageSize call.meminfo = some size ∧
      pages'.pageSize = some size := by
  cases call with
  | tryMalloc meminfo bytes answer =>
      simp only [LargePages.step, Option.map_eq_some_iff] at hstep
      obtain ⟨size, hsize, rfl⟩ := hstep
      exact ⟨size, hsize, rfl⟩
  | free meminfo index =>
      simp only [LargePages.step, Option.bind_eq_some_iff,
        Option.map_eq_some_iff] at hstep
      obtain ⟨size, hsize, block, -, rfl⟩ := hstep
      exact ⟨size, hsize, rfl⟩

theorem pageSize_run {pages pages' : LargePages Address} {size : BitVec 64}
    (h : pages.pageSize = some size) {calls : List (LargePageCall Address)}
    (hrun : pages.run calls = some pages') : pages'.pageSize = some size := by
  have hkeeps : ∀ {pages : LargePages Address} {call : LargePageCall Address}
      {reached : LargePages Address}, pages.pageSize = some size →
        pages.step call = some reached → reached.pageSize = some size := by
    intro pages call reached hsize hstep
    obtain ⟨p, hp, hreached⟩ := pageSize_step hstep
    rw [getLargePageSize_of_some hp hsize] at hreached
    exact hreached
  exact foldlM_induction hkeeps h hrun

/-- Whatever `/proc/meminfo` says at each call, the page size is that of the first
call, every mapping has the length that this page size gives, and `munmap` is
passed the address and the length that were mapped. -/
theorem munmap_of_run (first : LargePageCall Address)
    (calls : List (LargePageCall Address)) (pages : LargePages Address)
    (hrun : LargePages.run {} (first :: calls) = some pages) :
    ∃ size, getLargePageSizeImpl first.meminfo = some size ∧
      pages.pageSize = some size ∧
      (∀ x ∈ pages.mapped, x.1.length = bytesRoundedUp size x.2) ∧
      ∀ x ∈ pages.unmapped, x.2 = x.1 := by
  have hconsistent := consistent_nil.run hrun
  obtain ⟨reached, hstep, hrest⟩ := foldlM_cons_eq_some.mp hrun
  obtain ⟨size, hsize, hreached⟩ := pageSize_step hstep
  have hpage := pageSize_run hreached hrest
  refine ⟨size, hsize, hpage, ?_, hconsistent.unmapped⟩
  intro x hx
  obtain ⟨p, hp, hlength⟩ := hconsistent.mapped x hx
  obtain rfl := Option.some.inj (hpage.symm.trans hp)
  exact hlength

/-- The file names another page size when the mapping is given back. -/
theorem munmap_of_run_changed :
    ∃ size, getLargePageSizeImpl (some "Hugepagesize: 2048 kB".toList) =
        some size ∧
      ∀ x ∈ ([(⟨4096, 2097152⟩, ⟨4096, 2097152⟩)] :
        List (Mapping ℕ × Mapping ℕ)), x.2 = x.1 := by
  obtain ⟨size, hsize, -, -, hunmapped⟩ := munmap_of_run
    (.tryMalloc (some "Hugepagesize: 2048 kB".toList) 1000 (some 4096))
    [.free (some "Hugepagesize: 1048576 kB".toList) 0]
    ⟨some 2097152#64, [], [(⟨4096, 2097152⟩, ⟨4096, 2097152⟩)]⟩
    (by decide +kernel)
  exact ⟨size, hsize, hunmapped⟩

end LargePages

end BenchBox
