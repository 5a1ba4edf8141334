import BenchBox.Support.Decimal
import BenchBox.Threading.Linux.Builder

/-!
# The files of an enumeration

What the kernel shows of the CPUs: a directory for each among other entries, in
which one entry names the node and files hold numbers as decimal texts.  The
builder reads these numbers back.
-/

namespace BenchBox
namespace Linux

open Decimal PartialLoop

/-- The file holds the decimal text of a 32-bit number, with nothing behind it
that continues it; without the number there is no file. -/
def Holds (file : Option StringView) : Option ℕ → Prop
  | none => file = none
  | some n => n < 2 ^ 32 ∧ ∃ rest, file = some (Nat.toDigits 10 n ++ rest) ∧
      ∀ c ∈ rest.head?, c.isDigit = false

/-- The directory of a CPU: the first entry that starts with `node` names its
node, and its other numbers are in files. -/
structure ShowsCpu (fs : Sysfs) (e : CpuEntry) : Prop where
  cpu : e.cpu < 2 ^ 32
  node : e.nodeId < 2 ^ 32 ∧ ∃ before after,
    fs.entries [cpuDir e.cpu] = some (before ++
      ("node".toList ++ Nat.toDigits 10 e.nodeId) :: after) ∧
    ∀ name ∈ before, "node".toList.isPrefixOf name = false
  capacity : ∃ capacity,
    Holds (fs.file [cpuDir e.cpu, "cpu_capacity".toList]) capacity ∧
      e.capacity = capacity.getD 1024
  l3Id : Holds (fs.file (llcIdPath e.cpu)) e.l3Id
  topologyCoreId : Holds (fs.file (coreIdPath e.cpu)) e.topologyCoreId

/-- Among the entries of the directory those that start with `cpu` and a digit are
the directories of the CPUs, in this order. -/
structure Shows (fs : Sysfs) (cpus : List CpuEntry) : Prop where
  root : ∃ names, fs.entries [] = some names ∧
    names.filter (fun name =>
      "cpu".toList.isPrefixOf name && name[3]?.any Char.isDigit) =
        cpus.map fun e => cpuDir e.cpu
  cpu : ∀ e ∈ cpus, ShowsCpu fs e

/-! ## Decimal texts -/

theorem toNat_bounds_of_isDigit {c : Char} (h : c.isDigit) :
    48 ≤ c.toNat ∧ c.toNat ≤ 57 := by
  simp only [Char.isDigit, Bool.and_eq_true, decide_eq_true_eq, ge_iff_le,
    UInt32.le_iff_toNat_le] at h
  exact h

theorem ne_of_isDigit {c d : Char} (h : c.isDigit) (hd : ¬d.isDigit) :
    (c == d) = false := by
  rw [beq_eq_false_iff_ne]
  rintro rfl
  exact hd h

theorem isSpace_eq_false_of_isDigit {c : Char} (h : c.isDigit) :
    isSpace c = false := by
  have hbounds := toNat_bounds_of_isDigit h
  rw [isSpace, ne_of_isDigit h (by decide), Bool.false_or,
    Bool.and_eq_false_iff, decide_eq_false_iff_not, decide_eq_false_iff_not]
  omega

/-- The number at the start of a text is read. -/
theorem extractU32_toDigits {n : ℕ} (h : n < 2 ^ 32) {rest : StringView}
    (hrest : ∀ c ∈ rest.head?, c.isDigit = false) (v : ℕ) :
    extractU32 (Nat.toDigits 10 n ++ rest) v = n := by
  have hvalue : Nat.ofDigitChars 10 (Nat.toDigits 10 n) 0 = n :=
    Nat.ofDigitChars_ten_toDigits
  have htake := takeWhile_isDigit_toDigits (n := n) hrest
  obtain ⟨c, digits, htext⟩ := List.exists_cons_of_ne_nil
    (Nat.toDigits_ne_nil (n := n) (b := 10))
  have hc : c.isDigit = true := isDigit_toDigits (htext ▸ List.mem_cons_self)
  rw [htext, List.cons_append] at htake ⊢
  rw [extractU32, List.dropWhile_cons_of_neg
    (by simp [isSpace_eq_false_of_isDigit hc])]
  dsimp only
  rw [ne_of_isDigit hc (by decide), ne_of_isDigit hc (by decide)]
  simp only [Bool.or_self, Bool.false_eq_true, if_false]
  rw [htake, ← htext, hvalue, if_pos h, htext]
  rfl

/-- A number in a file is read back, and so is its absence. -/
theorem Holds.map_extractU32 {file : Option StringView} {number : Option ℕ}
    (h : Holds file number) (v : ℕ) :
    file.map (fun text => extractU32 text v) = number := by
  cases number with
  | none =>
      obtain rfl : file = none := h
      rfl
  | some n =>
      obtain ⟨hn, rest, rfl, hrest⟩ := h
      rw [Option.map_some, extractU32_toDigits hn hrest]

theorem Holds.readU32 {fs : Sysfs} {path : Path} {number : Option ℕ}
    (h : Holds (fs.file path) number) (default : ℕ) :
    readU32 fs path default = number.getD default := by
  rw [← h.map_extractU32 default, Linux.readU32]
  cases fs.file path <;> rfl

theorem cpuNumber_cpuDir {cpu : ℕ} (h : cpu < 2 ^ 32) :
    cpuNumber (cpuDir cpu) = some cpu := by
  have hdrop : substr (cpuDir cpu) 3 none = Nat.toDigits 10 cpu := rfl
  have hdigit : (cpuDir cpu)[3]?.any Char.isDigit = true := by
    obtain ⟨c, rest, htext⟩ := List.exists_cons_of_ne_nil
      (Nat.toDigits_ne_nil (n := cpu) (b := 10))
    have hc : c ∈ Nat.toDigits 10 cpu := htext ▸ List.mem_cons_self
    rw [cpuDir, htext]
    exact Nat.isDigit_of_mem_toDigits (by decide) (by decide) hc
  rw [cpuNumber, hdigit, hdrop, fromChars_toDigits h]
  rfl

/-- The first entry of a node is read, whatever stands before and after it. -/
theorem readNodeId_append {before : List StringView}
    (hbefore : ∀ name ∈ before, "node".toList.isPrefixOf name = false)
    {nodeId : ℕ} (h : nodeId < 2 ^ 32) (after : List StringView) :
    readNodeId (before ++ ("node".toList ++ Nat.toDigits 10 nodeId) :: after) =
      nodeId := by
  induction before with
  | nil =>
      have hdrop : substr ("node".toList ++ Nat.toDigits 10 nodeId) 4 none =
          Nat.toDigits 10 nodeId := rfl
      have hnode : "node".toList.isPrefixOf
          ("node".toList ++ Nat.toDigits 10 nodeId) = true :=
        List.isPrefixOf_iff_prefix.mpr (List.prefix_append _ _)
      rw [List.nil_append, readNodeId, if_pos hnode, hdrop, fromChars_toDigits h]
      rfl
  | cons name before ih =>
      rw [List.forall_mem_cons] at hbefore
      rw [List.cons_append, readNodeId,
        if_neg (Bool.not_eq_true _ ▸ hbefore.1), ih hbefore.2]

/-! ## Reading the files back -/

theorem readCpu_of_shows {fs : Sysfs} {e : CpuEntry} (h : ShowsCpu fs e) :
    readCpu fs (e.cpu, e.capacity) = some e := by
  obtain ⟨hnode, before, after, hentries, hbefore⟩ := h.node
  rw [readCpu, hentries, Option.map_some, readNodeId_append hbefore hnode,
    reportU32, reportU32, h.l3Id.map_extractU32, h.topologyCoreId.map_extractU32]

/-- A name that is no directory of a CPU has no number. -/
theorem cpuNumber_eq_none {name : StringView}
    (h : ("cpu".toList.isPrefixOf name && name[3]?.any Char.isDigit) ≠ true) :
    cpuNumber name = none := by
  rw [cpuNumber, if_pos]
  rwa [← Bool.not_and, Bool.not_eq_true', ← Bool.not_eq_true]

/-- What the files show, the builder enumerates. -/
theorem enumerate_of_shows {fs : Sysfs} {cpus : List CpuEntry}
    (h : Shows fs cpus) :
    enumerate fs = some cpus ∧ buildTopoTree fs = some (treeOf cpus) := by
  obtain ⟨names, hnames, hfilter⟩ := h.root
  have hentries : cpuEntries fs names =
      cpus.map fun e => (e.cpu, e.capacity) := by
    let isCpu : StringView → Bool := fun name =>
      "cpu".toList.isPrefixOf name && name[3]?.any Char.isDigit
    let readEntry : StringView → Option (ℕ × ℕ) := fun name =>
      (cpuNumber name).map fun cpu =>
        (cpu, readU32 fs [name, "cpu_capacity".toList] 1024)
    have hskip : names.filterMap readEntry =
        (names.filter isCpu).filterMap readEntry := by
      rw [List.filterMap_filter]
      apply List.filterMap_congr
      intro name _
      split
      · rfl
      · rename_i hother
        exact congrArg (Option.map _) (cpuNumber_eq_none hother)
    have hshown : names.filterMap readEntry =
        (cpus.map fun e => cpuDir e.cpu).filterMap readEntry :=
      hskip.trans (congrArg (List.filterMap readEntry) hfilter)
    rw [cpuEntries]
    refine hshown.trans ?_
    rw [List.filterMap_map, ← List.filterMap_eq_map]
    apply List.filterMap_congr
    intro e he
    obtain ⟨capacity, hcapacity, hvalue⟩ := (h.cpu e he).capacity
    show readEntry (cpuDir e.cpu) = some (e.cpu, e.capacity)
    rw [hvalue, ← hcapacity.readU32]
    exact congrArg (Option.map _) (cpuNumber_cpuDir (h.cpu e he).cpu)
  have henum : enumerate fs = some cpus := by
    rw [enumerate, hnames, Option.bind_some, hentries]
    exact mapM_map_eq_some fun e he => readCpu_of_shows (h.cpu e he)
  exact ⟨henum, buildTopoTree_of_enumerate henum⟩

/-- Two CPUs among other entries; one has a capacity and a core id. -/
theorem enumerate_of_shows_two :
    let fs : Sysfs :=
      { entries := fun path =>
          if path = [] then
            some ["cpufreq".toList, "cpu1".toList, "cpu0".toList]
          else if path = ["cpu0".toList] then
            some ["topology".toList, "node0".toList]
          else if path = ["cpu1".toList] then
            some ["node2".toList, "uevent".toList]
          else none
        file := fun path =>
          if path = ["cpu0".toList, "cpu_capacity".toList] then
            some "512\n".toList
          else if path = ["cpu0".toList, "topology".toList, "core_id".toList]
            then some "3\n".toList
          else none }
    enumerate fs = some [⟨1, 1024, 2, none, none⟩, ⟨0, 512, 0, none, some 3⟩] := by
  intro fs
  have hcapacity : fs.file [cpuDir 1, "cpu_capacity".toList] = none := by decide
  have hcoreId : fs.file (coreIdPath 1) = none := by decide
  have hllcId (cpu : ℕ) (hcpu : cpu ∈ [0, 1]) :
      fs.file (llcIdPath cpu) = none := by
    revert cpu
    decide
  have hnewline : ∀ c ∈ ['\n'].head?, c.isDigit = false := by
    rintro _ ⟨⟩
    rfl
  have hone : ShowsCpu fs ⟨1, 1024, 2, none, none⟩ :=
    ⟨by decide, ⟨by decide, [], ["uevent".toList], by decide, by decide⟩,
      ⟨none, hcapacity, rfl⟩, hllcId 1 (by decide), hcoreId⟩
  have hzero : ShowsCpu fs ⟨0, 512, 0, none, some 3⟩ :=
    ⟨by decide, ⟨by decide, ["topology".toList], [], by decide, by decide⟩,
      ⟨some 512, ⟨by decide, ['\n'], by decide, hnewline⟩, rfl⟩,
      hllcId 0 (by decide), ⟨by decide, ['\n'], by decide, hnewline⟩⟩
  refine (enumerate_of_shows ⟨⟨_, rfl, by decide⟩, ?_⟩).1
  rw [List.forall_mem_cons, List.forall_mem_singleton]
  exact ⟨hone, hzero⟩

/-- A file system in which the given CPUs are enumerated. -/
def sysfsOf (cpus : List CpuEntry) : Sysfs where
  entries
    | [] => some (cpus.map fun e => cpuDir e.cpu)
    | [dir] => (cpus.find? fun e => cpuDir e.cpu == dir).map fun e =>
        ["node".toList ++ Nat.toDigits 10 e.nodeId]
    | _ => none
  file
    | [] => none
    | dir :: path => (cpus.find? fun e => cpuDir e.cpu == dir).bind fun e =>
        if path = ["cpu_capacity".toList] then
          some (Nat.toDigits 10 e.capacity)
        else if path = ["topology".toList, "core_id".toList] then
          e.topologyCoreId.map (Nat.toDigits 10)
        else if path = ["cache".toList, "index3".toList, "id".toList] then
          e.l3Id.map (Nat.toDigits 10)
        else
          none

end Linux
end BenchBox
