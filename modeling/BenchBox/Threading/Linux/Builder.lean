import BenchBox.Parse
import BenchBox.Support.PartialLoop
import BenchBox.Support.Rank
import BenchBox.Threading.Flatten

/-!
# The topology builder on Linux

`build_topo_tree` as `topology.cpp` has it for Linux.  What it finds under
`/sys/devices/system/cpu` is an arbitrary input.  The builder is `noexcept`, so
a directory that cannot be opened ends the program: the result is then `none`.
-/

namespace BenchBox
namespace Linux

open Std PartialLoop

/-- A path below `/sys/devices/system/cpu`, as its components. -/
abbrev Path := List StringView

/-- The readable part of the file system: the entries of each directory in the
order in which `directory_iterator` yields them, and the text of each file. -/
structure Sysfs where
  entries : Path → Option (List StringView)
  file : Path → Option StringView

/-! ## Reading numbers -/

/-- `std::isspace`. -/
def isSpace (c : Char) : Bool :=
  c == ' ' || (9 ≤ c.toNat && c.toNat ≤ 13)

/-- What `f >> v` leaves in a `uint32_t` that holds `v`.  Without anything but
white space `v` is kept; otherwise a text without a number stores zero and a
number out of range the greatest value.  A minus sign negates modulo
`2 ^ 32`. -/
def extractU32 (text : StringView) (v : ℕ) : ℕ :=
  match text.dropWhile isSpace with
  | [] => v
  | c :: rest =>
      let number := if c == '-' || c == '+' then rest else c :: rest
      let digits := number.takeWhile Char.isDigit
      let value := Nat.ofDigitChars 10 digits 0
      if digits.isEmpty then
        0
      else if value < 2 ^ 32 then
        if c == '-' then (2 ^ 32 - value) % 2 ^ 32 else value
      else
        2 ^ 32 - 1

/-- `read_u32`. -/
def readU32 (fs : Sysfs) (path : Path) (default : ℕ) : ℕ :=
  match fs.file path with
  | none => default
  | some text => extractU32 text default

/-! ## The first pass -/

/-- The number of a CPU directory, `none` for other names.  Characters after
the number are ignored. -/
def cpuNumber (name : StringView) : Option ℕ :=
  if !"cpu".toList.isPrefixOf name || !name[3]?.any Char.isDigit then
    none
  else
    let result := fromChars 32 (substr name 3 none) 0
    if result.ec ≠ .ok then none else some result.value

/-- The pairs of CPU number and capacity. -/
def cpuEntries (fs : Sysfs) (names : List StringView) : List (ℕ × ℕ) :=
  names.filterMap fun name =>
    (cpuNumber name).map fun cpu =>
      (cpu, readU32 fs [name, "cpu_capacity".toList] 1024)

/-- The distinct capacities, the highest first. -/
def distinctCapacities (cpuEntries : List (ℕ × ℕ)) : List ℕ :=
  Rank.descending (cpuEntries.map (·.2))

/-- `cap_to_tier`. -/
def capToTier (capacities : List ℕ) : TreeMap ℕ ℕ :=
  Rank.positions capacities

/-! ## The second pass -/

/-- `"cpu" + std::to_string(cpu)`. -/
def cpuDir (cpu : ℕ) : StringView :=
  "cpu".toList ++ Nat.toDigits 10 cpu

/-- The scan of a CPU directory for the first `node` entry with a number. -/
def readNodeId : List StringView → ℕ
  | [] => 0
  | fname :: names =>
      if "node".toList.isPrefixOf fname then
        let result := fromChars 32 (substr fname 4 none) 0
        if result.ec ≠ .ok then readNodeId names else result.value
      else
        readNodeId names

def coreIdPath (cpu : ℕ) : Path :=
  [cpuDir cpu, "topology".toList, "core_id".toList]

def llcIdPath (cpu : ℕ) : Path :=
  [cpuDir cpu, "cache".toList, "index3".toList, "id".toList]

/-- The update of core `c` for one CPU. -/
def pushThread (coreId perfLevel cpu : ℕ) (c : Core) : Core where
  coreId := coreId
  perfLevel := perfLevel
  threads := c.threads ++
    [{ threadIndex := c.threads.length, coreId := coreId, osId := cpu }]

/-- One round of the second pass. -/
def insertCpu (fs : Sysfs) (capToTier : TreeMap ℕ ℕ) (topo : CoreMap)
    (entry : ℕ × ℕ) : Option CoreMap :=
  match fs.entries [cpuDir entry.1] with
  | none => none
  | some names =>
      let nodeId := readNodeId names
      let coreId := readU32 fs (coreIdPath entry.1) 0
      let llcId := readU32 fs (llcIdPath entry.1) 0
      some (NestedMap.update topo (nodeId, llcId, coreId) {}
        (pushThread coreId (capToTier.getD entry.2 0) entry.1))

/-- `build_topo_tree`. -/
def buildTopoTree (fs : Sysfs) : Option TopologyTree :=
  match fs.entries [] with
  | none => none
  | some names =>
      let entries := cpuEntries fs names
      let capacities := distinctCapacities entries
      match entries.foldlM (insertCpu fs (capToTier capacities)) ∅ with
      | none => none
      | some topo =>
          some { numaNodes := flattenTopo topo,
                 perfLevelCount := capacities.length }

/-! ## The enumeration behind a tree -/

/-- What the builder reads for one CPU.  An id is `none` if its file does not
open. -/
structure CpuEntry where
  cpu : ℕ
  capacity : ℕ
  nodeId : ℕ
  l3Id : Option ℕ
  topologyCoreId : Option ℕ
deriving DecidableEq, Repr

namespace CpuEntry

def llcId (e : CpuEntry) : ℕ := e.l3Id.getD 0

def coreId (e : CpuEntry) : ℕ := e.topologyCoreId.getD 0

/-- Where the map of cores keeps the CPU. -/
def key (e : CpuEntry) : ℕ × ℕ × ℕ := (e.nodeId, e.llcId, e.coreId)

end CpuEntry

/-- The number in a file, `none` if it does not open. -/
def reportU32 (fs : Sysfs) (path : Path) : Option ℕ :=
  (fs.file path).map fun text => extractU32 text 0

/-- The second pass over one CPU, as what it reads. -/
def readCpu (fs : Sysfs) (entry : ℕ × ℕ) : Option CpuEntry :=
  (fs.entries [cpuDir entry.1]).map fun names =>
    { cpu := entry.1
      capacity := entry.2
      nodeId := readNodeId names
      l3Id := reportU32 fs (llcIdPath entry.1)
      topologyCoreId := reportU32 fs (coreIdPath entry.1) }

/-- The CPUs in the order of the first pass, `none` if a directory does not
open. -/
def enumerate (fs : Sysfs) : Option (List CpuEntry) :=
  (fs.entries []).bind fun names => (cpuEntries fs names).mapM (readCpu fs)

/-- The tier of a capacity among those of all CPUs. -/
def tier (cpus : List CpuEntry) (capacity : ℕ) : ℕ :=
  (capToTier (Rank.descending (cpus.map (·.capacity)))).getD capacity 0

/-- The map of cores after the second pass. -/
def topoOf (cpus : List CpuEntry) : CoreMap :=
  NestedMap.collect CpuEntry.key {}
    (fun e => pushThread e.coreId (tier cpus e.capacity) e.cpu) cpus

/-- The tree of an enumeration. -/
def treeOf (cpus : List CpuEntry) : TopologyTree where
  numaNodes := flattenTopo (topoOf cpus)
  perfLevelCount := (Rank.descending (cpus.map (·.capacity))).length

theorem readU32_zero (fs : Sysfs) (path : Path) :
    readU32 fs path 0 = (reportU32 fs path).getD 0 := by
  rw [readU32, reportU32]
  cases fs.file path <;> rfl

/-- A round of the second pass reads one CPU and inserts it. -/
theorem insertCpu_eq (fs : Sysfs) (tiers : TreeMap ℕ ℕ) (topo : CoreMap)
    (entry : ℕ × ℕ) :
    insertCpu fs tiers topo entry =
      (readCpu fs entry).map fun e =>
        NestedMap.update topo e.key {}
          (pushThread e.coreId (tiers.getD e.capacity 0) e.cpu) := by
  rw [insertCpu, readCpu]
  cases fs.entries [cpuDir entry.1] with
  | none => rfl
  | some names =>
      dsimp only
      rw [readU32_zero, readU32_zero]
      rfl

theorem eq_of_readCpu {fs : Sysfs} {entry : ℕ × ℕ} {e : CpuEntry}
    (h : readCpu fs entry = some e) : (e.cpu, e.capacity) = entry := by
  rw [readCpu, Option.map_eq_some_iff] at h
  obtain ⟨names, -, rfl⟩ := h
  rfl

/-- The builder returns the tree of the enumeration, or ends the program
together with it. -/
theorem buildTopoTree_eq (fs : Sysfs) :
    buildTopoTree fs = (enumerate fs).map treeOf := by
  rw [buildTopoTree, enumerate]
  cases fs.entries [] with
  | none => rfl
  | some names =>
      dsimp only [Option.bind_some]
      rw [funext₂ (insertCpu_eq fs _), foldlM_map_eq]
      cases hcpus : (cpuEntries fs names).mapM (readCpu fs) with
      | none => rfl
      | some cpus =>
          have hcapacities : (cpuEntries fs names).map (·.2) =
              cpus.map (·.capacity) := by
            rw [← map_of_mapM (fun _ _ => eq_of_readCpu) hcpus, List.map_map]
            rfl
          rw [Option.map_some, Option.map_some, distinctCapacities, hcapacities]
          rfl

/-- Where the directories open, the builder returns. -/
theorem buildTopoTree_of_enumerate {fs : Sysfs} {cpus : List CpuEntry}
    (henum : enumerate fs = some cpus) :
    buildTopoTree fs = some (treeOf cpus) := by
  rw [buildTopoTree_eq, henum, Option.map_some]

end Linux
end BenchBox
