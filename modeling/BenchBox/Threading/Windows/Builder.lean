import BenchBox.Threading.Flatten
import Std.Data.TreeSet.Basic

/-!
# The topology builder on Windows

`build_topo_tree` as `topology.cpp` has it for Windows.  The records that
`GetLogicalProcessorInformationEx` returns are an arbitrary input.  The builder
goes over them twice, first for the NUMA nodes and the L3 caches, then for the
cores.
-/

namespace BenchBox
namespace Windows

open Std NestedMap

/-- A logical processor, by its group and its number in the group. -/
abbrev Processor := ℕ × ℕ

/-- `GROUP_AFFINITY`. -/
structure GroupAffinity where
  mask : BitVec 64
  group : ℕ
deriving DecidableEq, Repr

/-- The processors of a mask, by increasing number. -/
def GroupAffinity.processors (gm : GroupAffinity) : List Processor :=
  ((List.range 64).filter gm.mask.getLsbD).map fun b => (gm.group, b)

/-- `SYSTEM_LOGICAL_PROCESSOR_INFORMATION_EX`, as far as the builder reads
it. -/
inductive Information where
  | numaNode (nodeNumber : ℕ) (groupMask : GroupAffinity)
  | cache (level : ℕ) (groupMasks : List GroupAffinity)
  | processorCore (efficiencyClass : ℕ) (groupMask : List GroupAffinity)
  | other
deriving DecidableEq, Repr

/-! ## NUMA nodes and caches -/

/-- `std::map<uint16_t, std::map<uint32_t, uint32_t>>`. -/
abbrev ProcessorMap := TreeMap ℕ (TreeMap ℕ ℕ)

/-- `m[p.1][p.2] = v` for each processor of a mask. -/
def assign (v : ℕ) (m : ProcessorMap) (gm : GroupAffinity) : ProcessorMap :=
  gm.processors.foldl
    (fun m p => modifyAt m p.1 ∅ fun row => row.insert p.2 v) m

/-- The entry of a processor, if it has one. -/
def entry (m : ProcessorMap) (p : Processor) : Option ℕ :=
  m[p.1]?.bind (·[p.2]?)

/-- `m[p.1][p.2]`, which is zero for a missing entry. -/
def read (m : ProcessorMap) (p : Processor) : ℕ := (entry m p).getD 0

/-- The state of the first pass. -/
structure Scan where
  cpuToNuma : ProcessorMap := ∅
  cpuToLlc : ProcessorMap := ∅
  llcCounter : ℕ := 0

/-- One round of the first pass. -/
def scanRecord (s : Scan) : Information → Scan
  | .numaNode nodeNumber groupMask =>
      { s with cpuToNuma := assign nodeNumber s.cpuToNuma groupMask }
  | .cache level groupMasks =>
      if level = 3 then
        { s with
          cpuToLlc := groupMasks.foldl (assign s.llcCounter) s.cpuToLlc
          llcCounter := s.llcCounter + 1 }
      else
        s
  | _ => s

/-! ## Cores -/

/-- The state of the second pass. -/
structure CoreScan where
  topo : CoreMap := ∅
  effClasses : TreeSet ℕ := ∅
  coreCounter : ℕ := 0

/-- The thread of one processor, with the node it sets. -/
def addThread (cpuToNuma : ProcessorMap) (s : Core × ℕ) (p : Processor) :
    Core × ℕ :=
  ({ s.1 with
      threads := s.1.threads ++
        [{ threadIndex := s.1.threads.length, coreId := s.1.coreId,
           osId := p.2, groupId := p.1 }] },
    read cpuToNuma p)

/-- The LLC of the first thread. -/
def readLlcId (cpuToLlc : ProcessorMap) : List LogicalProcessor → ℕ
  | [] => 0
  | t :: _ => read cpuToLlc (t.groupId, t.osId)

/-- One round of the second pass. -/
def insertCore (scan : Scan) (s : CoreScan) : Information → CoreScan
  | .processorCore efficiencyClass groupMask =>
      let c : Core :=
        { coreId := s.coreCounter, perfLevel := efficiencyClass }
      let result := (groupMask.flatMap (·.processors)).foldl
        (addThread scan.cpuToNuma) (c, 0)
      let c := result.1
      let nodeId := result.2
      let llcId := readLlcId scan.cpuToLlc c.threads
      { topo := update s.topo (nodeId, llcId, c.coreId) {} fun _ => c
        effClasses := s.effClasses.insert efficiencyClass
        coreCounter := s.coreCounter + 1 }
  | _ => s

/-- `eff_to_tier`: the highest class becomes tier 0. -/
def effToTier (effClasses : TreeSet ℕ) : TreeMap ℕ ℕ :=
  effClasses.toList.reverse.foldl (fun m eff => m.insert eff m.size) ∅

/-- What is made of the cores after the second pass. -/
def finishTree (s : CoreScan) : TopologyTree :=
  let tiers := effToTier s.effClasses
  let topo := mapValues
    (fun c : Core => { c with perfLevel := tiers.getD c.perfLevel 0 }) s.topo
  { numaNodes := flattenTopo topo, perfLevelCount := tiers.size }

/-- `build_topo_tree`; without records the call for them has failed. -/
def buildTopoTree (records : Option (List Information)) : TopologyTree :=
  match records with
  | none => {}
  | some records =>
      let scan := records.foldl scanRecord {}
      finishTree (records.foldl (insertCore scan) {})

end Windows
end BenchBox
