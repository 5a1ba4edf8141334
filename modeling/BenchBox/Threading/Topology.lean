import Mathlib.Data.List.Basic
import Mathlib.Data.List.Nodup

/-!
# Topology trees

The tree of NUMA nodes, LLC groups, cores and logical processors which the
topology builders produce and the thread mappings consume.  Identifiers, perf
levels and sizes are natural numbers; a width is written out only where a
function narrows a value.
-/

namespace BenchBox

/-- One hardware thread, as the operating system names it. -/
structure LogicalProcessor where
  threadIndex : ℕ := 0
  coreId : ℕ := 0
  osId : ℕ := 0
  groupId : ℕ := 0
deriving DecidableEq, Repr

structure Core where
  coreId : ℕ := 0
  /-- `0` is the highest performance tier. -/
  perfLevel : ℕ := 0
  threads : List LogicalProcessor := []
deriving DecidableEq, Repr

structure LlcGroup where
  llcId : ℕ := 0
  cores : List Core := []
deriving DecidableEq, Repr

structure NumaNode where
  nodeId : ℕ := 0
  llcGroups : List LlcGroup := []
deriving DecidableEq, Repr

structure TopologyTree where
  numaNodes : List NumaNode := []
  /-- Number of distinct performance tiers discovered. -/
  perfLevelCount : ℕ := 0
deriving DecidableEq, Repr

namespace TopologyTree

/-- All cores in tree order. -/
def cores (tree : TopologyTree) : List Core :=
  tree.numaNodes.flatMap fun node => node.llcGroups.flatMap (·.cores)

/-- The core at a position of the tree, if the position exists. -/
def coreAt (tree : TopologyTree) (node llc core : ℕ) : Option Core :=
  (tree.numaNodes[node]?).bind fun n =>
    (n.llcGroups[llc]?).bind fun g => g.cores[core]?

/-- `core` is a core with id `core.coreId` in the LLC group `llcId` of the node
`nodeId`. -/
def Holds (tree : TopologyTree) (nodeId llcId : ℕ) (core : Core) : Prop :=
  ∃ node ∈ tree.numaNodes, node.nodeId = nodeId ∧
    ∃ llc ∈ node.llcGroups, llc.llcId = llcId ∧ core ∈ llc.cores

theorem mem_cores_iff {tree : TopologyTree} {core : Core} :
    core ∈ tree.cores ↔ ∃ nodeId llcId, tree.Holds nodeId llcId core := by
  simp only [cores, List.mem_flatMap, Holds]
  constructor
  · intro h
    rcases h with ⟨node, hnode, llc, hllc, hcore⟩
    exact ⟨_, _, node, hnode, rfl, llc, hllc, rfl, hcore⟩
  · intro h
    rcases h with ⟨_, _, node, hnode, -, llc, hllc, -, hcore⟩
    exact ⟨node, hnode, llc, hllc, hcore⟩

end TopologyTree

/-! ## Pointers into a tree -/

/-- A `const core*` into a tree: the position it points at and the core
there. -/
structure CoreRef where
  node : ℕ
  llc : ℕ
  core : ℕ
  deref : Core
deriving DecidableEq, Repr

/-- A `const logical_processor*` into a tree. -/
structure ProcessorRef where
  core : CoreRef
  thread : ℕ
  deref : LogicalProcessor
deriving DecidableEq, Repr

/-- The address of a core, without the core. -/
def CoreRef.position (c : CoreRef) : ℕ × ℕ × ℕ := (c.node, c.llc, c.core)

/-- Pointers to the cores of one LLC group. -/
def LlcGroup.coreRefs (group : LlcGroup) (node llc : ℕ) : List CoreRef :=
  group.cores.zipIdx.map fun c => ⟨node, llc, c.2, c.1⟩

/-- Pointers to the threads of one core. -/
def CoreRef.processorRefs (c : CoreRef) : List ProcessorRef :=
  c.deref.threads.zipIdx.map fun lp => ⟨c, lp.2, lp.1⟩

namespace TopologyTree

/-- The LLC groups of every node, each as the pointers to its cores. -/
def llcRows (tree : TopologyTree) : List (List (List CoreRef)) :=
  tree.numaNodes.zipIdx.map fun node =>
    node.1.llcGroups.zipIdx.map fun llc => llc.1.coreRefs node.2 llc.2

/-- Pointers to all cores, in tree order. -/
def coreRefs (tree : TopologyTree) : List CoreRef :=
  tree.llcRows.flatten.flatten

/-- The pointer names an existing thread of the tree and carries its value. -/
def Locates (tree : TopologyTree) (r : ProcessorRef) : Prop :=
  tree.coreAt r.core.node r.core.llc r.core.core = some r.core.deref ∧
    r.core.deref.threads[r.thread]? = some r.deref

end TopologyTree

theorem CoreRef.getElem?_processorRefs (c : CoreRef) (t : ℕ) :
    c.processorRefs[t]? = c.deref.threads[t]?.map fun lp => ⟨c, t, lp⟩ := by
  simp [CoreRef.processorRefs, List.getElem?_zipIdx, Function.comp_def]

@[simp] theorem CoreRef.length_processorRefs (c : CoreRef) :
    c.processorRefs.length = c.deref.threads.length := by
  simp [CoreRef.processorRefs]

theorem CoreRef.mem_processorRefs_iff {c : CoreRef} {r : ProcessorRef} :
    r ∈ c.processorRefs ↔
      r.core = c ∧ c.deref.threads[r.thread]? = some r.deref := by
  rw [List.mem_iff_getElem?]
  simp only [CoreRef.getElem?_processorRefs, Option.map_eq_some_iff]
  constructor
  · intro h
    rcases h with ⟨t, lp, hlp, rfl⟩
    exact ⟨rfl, hlp⟩
  · intro h
    rcases h with ⟨rfl, hlp⟩
    exact ⟨r.thread, r.deref, hlp, rfl⟩

theorem CoreRef.map_deref_processorRefs (c : CoreRef) :
    c.processorRefs.map ProcessorRef.deref = c.deref.threads := by
  simp [CoreRef.processorRefs, Function.comp_def]

theorem CoreRef.nodup_processorRefs (c : CoreRef) : c.processorRefs.Nodup := by
  apply List.Nodup.of_map ProcessorRef.thread
  have hthreads : c.processorRefs.map ProcessorRef.thread =
      c.deref.threads.zipIdx.map Prod.snd := by
    simp [CoreRef.processorRefs, Function.comp_def]
  rw [hthreads, List.zipIdx_map_snd]
  exact List.nodup_range'

theorem LlcGroup.map_deref_coreRefs (group : LlcGroup) (node llc : ℕ) :
    (group.coreRefs node llc).map CoreRef.deref = group.cores := by
  simp [LlcGroup.coreRefs, Function.comp_def]

theorem LlcGroup.mem_coreRefs_iff {group : LlcGroup} {node llc : ℕ}
    {c : CoreRef} :
    c ∈ group.coreRefs node llc ↔
      c.node = node ∧ c.llc = llc ∧ group.cores[c.core]? = some c.deref := by
  simp only [LlcGroup.coreRefs, List.mem_map, Prod.exists,
    List.mem_zipIdx_iff_getElem?]
  constructor
  · intro h
    rcases h with ⟨core, i, hcore, rfl⟩
    exact ⟨rfl, rfl, hcore⟩
  · intro h
    rcases h with ⟨rfl, rfl, hcore⟩
    exact ⟨c.deref, c.core, hcore, rfl⟩

namespace TopologyTree

theorem mem_coreRefs_iff {tree : TopologyTree} {c : CoreRef} :
    c ∈ tree.coreRefs ↔ tree.coreAt c.node c.llc c.core = some c.deref := by
  simp only [coreRefs, llcRows, List.mem_flatten, List.mem_map, Prod.exists,
    List.mem_zipIdx_iff_getElem?, coreAt, Option.bind_eq_some_iff]
  constructor
  · intro h
    rcases h with ⟨_, ⟨_, ⟨node, n, hnode, rfl⟩, hgroup⟩, hc⟩
    simp only [List.mem_map, Prod.exists,
      List.mem_zipIdx_iff_getElem?] at hgroup
    obtain ⟨group, l, hgroup, rfl⟩ := hgroup
    obtain ⟨rfl, rfl, hcore⟩ := LlcGroup.mem_coreRefs_iff.mp hc
    exact ⟨node, hnode, group, hgroup, hcore⟩
  · intro h
    rcases h with ⟨node, hnode, group, hgroup, hcore⟩
    refine ⟨group.coreRefs c.node c.llc, ⟨_, ⟨node, c.node, hnode, rfl⟩, ?_⟩,
      LlcGroup.mem_coreRefs_iff.mpr ⟨rfl, rfl, hcore⟩⟩
    simp only [List.mem_map, Prod.exists, List.mem_zipIdx_iff_getElem?]
    exact ⟨group, c.llc, hgroup, rfl⟩

/-- Erasing the positions leaves the cores in tree order. -/
theorem map_deref_coreRefs (tree : TopologyTree) :
    tree.coreRefs.map CoreRef.deref = tree.cores := by
  have hgroups : ∀ (groups : List LlcGroup) (n k : ℕ),
      (((groups.zipIdx k).map fun llc => llc.1.coreRefs n llc.2).flatten).map
          CoreRef.deref =
        groups.flatMap (·.cores) := by
    intro groups n k
    induction groups generalizing k with
    | nil => rfl
    | cons group groups ih =>
        rw [List.zipIdx_cons, List.map_cons, List.flatten_cons,
          List.map_append, ih, LlcGroup.map_deref_coreRefs, List.flatMap_cons]
  have hnodes : ∀ (nodes : List NumaNode) (k : ℕ),
      (((nodes.zipIdx k).map fun node =>
          node.1.llcGroups.zipIdx.map fun llc =>
            llc.1.coreRefs node.2 llc.2).flatten.flatten).map CoreRef.deref =
        nodes.flatMap fun node => node.llcGroups.flatMap (·.cores) := by
    intro nodes k
    induction nodes generalizing k with
    | nil => rfl
    | cons node nodes ih =>
        rw [List.zipIdx_cons, List.map_cons, List.flatten_cons,
          List.flatten_append, List.map_append, ih, hgroups,
          List.flatMap_cons]
  exact hnodes tree.numaNodes 0

/-- Entries of an indexed list have different indexes. -/
private theorem pairwise_index_ne {α : Type} (xs : List α) :
    xs.zipIdx.Pairwise fun a b => a.2 ≠ b.2 := by
  rw [← List.pairwise_map (f := Prod.snd) (R := (· ≠ ·)), List.zipIdx_map_snd]
  exact List.nodup_range'

/-- No position occurs twice among the pointers to the cores. -/
theorem nodup_position_coreRefs (tree : TopologyTree) :
    (tree.coreRefs.map CoreRef.position).Nodup := by
  rw [List.Nodup, List.pairwise_map, coreRefs, List.pairwise_flatten,
    llcRows, List.pairwise_flatten]
  simp only [List.forall_mem_flatten, List.forall_mem_map, List.pairwise_map]
  refine ⟨?sameGroup, ?sameNode, ?otherNode⟩
  case sameGroup =>
    rintro ⟨node, n⟩ - ⟨group, l⟩ -
    rw [LlcGroup.coreRefs, List.pairwise_map]
    exact (pairwise_index_ne group.cores).imp fun hne heq =>
      hne (congrArg (·.2.2) heq)
  case sameNode =>
    rintro ⟨node, n⟩ -
    refine (pairwise_index_ne node.llcGroups).imp ?_
    intro g g' hne a ha b hb heq
    have hl := (LlcGroup.mem_coreRefs_iff.mp ha).2.1
    have hl' := (LlcGroup.mem_coreRefs_iff.mp hb).2.1
    have hllc : a.llc = b.llc := congrArg (·.2.1) heq
    exact hne (by rw [← hl, ← hl', hllc])
  case otherNode =>
    refine (pairwise_index_ne tree.numaNodes).imp ?_
    intro m m' hne g _ g' _ a ha b hb heq
    have hn := (LlcGroup.mem_coreRefs_iff.mp ha).1
    have hn' := (LlcGroup.mem_coreRefs_iff.mp hb).1
    have hnode : a.node = b.node := congrArg (·.1) heq
    exact hne (by rw [← hn, ← hn', hnode])

end TopologyTree

end BenchBox
