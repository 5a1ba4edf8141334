import BenchBox.Support.Outline
import BenchBox.Support.PartialLoop
import BenchBox.Support.Words
import BenchBox.Threading.Linux.Tree

/-!
# The printed topology

`print_topo_debug` prints a tree as an outline, which can be read back up to the
processor groups of Windows.  So the outline of a tree that is built on Linux
shows all of it.
-/

namespace BenchBox

open Outline PartialLoop Words

/-! ## Printing -/

/-- A line of the outline below the first. -/
inductive TopoLine where
  | numaNode (nodeId : ℕ)
  | llcGroup (llcId : ℕ)
  | core (coreId perfLevel : ℕ)
  | thread (threadIndex osId : ℕ)
deriving DecidableEq, Repr

namespace TopoLine

def numaNodeLabels : List (List Char) := ["numa node id=".toList]

def llcGroupLabels : List (List Char) := ["|--llc id=".toList]

def coreLabels : List (List Char) :=
  ["|  |--core id=".toList, " perf_level=".toList]

def threadLabels : List (List Char) :=
  ["|  |  |--logical idx=".toList, " os=".toList]

/-- The labels of a line with its numbers. -/
def fields : TopoLine → List (List Char × ℕ)
  | numaNode nodeId => numaNodeLabels.zip [nodeId]
  | llcGroup llcId => llcGroupLabels.zip [llcId]
  | core coreId perfLevel => coreLabels.zip [coreId, perfLevel]
  | thread threadIndex osId => threadLabels.zip [threadIndex, osId]

end TopoLine

/-- The inner loop over the threads of a core. -/
def Core.topoLines (c : Core) : List TopoLine :=
  .core c.coreId c.perfLevel ::
    c.threads.map fun lp => .thread lp.threadIndex lp.osId

def LlcGroup.topoLines (llc : LlcGroup) : List TopoLine :=
  .llcGroup llc.llcId :: llc.cores.flatMap Core.topoLines

def NumaNode.topoLines (n : NumaNode) : List TopoLine :=
  .numaNode n.nodeId :: n.llcGroups.flatMap LlcGroup.topoLines

/-- The first line. -/
def perfLevelCountLine (tree : TopologyTree) : StringView :=
  printFields [("perf_level_count=".toList, tree.perfLevelCount)]

/-- `print_topo_debug`. -/
def printTopoDebug (tree : TopologyTree) : StringView :=
  unlines '\n' (perfLevelCountLine tree ::
    (tree.numaNodes.flatMap NumaNode.topoLines).map fun line =>
      printFields line.fields)

/-! ## Reading -/

/-- A line of the outline, as the numbers after its labels. -/
def readTopoLine (line : StringView) : Option TopoLine :=
  match readFields TopoLine.numaNodeLabels line with
  | some [nodeId] => some (.numaNode nodeId)
  | _ =>
    match readFields TopoLine.llcGroupLabels line with
    | some [llcId] => some (.llcGroup llcId)
    | _ =>
      match readFields TopoLine.coreLabels line with
      | some [coreId, perfLevel] => some (.core coreId perfLevel)
      | _ =>
        match readFields TopoLine.threadLabels line with
        | some [threadIndex, osId] => some (.thread threadIndex osId)
        | _ => none

/-- What has been read below a line, and waits for the line it belongs to. -/
structure TopoRest where
  threads : List LogicalProcessor := []
  cores : List Core := []
  llcGroups : List LlcGroup := []
  numaNodes : List NumaNode := []

/-- One more line, read from the end.  A thread gets the id of its core. -/
def TopoRest.add (line : TopoLine) (rest : TopoRest) : TopoRest :=
  match line with
  | .thread threadIndex osId =>
      { rest with threads := { threadIndex, osId } :: rest.threads }
  | .core coreId perfLevel =>
      { rest with
        threads := []
        cores :=
          { coreId, perfLevel
            threads := rest.threads.map fun lp => { lp with coreId } } ::
          rest.cores }
  | .llcGroup llcId =>
      { rest with
        cores := []
        llcGroups := { llcId, cores := rest.cores } :: rest.llcGroups }
  | .numaNode nodeId =>
      { rest with
        llcGroups := []
        numaNodes := { nodeId, llcGroups := rest.llcGroups } :: rest.numaNodes }

/-- A tree from its outline. -/
def readTopoDebug (text : StringView) : Option TopologyTree :=
  match getLines '\n' text with
  | [] => none
  | first :: lines =>
      match readFields ["perf_level_count=".toList] first,
          lines.mapM readTopoLine with
      | some [perfLevelCount], some lines =>
          let rest := lines.foldr TopoRest.add {}
          if rest.threads = [] ∧ rest.cores = [] ∧ rest.llcGroups = [] then
            some { numaNodes := rest.numaNodes, perfLevelCount }
          else
            none
      | _, _ => none

/-! ## What is shown -/

/-- A core as its lines show it: with the threads under its own id and without
processor groups. -/
def Core.shown (c : Core) : Core :=
  { c with
    threads := c.threads.map fun lp =>
      { lp with coreId := c.coreId, groupId := 0 } }

def LlcGroup.shown (llc : LlcGroup) : LlcGroup :=
  { llc with cores := llc.cores.map Core.shown }

def NumaNode.shown (n : NumaNode) : NumaNode :=
  { n with llcGroups := n.llcGroups.map LlcGroup.shown }

def TopologyTree.shown (tree : TopologyTree) : TopologyTree :=
  { tree with numaNodes := tree.numaNodes.map NumaNode.shown }

/-! ## Round trip -/

/-- A line is read back, since no line begins with the label of another. -/
theorem readTopoLine_fields (line : TopoLine) :
    readTopoLine (printFields line.fields) = some line := by
  have hlabels : ∀ labels ∈ [TopoLine.numaNodeLabels, TopoLine.llcGroupLabels,
      TopoLine.coreLabels, TopoLine.threadLabels],
      ∀ label ∈ labels, IsLabel label := by
    decide
  simp only [List.forall_mem_cons] at hlabels
  obtain ⟨hnumaNode, hllcGroup, hcore, hthread, -⟩ := hlabels
  rw [readTopoLine]
  cases line with
  | numaNode nodeId =>
      rw [TopoLine.fields, readFields_printFields rfl hnumaNode]
  | llcGroup llcId =>
      have hskip : readFields TopoLine.numaNodeLabels
          (printFields (TopoLine.llcGroup llcId).fields) = none :=
        readFields_of_apart (by decide) [] llcId []
      rw [hskip, TopoLine.fields, readFields_printFields rfl hllcGroup]
  | core coreId perfLevel =>
      have hskip {label : List Char}
          (h : ¬label <+: "|  |--core id=".toList ∧
            ¬"|  |--core id=".toList <+: label) :
          readFields [label]
            (printFields (TopoLine.core coreId perfLevel).fields) = none :=
        readFields_of_apart h [] coreId _
      rw [TopoLine.numaNodeLabels, hskip (by decide), TopoLine.llcGroupLabels,
        hskip (by decide), TopoLine.fields, readFields_printFields rfl hcore]
  | thread threadIndex osId =>
      have hskip {label : List Char} (labels : List (List Char))
          (h : ¬label <+: "|  |  |--logical idx=".toList ∧
            ¬"|  |  |--logical idx=".toList <+: label) :
          readFields (label :: labels)
            (printFields (TopoLine.thread threadIndex osId).fields) = none :=
        readFields_of_apart h labels threadIndex _
      rw [TopoLine.numaNodeLabels, hskip [] (by decide),
        TopoLine.llcGroupLabels, hskip [] (by decide), TopoLine.coreLabels,
        hskip _ (by decide), TopoLine.fields, readFields_printFields rfl hthread]

theorem newline_notMem_fields (line : TopoLine) :
    '\n' ∉ printFields line.fields := by
  have hlabels : ∀ labels ∈ [TopoLine.numaNodeLabels, TopoLine.llcGroupLabels,
      TopoLine.coreLabels, TopoLine.threadLabels],
      ∀ label ∈ labels, '\n' ∉ label := by
    decide
  simp only [List.forall_mem_cons] at hlabels
  obtain ⟨hnumaNode, hllcGroup, hcore, hthread, -⟩ := hlabels
  apply notMem_printFields (by decide)
  intro field hfield
  cases line with
  | numaNode => exact hnumaNode _ (List.of_mem_zip hfield).1
  | llcGroup => exact hllcGroup _ (List.of_mem_zip hfield).1
  | core => exact hcore _ (List.of_mem_zip hfield).1
  | thread => exact hthread _ (List.of_mem_zip hfield).1

/-! The lines of a part, read from the end, put it before what has been read. -/

theorem foldr_add_topoLines_core (c : Core) (cores : List Core)
    (llcGroups : List LlcGroup) (numaNodes : List NumaNode) :
    c.topoLines.foldr TopoRest.add ⟨[], cores, llcGroups, numaNodes⟩ =
      ⟨[], c.shown :: cores, llcGroups, numaNodes⟩ := by
  have hthreads : (c.threads.map fun lp =>
      TopoLine.thread lp.threadIndex lp.osId).foldr TopoRest.add
        ⟨[], cores, llcGroups, numaNodes⟩ =
      ⟨c.threads.map fun lp =>
          { threadIndex := lp.threadIndex, osId := lp.osId },
        cores, llcGroups, numaNodes⟩ := by
    induction c.threads with
    | nil => rfl
    | cons lp threads ih => rw [List.map_cons, List.foldr_cons, ih]; rfl
  rw [Core.topoLines, List.foldr_cons, hthreads, TopoRest.add, List.map_map]
  rfl

theorem foldr_add_topoLines_llcGroup (llc : LlcGroup)
    (llcGroups : List LlcGroup) (numaNodes : List NumaNode) :
    llc.topoLines.foldr TopoRest.add ⟨[], [], llcGroups, numaNodes⟩ =
      ⟨[], [], llc.shown :: llcGroups, numaNodes⟩ := by
  have hcores : (llc.cores.flatMap Core.topoLines).foldr TopoRest.add
      ⟨[], [], llcGroups, numaNodes⟩ =
        ⟨[], llc.cores.map Core.shown, llcGroups, numaNodes⟩ :=
    foldr_flatMap_put
      (p := fun cores =>
        TopoRest.mk [] (cores.map Core.shown) llcGroups numaNodes) rfl
      (fun c cores => foldr_add_topoLines_core c _ _ _) llc.cores
  rw [LlcGroup.topoLines, List.foldr_cons, hcores]
  rfl

theorem foldr_add_topoLines_numaNode (n : NumaNode)
    (numaNodes : List NumaNode) :
    n.topoLines.foldr TopoRest.add ⟨[], [], [], numaNodes⟩ =
      ⟨[], [], [], n.shown :: numaNodes⟩ := by
  have hllcGroups : (n.llcGroups.flatMap LlcGroup.topoLines).foldr TopoRest.add
      ⟨[], [], [], numaNodes⟩ =
        ⟨[], [], n.llcGroups.map LlcGroup.shown, numaNodes⟩ :=
    foldr_flatMap_put
      (p := fun llcGroups =>
        TopoRest.mk [] [] (llcGroups.map LlcGroup.shown) numaNodes) rfl
      (fun llc llcGroups => foldr_add_topoLines_llcGroup llc _ _) n.llcGroups
  rw [NumaNode.topoLines, List.foldr_cons, hllcGroups]
  rfl

theorem readTopoDebug_eq_shown (tree : TopologyTree) :
    readTopoDebug (printTopoDebug tree) = some tree.shown := by
  have hlabel : ∀ label ∈ ["perf_level_count=".toList], IsLabel label := by
    decide
  have hcount : readFields ["perf_level_count=".toList]
      (perfLevelCountLine tree) = some [tree.perfLevelCount] :=
    @readFields_printFields _ [tree.perfLevelCount] rfl hlabel
  have hlines : ∀ line ∈ perfLevelCountLine tree ::
      (tree.numaNodes.flatMap NumaNode.topoLines).map fun line =>
        printFields line.fields, '\n' ∉ line := by
    rw [List.forall_mem_cons, List.forall_mem_map]
    refine ⟨?_, fun line _ => newline_notMem_fields line⟩
    apply notMem_printFields (by decide)
    rw [List.forall_mem_singleton]
    exact (by decide : '\n' ∉ "perf_level_count=".toList)
  have hread : ((tree.numaNodes.flatMap NumaNode.topoLines).map fun line =>
      printFields line.fields).mapM readTopoLine =
        some (tree.numaNodes.flatMap NumaNode.topoLines) :=
    mapM_map_eq_some fun line _ => readTopoLine_fields line
  have hrest : (tree.numaNodes.flatMap NumaNode.topoLines).foldr TopoRest.add
      {} = ⟨[], [], [], tree.numaNodes.map NumaNode.shown⟩ :=
    foldr_flatMap_put
      (p := fun numaNodes =>
        TopoRest.mk [] [] [] (numaNodes.map NumaNode.shown)) rfl
      (fun n numaNodes => foldr_add_topoLines_numaNode n _) tree.numaNodes
  rw [readTopoDebug, printTopoDebug, getLines_unlines hlines]
  dsimp only
  rw [hcount, hread]
  dsimp only
  rw [hrest, if_pos ⟨rfl, rfl, rfl⟩]
  rfl

/-! ## Trees that are shown completely -/

/-- Nothing is missing if the threads are under the ids of their cores and in the
first processor group. -/
theorem TopologyTree.shown_eq_self {tree : TopologyTree}
    (h : ∀ core ∈ tree.cores, ∀ lp ∈ core.threads,
      lp.coreId = core.coreId ∧ lp.groupId = 0) : tree.shown = tree := by
  have hself {α : Type} {f : α → α} {xs : List α} (hf : ∀ x ∈ xs, f x = x) :
      xs.map f = xs :=
    (List.map_congr_left hf).trans (List.map_id' xs)
  have hcore : ∀ core ∈ tree.cores, core.shown = core := by
    intro core hmem
    have hthreads : (core.threads.map fun lp =>
        { lp with coreId := core.coreId, groupId := 0 }) = core.threads := by
      apply hself
      intro lp hlp
      obtain ⟨hid, hgroup⟩ := h core hmem lp hlp
      rw [← hid, ← hgroup]
    rw [Core.shown, hthreads]
  have hnode : ∀ n ∈ tree.numaNodes, n.shown = n := by
    intro n hn
    have hllc : ∀ llc ∈ n.llcGroups, llc.shown = llc := by
      intro llc hmem
      have hcores : llc.cores.map Core.shown = llc.cores := by
        apply hself
        intro core hc
        exact hcore core (List.mem_flatMap.mpr
          ⟨n, hn, List.mem_flatMap.mpr ⟨llc, hmem, hc⟩⟩)
      rw [LlcGroup.shown, hcores]
    rw [NumaNode.shown, hself hllc]
  rw [TopologyTree.shown, hself hnode]

theorem Linux.shown_of_buildTopoTree {fs : Linux.Sysfs} {tree : TopologyTree}
    (h : Linux.buildTopoTree fs = some tree) : tree.shown = tree := by
  rw [Linux.buildTopoTree_eq, Option.map_eq_some_iff] at h
  obtain ⟨cpus, -, rfl⟩ := h
  apply TopologyTree.shown_eq_self
  intro core hcore lp hlp
  obtain ⟨nodeId, llcId, hholds⟩ := TopologyTree.mem_cores_iff.mp hcore
  obtain ⟨coreId, -, rfl⟩ := Linux.holds_treeOf_iff.mp hholds
  obtain ⟨i, hi, rfl⟩ := List.mem_mapIdx.mp hlp
  exact ⟨rfl, rfl⟩

/-- The outline of a tree is read back as what it shows of the tree, and of a tree
that is built on Linux it shows everything. -/
theorem readTopoDebug_printTopoDebug (tree : TopologyTree) :
    readTopoDebug (printTopoDebug tree) = some tree.shown ∧
      ∀ fs, Linux.buildTopoTree fs = some tree →
        readTopoDebug (printTopoDebug tree) = some tree := by
  refine ⟨readTopoDebug_eq_shown tree, ?_⟩
  intro fs htree
  rw [readTopoDebug_eq_shown, Linux.shown_of_buildTopoTree htree]

/-- The outline of a big core and a small one. -/
theorem readTopoDebug_printTopoDebug_hybrid :
    ∃ tree, Linux.buildTopoTree (Linux.sysfsOf Linux.hybridCpus) = some tree ∧
      readTopoDebug (printTopoDebug tree) = some tree := by
  obtain ⟨tree, htree⟩ : ∃ tree,
      Linux.buildTopoTree (Linux.sysfsOf Linux.hybridCpus) = some tree :=
    ⟨_, Linux.buildTopoTree_of_enumerate
      (show Linux.enumerate _ = some Linux.hybridCpus by decide)⟩
  exact ⟨tree, htree, (readTopoDebug_printTopoDebug tree).2 _ htree⟩

end BenchBox
