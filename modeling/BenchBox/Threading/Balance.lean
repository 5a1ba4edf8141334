import BenchBox.Support.RoundRobin
import BenchBox.Threading.PlacementOrder

/-!
# How evenly the mappings spread

Among the first threads of one perf level, every prefix of a mapping takes from
the LLC groups in turn until a group is used up.  If the level is spread evenly
over the tree, the prefix also takes from the nodes in turn.
-/

namespace BenchBox

open RoundRobin StablePartition

/-- The LLC group of a core, given by the positions of its node and its own. -/
def CoreRef.group (c : CoreRef) : ℕ × ℕ := (c.node, c.llc)

/-- The entries for the first threads of the cores of one level. -/
def firstThreads (lvl : ℕ) (refs : List ProcessorRef) : List ProcessorRef :=
  refs.filter fun r => r.perfLevel == lvl && r.thread == 0

namespace TopologyTree

/-- Each node has `groupCount` LLC groups, and each group `coreCount` usable
cores of the level. -/
def HasCounts (tree : TopologyTree) (lvl groupCount coreCount : ℕ) : Prop :=
  ∀ node ∈ tree.numaNodes, node.llcGroups.length = groupCount ∧
    ∀ group ∈ node.llcGroups, (group.cores.countP fun d =>
      d.perfLevel == lvl && !d.threads.isEmpty) = coreCount

/-- The nodes have the same number of LLC groups, and the groups the same number
of usable cores of the level. -/
def Uniform (tree : TopologyTree) (lvl : ℕ) : Prop :=
  ∃ groupCount coreCount, tree.HasCounts lvl groupCount coreCount

end TopologyTree

/-! ## Rounds over the LLC groups -/

theorem rounds_group (tree : TopologyTree) (lvl n : ℕ) :
    Rounds CoreRef.group ((List.range n).map (Ragged.column
      ((Ragged.columnMajor tree.llcRows).map
        (List.filter (CoreRef.inLevel lvl))))) := by
  apply rounds_columns
  · intro row hrow a ha b hb
    obtain ⟨cores, hcores, rfl⟩ := List.mem_map.mp hrow
    obtain ⟨i, l, group, -, rfl⟩ := exists_of_mem_columnMajor_llcRows hcores
    have ha' := LlcGroup.mem_coreRefs_iff.mp (List.mem_of_mem_filter ha)
    have hb' := LlcGroup.mem_coreRefs_iff.mp (List.mem_of_mem_filter hb)
    rw [CoreRef.group, CoreRef.group, ha'.1, ha'.2.1, hb'.1, hb'.2.1]
  · rw [List.pairwise_map]
    refine (pairwise_columnMajor_llcRows tree).imp ?_
    intro row row' hlt a ha b hb heq
    have hlex := hlt a (List.mem_of_mem_filter ha) b (List.mem_of_mem_filter hb)
    have hnode : a.node = b.node := congrArg Prod.fst heq
    have hllc : a.llc = b.llc := congrArg Prod.snd heq
    rw [hnode, hllc] at hlex
    exact List.lt_irrefl _ hlex

/-- A prefix of the cores of a level takes at most one core more from an LLC
group than from another, or all cores of the other. -/
theorem share_group_take_levelOrder (tree : TopologyTree) (lvl n : ℕ)
    (g g' : ℕ × ℕ) :
    share CoreRef.group g ((levelOrder tree lvl).take n) ≤
        share CoreRef.group g' ((levelOrder tree lvl).take n) + 1 ∨
      ∀ c ∈ tree.coreRefs, c.inLevel lvl → c.group = g' →
        c ∈ (levelOrder tree lvl).take n := by
  have hrounds := (rounds_group tree lvl
    (Ragged.width ((Ragged.columnMajor tree.llcRows).map
      (List.filter (CoreRef.inLevel lvl))))).share_take_le_or_eq n g g'
  rw [← List.flatMap_def, ← Ragged.columns, ← Ragged.columnMajor,
    ← levelOrder] at hrounds
  rcases hrounds with hle | heq
  · exact Or.inl hle
  · right
    intro c hc hlevel hgroup
    have hmem : c ∈ levelOrder tree lvl := mem_levelOrder_iff.mpr ⟨hc, hlevel⟩
    exact mem_take_of_share_eq heq hmem hgroup

/-! ## Rounds over the nodes -/

/-- The cores of rank `i` in the LLC groups of index `l`, by node. -/
def nodeRound (tree : TopologyTree) (lvl i l : ℕ) : List CoreRef :=
  Ragged.column ((Ragged.column tree.llcRows l).map
    (List.filter (CoreRef.inLevel lvl))) i

theorem mem_nodeRound_iff {tree : TopologyTree} {lvl i l : ℕ} {c : CoreRef} :
    c ∈ nodeRound tree lvl i l ↔
      ∃ (n : ℕ) (node : NumaNode) (group : LlcGroup),
        tree.numaNodes[n]? = some node ∧ node.llcGroups[l]? = some group ∧
          ((group.coreRefs n l).filter (CoreRef.inLevel lvl))[i]? =
            some c := by
  rw [nodeRound, Ragged.mem_column_iff]
  simp only [List.mem_map, mem_column_llcRows_iff]
  constructor
  · intro h
    obtain ⟨_, ⟨_, ⟨n, node, group, hnode, hgroup, rfl⟩, rfl⟩, hc⟩ := h
    exact ⟨n, node, group, hnode, hgroup, hc⟩
  · intro h
    obtain ⟨n, node, group, hnode, hgroup, hc⟩ := h
    exact ⟨_, ⟨_, ⟨n, node, group, hnode, hgroup, rfl⟩, rfl⟩, hc⟩

theorem nodup_nodeRound (tree : TopologyTree) (lvl i l : ℕ) :
    ((nodeRound tree lvl i l).map CoreRef.node).Nodup := by
  rw [List.Nodup, List.pairwise_map]
  apply Ragged.pairwise_column
  rw [List.pairwise_map]
  apply Ragged.pairwise_column
  refine (pairwise_llcRows tree).imp ?_
  intro groups groups' hlt row hrow row' hrow' c hc c' hc'
  exact Nat.ne_of_lt (hlt row (List.mem_of_getElem? hrow) row'
    (List.mem_of_getElem? hrow') c
    (List.mem_of_mem_filter (List.mem_of_getElem? hc)) c'
    (List.mem_of_mem_filter (List.mem_of_getElem? hc')))

section Uniform

variable {tree : TopologyTree} {lvl groupCount coreCount : ℕ}

theorem length_filter_coreRefs (group : LlcGroup) (n l lvl : ℕ) :
    ((group.coreRefs n l).filter (CoreRef.inLevel lvl)).length =
      group.cores.countP fun d =>
        d.perfLevel == lvl && !d.threads.isEmpty := by
  rw [← List.countP_eq_length_filter, ← group.map_deref_coreRefs n l,
    List.countP_map]
  rfl

/-- On an even level every node takes part in every round. -/
theorem mem_map_node_nodeRound
    (h : tree.HasCounts lvl groupCount coreCount)
    {i l n : ℕ} (hi : i < coreCount) (hl : l < groupCount)
    (hn : n < tree.numaNodes.length) :
    n ∈ (nodeRound tree lvl i l).map CoreRef.node := by
  obtain ⟨hgroups, hcores⟩ := h _ (List.getElem_mem hn)
  have hl' : l < tree.numaNodes[n].llcGroups.length := hgroups ▸ hl
  have hcount := hcores _ (List.getElem_mem hl')
  rw [← length_filter_coreRefs _ n l] at hcount
  have hi' := hcount ▸ hi
  have hget := List.getElem?_eq_getElem hi'
  refine List.mem_map.mpr ⟨_, mem_nodeRound_iff.mpr
    ⟨n, _, _, List.getElem?_eq_getElem hn, List.getElem?_eq_getElem hl',
      hget⟩, ?_⟩
  exact (LlcGroup.mem_coreRefs_iff.mp
    (List.mem_of_mem_filter (List.mem_of_getElem? hget))).1

/-- The cores of an even level are taken in rounds over the nodes. -/
theorem levelOrder_eq_flatten_nodeRound
    (h : tree.HasCounts lvl groupCount coreCount) :
    levelOrder tree lvl =
      ((List.range coreCount).flatMap fun i =>
        (List.range groupCount).map (nodeRound tree lvl i)).flatten := by
  have hgroups : Ragged.width tree.llcRows ≤ groupCount := by
    rw [Ragged.width_le_iff]
    intro groups hmem
    obtain ⟨node, hnode, rfl⟩ := List.mem_map.mp hmem
    rw [List.length_map, List.length_zipIdx]
    exact (h node.1 (List.fst_mem_of_mem_zipIdx hnode)).1.le
  have hcores : Ragged.width ((Ragged.columnMajor tree.llcRows).map
      (List.filter (CoreRef.inLevel lvl))) ≤ coreCount := by
    rw [Ragged.width_le_iff, List.forall_mem_map]
    intro row hrow
    rw [Ragged.columnMajor, Ragged.columns, List.mem_flatMap] at hrow
    obtain ⟨l, -, hrow⟩ := hrow
    obtain ⟨n, node, group, hnode, hgroup, rfl⟩ :=
      mem_column_llcRows_iff.mp hrow
    rw [length_filter_coreRefs]
    exact ((h node (List.mem_of_getElem? hnode)).2 group
      (List.mem_of_getElem? hgroup)).le
  rw [levelOrder, ← Ragged.columns_eq_columnMajor hcores,
    ← Ragged.columns_eq_columnMajor hgroups, Ragged.columns, Ragged.columns,
    List.map_flatMap, List.flatten_eq_flatMap, List.flatMap_assoc]
  apply List.flatMap_congr
  intro i _
  rw [Ragged.column_flatMap, List.flatMap_map]
  rfl

theorem rounds_node
    (h : tree.HasCounts lvl groupCount coreCount) :
    Rounds CoreRef.node ((List.range coreCount).flatMap fun i =>
      (List.range groupCount).map (nodeRound tree lvl i)) := by
  apply Rounds.of_forall_mem
  · intro round hround
    simp only [List.mem_flatMap, List.mem_map] at hround
    obtain ⟨i, -, l, -, rfl⟩ := hround
    exact nodup_nodeRound tree lvl i l
  · intro round hround later hlater c hc
    simp only [List.mem_flatMap, List.mem_map, List.mem_range] at hround hlater
    obtain ⟨i, hi, l, hl, rfl⟩ := hround
    obtain ⟨j, -, m, -, rfl⟩ := hlater
    obtain ⟨n, node, group, hnode, -, hget⟩ := mem_nodeRound_iff.mp hc
    have hcn := (LlcGroup.mem_coreRefs_iff.mp
      (List.mem_of_mem_filter (List.mem_of_getElem? hget))).1
    rw [hcn]
    exact mem_map_node_nodeRound h hi hl (List.getElem?_eq_some_iff.mp hnode).1

end Uniform

/-- On an even level no node gets ahead of another by more than one core. -/
theorem share_node_take_levelOrder {tree : TopologyTree} {lvl : ℕ}
    (h : tree.Uniform lvl) (n i : ℕ) {j : ℕ}
    (hj : j < tree.numaNodes.length) :
    share CoreRef.node i ((levelOrder tree lvl).take n) ≤
      share CoreRef.node j ((levelOrder tree lvl).take n) + 1 := by
  obtain ⟨groupCount, coreCount, h⟩ := h
  rw [levelOrder_eq_flatten_nodeRound h]
  apply (rounds_node h).share_take_le_of_mem
  intro round hround
  simp only [List.mem_flatMap, List.mem_map, List.mem_range] at hround
  obtain ⟨i, hi, l, hl, rfl⟩ := hround
  exact mem_map_node_nodeRound h hi hl hj

/-! ## The first threads of a level -/

theorem filter_perfLevel_createMappingPhteRefs (tree : TopologyTree)
    (lvl : ℕ) :
    (createMappingPhteRefs tree).filter (·.perfLevel == lvl) =
      (createMappingNumaRefs tree).filter (·.perfLevel == lvl) := by
  rw [createMappingPhteRefs_eq_stablePartition]
  exact filter_stablePartition
    (fun r hr => (locates_of_mem_createMappingNumaRefs hr).2) lvl

theorem firstThreads_eq_filter (lvl : ℕ) (refs : List ProcessorRef) :
    firstThreads lvl refs =
      (refs.filter (·.perfLevel == lvl)).filter (·.thread == 0) := by
  rw [List.filter_filter, firstThreads]
  congr 1
  funext r
  exact Bool.and_comm _ _

/-- Both mappings list the first threads of a level in the same order. -/
theorem firstThreads_createMappingPhteRefs (tree : TopologyTree) (lvl : ℕ) :
    firstThreads lvl (createMappingPhteRefs tree) =
      firstThreads lvl (createMappingNumaRefs tree) := by
  rw [firstThreads_eq_filter, filter_perfLevel_createMappingPhteRefs,
    ← firstThreads_eq_filter]

/-- The first threads of a level are the first slot of its cores. -/
theorem firstThreads_createMappingNumaRefs {tree : TopologyTree} {lvl : ℕ}
    (h : lvl < tree.perfLevelCount) :
    firstThreads lvl (createMappingNumaRefs tree) =
      Ragged.column ((levelOrder tree lvl).map CoreRef.processorRefs) 0 := by
  have hslot (t : ℕ) : ∀ r ∈ Ragged.column
      ((levelOrder tree lvl).map CoreRef.processorRefs) t, r.thread = t :=
    fun r hr => thread_of_mem_column hr
  rw [firstThreads_eq_filter, filter_perfLevel_createMappingNumaRefs h,
    Ragged.columnMajor, Ragged.columns, filter_flatMap_range hslot]
  split
  · rfl
  next hwidth =>
    exact (Ragged.column_eq_nil_of_width_le (Nat.le_of_not_lt hwidth)).symm

theorem firstThreads_eq_nil {tree : TopologyTree} {lvl : ℕ}
    (h : tree.perfLevelCount ≤ lvl) :
    firstThreads lvl (createMappingNumaRefs tree) = [] := by
  rw [firstThreads, List.filter_eq_nil_iff]
  intro r hr
  have hlevel := (locates_of_mem_createMappingNumaRefs hr).2
  simp only [Bool.and_eq_true, beq_iff_eq]
  omega

/-- The first threads of a level belong to its cores, in the order the mappings
take them. -/
theorem map_core_firstThreads {tree : TopologyTree} {lvl : ℕ}
    (h : lvl < tree.perfLevelCount) :
    (firstThreads lvl (createMappingNumaRefs tree)).map ProcessorRef.core =
      levelOrder tree lvl := by
  rw [firstThreads_createMappingNumaRefs h]
  apply map_core_column_zero
  intro c hc
  have hin := (mem_levelOrder_iff.mp hc).2
  rw [CoreRef.inLevel, Bool.and_eq_true, Bool.not_eq_true',
    List.isEmpty_eq_false_iff] at hin
  exact hin.2

theorem firstThreads_infix_createMappingNumaRefs (tree : TopologyTree)
    (lvl : ℕ) :
    firstThreads lvl (createMappingNumaRefs tree) <:+:
      createMappingNumaRefs tree := by
  by_cases h : lvl < tree.perfLevelCount
  · rw [firstThreads_createMappingNumaRefs h, createMappingNumaRefs_eq]
    refine List.IsInfix.trans ?_
      (Ragged.column_zero_prefix_columnMajor _).isInfix
    rw [numaOrder, List.map_flatMap, Ragged.column_flatMap]
    exact infix_flatMap_range (fun k =>
      Ragged.column ((levelOrder tree k).map CoreRef.processorRefs) 0) h
  · rw [firstThreads_eq_nil (Nat.le_of_not_lt h)]
    exact List.nil_infix

theorem firstThreads_infix_createMappingPhteRefs (tree : TopologyTree)
    (lvl : ℕ) :
    firstThreads lvl (createMappingPhteRefs tree) <:+:
      createMappingPhteRefs tree := by
  rw [firstThreads_createMappingPhteRefs]
  by_cases h : lvl < tree.perfLevelCount
  · rw [firstThreads_createMappingNumaRefs h, createMappingPhteRefs_eq]
    exact (Ragged.column_zero_prefix_columnMajor _).isInfix.trans
      (infix_flatMap_range (fun k => Ragged.columnMajor
        ((levelOrder tree k).map CoreRef.processorRefs)) h)
  · rw [firstThreads_eq_nil (Nat.le_of_not_lt h)]
    exact List.nil_infix

/-! ## Balance -/

/-- How a mapping spreads the first threads of a level. -/
structure Balanced (tree : TopologyTree) (lvl : ℕ)
    (refs : List ProcessorRef) : Prop where
  contiguous : firstThreads lvl refs <:+: refs
  complete : lvl < tree.perfLevelCount →
    ((firstThreads lvl refs).map ProcessorRef.core).Perm
      (tree.coreRefs.filter (CoreRef.inLevel lvl))
  /-- An LLC group that is behind by more than one is used up. -/
  groups : ∀ (n : ℕ) (g g' : ℕ × ℕ),
    share (·.core.group) g ((firstThreads lvl refs).take n) ≤
        share (·.core.group) g' ((firstThreads lvl refs).take n) + 1 ∨
      ∀ c ∈ tree.coreRefs, c.inLevel lvl → c.group = g' →
        c ∈ ((firstThreads lvl refs).take n).map ProcessorRef.core
  nodes : tree.Uniform lvl →
    ∀ (n i j : ℕ), j < tree.numaNodes.length →
      share (·.core.node) i ((firstThreads lvl refs).take n) ≤
        share (·.core.node) j ((firstThreads lvl refs).take n) + 1

theorem share_core {κ : Type*} [DecidableEq κ] (key : CoreRef → κ) (k : κ)
    (refs : List ProcessorRef) (n : ℕ) :
    share (fun r => key r.core) k (refs.take n) =
      share key k ((refs.map ProcessorRef.core).take n) := by
  rw [← List.map_take, share, share, List.countP_map]
  rfl

theorem levelOrder_perm_inLevel (tree : TopologyTree) (lvl : ℕ) :
    (levelOrder tree lvl).Perm
      (tree.coreRefs.filter (CoreRef.inLevel lvl)) := by
  have hperm := levelOrder_perm tree lvl
  rwa [TopologyTree.threadedCoreRefs, List.filter_filter] at hperm

theorem balanced_createMappingNumaRefs (tree : TopologyTree) (lvl : ℕ) :
    Balanced tree lvl (createMappingNumaRefs tree) := by
  have hstretch := firstThreads_infix_createMappingNumaRefs tree lvl
  by_cases h : lvl < tree.perfLevelCount
  · have hcores := map_core_firstThreads h
    refine ⟨hstretch, fun _ => ?_, ?_, ?_⟩
    · rw [hcores]
      exact levelOrder_perm_inLevel tree lvl
    · intro n g g'
      rw [share_core, share_core, List.map_take, hcores]
      exact share_group_take_levelOrder tree lvl n g g'
    · intro huniform n i j hj
      rw [share_core, share_core, hcores]
      exact share_node_take_levelOrder huniform n i hj
  · refine ⟨hstretch, fun hlt => absurd hlt h, ?_, ?_⟩
    · intro n g g'
      left
      simp [firstThreads_eq_nil (Nat.le_of_not_lt h), share]
    · intro _ n i j _
      simp [firstThreads_eq_nil (Nat.le_of_not_lt h), share]

theorem balanced_createMappingPhteRefs (tree : TopologyTree) (lvl : ℕ) :
    Balanced tree lvl (createMappingPhteRefs tree) := by
  have hnuma := balanced_createMappingNumaRefs tree lvl
  have hfirst := firstThreads_createMappingPhteRefs tree lvl
  exact ⟨firstThreads_infix_createMappingPhteRefs tree lvl,
    hfirst ▸ hnuma.complete, hfirst ▸ hnuma.groups, hfirst ▸ hnuma.nodes⟩

/-- Both mappings, their entries tagged with their places in the tree, spread
the first threads of every level evenly. -/
theorem createMapping_balanced (tree : TopologyTree) (lvl : ℕ) :
    (createMappingNuma tree =
        (createMappingNumaRefs tree).map ProcessorRef.deref ∧
      Balanced tree lvl (createMappingNumaRefs tree)) ∧
    (createMappingPhte tree =
        (createMappingPhteRefs tree).map ProcessorRef.deref ∧
      Balanced tree lvl (createMappingPhteRefs tree)) ∧
    ∀ r ∈ createMappingNumaRefs tree ++ createMappingPhteRefs tree,
      tree.Locates r := by
  refine ⟨⟨rfl, balanced_createMappingNumaRefs tree lvl⟩,
    ⟨rfl, balanced_createMappingPhteRefs tree lvl⟩, ?_⟩
  intro r hr
  rw [List.mem_append, (createMappingPhteRefs_perm tree).mem_iff,
    or_self_iff] at hr
  exact (locates_of_mem_createMappingNumaRefs hr).1

end BenchBox
