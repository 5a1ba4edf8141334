import BenchBox.Support.StablePartition
import BenchBox.Threading.Mapping

/-!
# What the mappings place

Both mappings are permutations of the processors whose perf level is in range;
the per-tier mapping is the stable partition of the NUMA mapping by perf level;
and the NUMA mapping opens with one thread of each core.
-/

namespace BenchBox

open StablePartition

/-- The processors of all cores whose perf level is in range, in tree order. -/
def TopologyTree.activeProcessors (tree : TopologyTree) :
    List LogicalProcessor :=
  (tree.cores.filter (·.perfLevel < tree.perfLevelCount)).flatMap (·.threads)

/-- The cores with a thread, in tree order. -/
def TopologyTree.threadedCoreRefs (tree : TopologyTree) : List CoreRef :=
  tree.coreRefs.filter (!·.deref.threads.isEmpty)

/-! ## The cores a mapping takes -/

theorem levelOrder_perm (tree : TopologyTree) (perfLevel : ℕ) :
    (levelOrder tree perfLevel).Perm
      (tree.threadedCoreRefs.filter (·.deref.perfLevel == perfLevel)) := by
  have hrows := Ragged.columnMajor_perm_flatten tree.llcRows
  rw [levelOrder, TopologyTree.threadedCoreRefs, List.filter_filter]
  refine (Ragged.columnMajor_perm_flatten _).trans ?_
  rw [← List.filter_flatten]
  exact (hrows.flatten).filter _

theorem numaOrder_perm (tree : TopologyTree) :
    (numaOrder tree).Perm
      (tree.threadedCoreRefs.filter
        (·.deref.perfLevel < tree.perfLevelCount)) :=
  (List.Perm.flatMap_left _ fun lvl _ => levelOrder_perm tree lvl).trans
    (stablePartition_perm (fun c : CoreRef => c.deref.perfLevel) _ _)

theorem mem_numaOrder_iff {tree : TopologyTree} {c : CoreRef} :
    c ∈ numaOrder tree ↔
      c ∈ tree.coreRefs ∧ c.deref.perfLevel < tree.perfLevelCount ∧
        c.deref.threads ≠ [] := by
  rw [(numaOrder_perm tree).mem_iff, TopologyTree.threadedCoreRefs]
  simp only [List.mem_filter, Bool.not_eq_true', List.isEmpty_eq_false_iff,
    decide_eq_true_eq]
  tauto

/-- Threadless cores contribute nothing. -/
theorem flatMap_threads_threadedCoreRefs (cores : List CoreRef) :
    (cores.filter (!·.deref.threads.isEmpty)).flatMap (·.deref.threads) =
      cores.flatMap (·.deref.threads) := by
  induction cores with
  | nil => rfl
  | cons c cores ih =>
      cases hthreads : c.deref.threads with
      | nil => simpa [hthreads] using ih
      | cons lp threads => simp [hthreads, ih]

/-- The threads of the cores a mapping takes are the processors in range. -/
theorem flatMap_threads_numaOrder_perm (tree : TopologyTree) :
    ((numaOrder tree).flatMap (·.deref.threads)).Perm tree.activeProcessors := by
  have hcores : (tree.coreRefs.filter
      (·.deref.perfLevel < tree.perfLevelCount)).map CoreRef.deref =
        tree.cores.filter (·.perfLevel < tree.perfLevelCount) := by
    rw [← tree.map_deref_coreRefs, List.filter_map]
    rfl
  have hthreads : (tree.threadedCoreRefs.filter
      (·.deref.perfLevel < tree.perfLevelCount)).flatMap (·.deref.threads) =
        tree.activeProcessors := by
    rw [TopologyTree.threadedCoreRefs, List.filter_comm,
      flatMap_threads_threadedCoreRefs, TopologyTree.activeProcessors,
      ← hcores, List.flatMap_map]
  rw [← hthreads]
  exact (numaOrder_perm tree).flatMap_right _

theorem createMappingNumaRefs_perm (tree : TopologyTree) :
    (createMappingNumaRefs tree).Perm
      ((numaOrder tree).flatMap CoreRef.processorRefs) := by
  rw [createMappingNumaRefs_eq, List.flatMap_def]
  exact Ragged.columnMajor_perm_flatten _

theorem createMappingNuma_perm (tree : TopologyTree) :
    (createMappingNuma tree).Perm tree.activeProcessors := by
  have hrefs := (createMappingNumaRefs_perm tree).map ProcessorRef.deref
  simp only [List.map_flatMap, CoreRef.map_deref_processorRefs] at hrefs
  exact hrefs.trans (flatMap_threads_numaOrder_perm tree)

/-! ## The per-tier mapping as a stable partition -/

/-- The perf level of the core an entry belongs to. -/
def ProcessorRef.perfLevel (r : ProcessorRef) : ℕ := r.core.deref.perfLevel

theorem filter_perfLevel_numaOrder {tree : TopologyTree} {lvl : ℕ}
    (h : lvl < tree.perfLevelCount) :
    (numaOrder tree).filter (·.deref.perfLevel == lvl) =
      levelOrder tree lvl := by
  have hlevel (i : ℕ) : ∀ c ∈ levelOrder tree i, c.deref.perfLevel = i :=
    fun c hc => perfLevel_of_mem_levelOrder hc
  rw [numaOrder, filter_flatMap_range hlevel, if_pos h]

/-- The entries of one perf level, in the order of the NUMA mapping, are that
level laid out on its own. -/
theorem filter_perfLevel_createMappingNumaRefs {tree : TopologyTree} {lvl : ℕ}
    (h : lvl < tree.perfLevelCount) :
    (createMappingNumaRefs tree).filter (·.perfLevel == lvl) =
      Ragged.columnMajor
        ((levelOrder tree lvl).map CoreRef.processorRefs) := by
  have hrow : ∀ c ∈ numaOrder tree, ∀ r ∈ c.processorRefs,
      (r.perfLevel == lvl) = (c.deref.perfLevel == lvl) := by
    intro c _ r hr
    rw [ProcessorRef.perfLevel, (CoreRef.mem_processorRefs_iff.mp hr).1]
  rw [createMappingNumaRefs_eq, Ragged.filter_columnMajor_map hrow,
    filter_perfLevel_numaOrder h]

theorem createMappingPhteRefs_eq_stablePartition (tree : TopologyTree) :
    createMappingPhteRefs tree =
      stablePartition ProcessorRef.perfLevel tree.perfLevelCount
        (createMappingNumaRefs tree) := by
  rw [createMappingPhteRefs_eq]
  apply List.flatMap_congr
  intro lvl hlvl
  exact (filter_perfLevel_createMappingNumaRefs (List.mem_range.mp hlvl)).symm

theorem locates_of_mem_createMappingNumaRefs {tree : TopologyTree}
    {r : ProcessorRef} (hr : r ∈ createMappingNumaRefs tree) :
    tree.Locates r ∧ r.perfLevel < tree.perfLevelCount := by
  rw [(createMappingNumaRefs_perm tree).mem_iff, List.mem_flatMap] at hr
  obtain ⟨c, hc, hr⟩ := hr
  obtain ⟨rfl, hthread⟩ := CoreRef.mem_processorRefs_iff.mp hr
  obtain ⟨hcore, hlevel, -⟩ := mem_numaOrder_iff.mp hc
  exact ⟨⟨TopologyTree.mem_coreRefs_iff.mp hcore, hthread⟩, hlevel⟩

theorem nodup_numaOrder (tree : TopologyTree) : (numaOrder tree).Nodup := by
  rw [(numaOrder_perm tree).nodup_iff]
  have hrefs : tree.coreRefs.Nodup := tree.nodup_position_coreRefs.of_map _
  exact (hrefs.filter _).filter _

/-- No place of the tree is listed twice. -/
theorem nodup_createMappingNumaRefs (tree : TopologyTree) :
    (createMappingNumaRefs tree).Nodup := by
  rw [(createMappingNumaRefs_perm tree).nodup_iff, List.nodup_flatMap]
  refine ⟨fun c _ => c.nodup_processorRefs, ?_⟩
  refine (nodup_numaOrder tree).imp ?_
  intro c c' hne r hr hr'
  exact hne ((CoreRef.mem_processorRefs_iff.mp hr).1.symm.trans
    (CoreRef.mem_processorRefs_iff.mp hr').1)

theorem createMappingPhteRefs_perm (tree : TopologyTree) :
    (createMappingPhteRefs tree).Perm (createMappingNumaRefs tree) := by
  have hall : (createMappingNumaRefs tree).filter
      (·.perfLevel < tree.perfLevelCount) = createMappingNumaRefs tree := by
    rw [List.filter_eq_self]
    intro r hr
    exact decide_eq_true (locates_of_mem_createMappingNumaRefs hr).2
  rw [createMappingPhteRefs_eq_stablePartition]
  conv_rhs => rw [← hall]
  exact stablePartition_perm _ _ _

/-- The per-tier mapping is the stable partition of the NUMA mapping by perf
level.  The entries are tagged with their place in the tree, and the tags are
places of the tree. -/
theorem createMappingPhte_stablePartition (tree : TopologyTree) :
    createMappingPhteRefs tree =
        (List.range tree.perfLevelCount).flatMap (fun lvl =>
          (createMappingNumaRefs tree).filter (·.perfLevel == lvl)) ∧
      createMappingNuma tree =
        (createMappingNumaRefs tree).map ProcessorRef.deref ∧
      createMappingPhte tree =
        (createMappingPhteRefs tree).map ProcessorRef.deref ∧
      (∀ r ∈ createMappingNumaRefs tree, tree.Locates r) ∧
      (createMappingNumaRefs tree).Nodup := by
  exact ⟨createMappingPhteRefs_eq_stablePartition tree, rfl, rfl,
    fun r hr => (locates_of_mem_createMappingNumaRefs hr).1,
    nodup_createMappingNumaRefs tree⟩

/-! ## Every processor in range is placed once -/

/-- Both mappings place the processors of the active cores. -/
theorem mapping_perm_activeProcessors {tree : TopologyTree}
    {mapping : List LogicalProcessor}
    (hmapping : mapping = createMappingNuma tree ∨
      mapping = createMappingPhte tree) :
    mapping.Perm tree.activeProcessors := by
  rcases hmapping with rfl | rfl
  · exact createMappingNuma_perm tree
  · exact ((createMappingPhteRefs_perm tree).map ProcessorRef.deref).trans
      (createMappingNuma_perm tree)

/-- Each mapping is a permutation of the processors of the cores whose perf
level is in range. -/
theorem createMapping_perm_activeProcessors (tree : TopologyTree) :
    (createMappingNuma tree).Perm tree.activeProcessors ∧
      (createMappingPhte tree).Perm tree.activeProcessors :=
  ⟨mapping_perm_activeProcessors (.inl rfl),
    mapping_perm_activeProcessors (.inr rfl)⟩

/-! ## The default thread count -/

theorem foldl_llcGroups_count (llcs : List LlcGroup) {count : ℕ}
    (hcount : count < 2 ^ 32) :
    llcs.foldl (fun count llc =>
        (count + llc.cores.length % 2 ^ 32) % 2 ^ 32) count =
      (count + (llcs.flatMap (·.cores)).length) % 2 ^ 32 := by
  induction llcs generalizing count with
  | nil => simpa using (Nat.mod_eq_of_lt hcount).symm
  | cons llc llcs ih =>
      rw [List.foldl_cons, ih (Nat.mod_lt _ (by omega)), List.flatMap_cons,
        List.length_append]
      omega

/-- The count is the number of cores, narrowed to 32 bits. -/
theorem getDefaultThreadCount_eq (hardwareConcurrency : ℕ)
    {tree : TopologyTree} (hnodes : tree.numaNodes ≠ []) :
    getDefaultThreadCount hardwareConcurrency tree =
      tree.cores.length % 2 ^ 32 := by
  have hfold (nodes : List NumaNode) {count : ℕ} (hcount : count < 2 ^ 32) :
      nodes.foldl (fun count node =>
          node.llcGroups.foldl (fun count llc =>
            (count + llc.cores.length % 2 ^ 32) % 2 ^ 32) count) count =
        (count + (nodes.flatMap fun node =>
          node.llcGroups.flatMap (·.cores)).length) % 2 ^ 32 := by
    induction nodes generalizing count with
    | nil => simpa using (Nat.mod_eq_of_lt hcount).symm
    | cons node nodes ih =>
        rw [List.foldl_cons, foldl_llcGroups_count _ hcount,
          ih (Nat.mod_lt _ (by omega)), List.flatMap_cons, List.length_append]
        omega
  rw [getDefaultThreadCount, if_neg (by simpa using hnodes),
    hfold _ (by omega), Nat.zero_add, TopologyTree.cores]

/-- If every core has a thread and a perf level in range, the mapping takes
every core. -/
theorem numaOrder_perm_coreRefs {tree : TopologyTree}
    (h : ∀ c ∈ tree.cores,
      c.threads ≠ [] ∧ c.perfLevel < tree.perfLevelCount) :
    (numaOrder tree).Perm tree.coreRefs := by
  have hrefs : tree.coreRefs.Nodup := tree.nodup_position_coreRefs.of_map _
  rw [List.perm_ext_iff_of_nodup (nodup_numaOrder tree) hrefs]
  intro c
  rw [mem_numaOrder_iff]
  constructor
  · exact fun hc => hc.1
  · intro hc
    have hcore : c.deref ∈ tree.cores := by
      rw [← tree.map_deref_coreRefs]
      exact List.mem_map_of_mem hc
    exact ⟨hc, (h _ hcore).2, (h _ hcore).1⟩

/-- The first slot holds the first thread of each core. -/
theorem map_deref_column_zero (cores : List CoreRef) :
    (Ragged.column (cores.map CoreRef.processorRefs) 0).map
        ProcessorRef.deref =
      cores.filterMap (·.deref.threads.head?) := by
  induction cores with
  | nil => rfl
  | cons c cores ih =>
      rw [List.map_cons, Ragged.column_cons, List.map_append, ih,
        CoreRef.getElem?_processorRefs]
      cases hthreads : c.deref.threads <;> simp [hthreads]

theorem map_core_column_zero {cores : List CoreRef}
    (h : ∀ c ∈ cores, c.deref.threads ≠ []) :
    (Ragged.column (cores.map CoreRef.processorRefs) 0).map
        ProcessorRef.core = cores := by
  induction cores with
  | nil => rfl
  | cons c cores ih =>
      have hc := h c List.mem_cons_self
      rw [List.map_cons, Ragged.column_cons, List.map_append,
        ih fun d hd => h d (List.mem_cons_of_mem c hd),
        CoreRef.getElem?_processorRefs]
      cases hthreads : c.deref.threads with
      | nil => exact absurd hthreads hc
      | cons lp threads => rfl

/-- The entries of one slot carry its number. -/
theorem thread_of_mem_column {cores : List CoreRef} {t : ℕ} {r : ProcessorRef}
    (hr : r ∈ Ragged.column (cores.map CoreRef.processorRefs) t) :
    r.thread = t := by
  rw [Ragged.mem_column_iff] at hr
  obtain ⟨row, hrow, hget⟩ := hr
  obtain ⟨c, -, rfl⟩ := List.mem_map.mp hrow
  rw [CoreRef.getElem?_processorRefs, Option.map_eq_some_iff] at hget
  obtain ⟨lp, -, rfl⟩ := hget
  rfl

/-- The mapping starts with the first slot: one entry for each core it takes. -/
theorem take_createMappingNumaRefs (tree : TopologyTree) :
    (createMappingNumaRefs tree).take (numaOrder tree).length =
      Ragged.column ((numaOrder tree).map CoreRef.processorRefs) 0 := by
  rw [createMappingNumaRefs_eq,
    ← (numaOrder tree).length_map CoreRef.processorRefs]
  apply Ragged.take_columnMajor
  rw [List.forall_mem_map]
  intro c hc hnil
  have hthreads : c.deref.threads ≠ [] := (mem_numaOrder_iff.mp hc).2.2
  exact hthreads
    (List.eq_nil_of_length_eq_zero (by simpa using congrArg List.length hnil))

/-- If every core has a thread and a perf level in range, the default thread
count is the number of cores the mapping takes. -/
theorem getDefaultThreadCount_eq_length_numaOrder (hardwareConcurrency : ℕ)
    {tree : TopologyTree} (hnodes : tree.numaNodes ≠ [])
    (hcount : tree.cores.length < 2 ^ 32)
    (h : ∀ c ∈ tree.cores,
      c.threads ≠ [] ∧ c.perfLevel < tree.perfLevelCount) :
    getDefaultThreadCount hardwareConcurrency tree =
      (numaOrder tree).length := by
  calc
    getDefaultThreadCount hardwareConcurrency tree =
        tree.cores.length % 2 ^ 32 :=
      getDefaultThreadCount_eq hardwareConcurrency hnodes
    _ = tree.cores.length := Nat.mod_eq_of_lt hcount
    _ = tree.coreRefs.length := by
      rw [← tree.map_deref_coreRefs, List.length_map]
    _ = (numaOrder tree).length := (numaOrder_perm_coreRefs h).length_eq.symm

/-- If every core has a thread and a perf level in range, the entries below the
default thread count are the first threads of the cores. -/
theorem take_createMappingNuma_perm (hardwareConcurrency : ℕ)
    {tree : TopologyTree} (hnodes : tree.numaNodes ≠ [])
    (hcount : tree.cores.length < 2 ^ 32)
    (h : ∀ c ∈ tree.cores,
      c.threads ≠ [] ∧ c.perfLevel < tree.perfLevelCount) :
    ((createMappingNuma tree).take
        (getDefaultThreadCount hardwareConcurrency tree)).Perm
      (tree.cores.filterMap (·.threads.head?)) := by
  rw [getDefaultThreadCount_eq_length_numaOrder _ hnodes hcount h,
    createMappingNuma, ← List.map_take, take_createMappingNumaRefs,
    map_deref_column_zero, ← tree.map_deref_coreRefs, List.filterMap_map]
  exact (numaOrder_perm_coreRefs h).filterMap _

/-- Running with the default thread count under the NUMA mapping pins one
thread to each physical core. -/
theorem take_defaultThreadCount_createMappingNuma (hardwareConcurrency : ℕ)
    (tree : TopologyTree) (hnodes : tree.numaNodes ≠ [])
    (hcount : tree.cores.length < 2 ^ 32)
    (h : ∀ c ∈ tree.cores,
      c.threads ≠ [] ∧ c.perfLevel < tree.perfLevelCount) :
    let count := getDefaultThreadCount hardwareConcurrency tree
    let pinned := (createMappingNumaRefs tree).take count
    (createMappingNuma tree).take count = pinned.map ProcessorRef.deref ∧
      ((createMappingNuma tree).take count).Perm
        (tree.cores.filterMap (·.threads.head?)) ∧
      (∀ r ∈ pinned, tree.Locates r ∧ r.thread = 0) ∧
      (pinned.map ProcessorRef.core).Perm tree.coreRefs ∧
      (pinned.map fun r => r.core.position).Nodup := by
  intro count pinned
  have horder := numaOrder_perm_coreRefs h
  have hthreads : ∀ c ∈ numaOrder tree, c.deref.threads ≠ [] :=
    fun c hc => (mem_numaOrder_iff.mp hc).2.2
  have hpinned : pinned =
      Ragged.column ((numaOrder tree).map CoreRef.processorRefs) 0 := by
    show (createMappingNumaRefs tree).take count = _
    rw [← take_createMappingNumaRefs]
    congr 1
    exact getDefaultThreadCount_eq_length_numaOrder _ hnodes hcount h
  have hvalues : (createMappingNuma tree).take count =
      pinned.map ProcessorRef.deref :=
    List.map_take.symm
  have hcores : pinned.map ProcessorRef.core = numaOrder tree := by
    rw [hpinned, map_core_column_zero hthreads]
  refine ⟨hvalues, ?_, ?_, ?_, ?_⟩
  · exact take_createMappingNuma_perm hardwareConcurrency hnodes hcount h
  · intro r hr
    refine ⟨(locates_of_mem_createMappingNumaRefs (List.mem_of_mem_take hr)).1,
      thread_of_mem_column (hpinned ▸ hr)⟩
  · rw [hcores]
    exact horder
  · have hpositions : pinned.map (fun r => r.core.position) =
        (numaOrder tree).map CoreRef.position := by
      rw [← hcores, List.map_map]
      rfl
    rw [hpositions, (horder.map _).nodup_iff]
    exact tree.nodup_position_coreRefs

/-- `create_meteor2p2e2lpe_tree` of the tests: two nodes, two tiers, cores with
one and with two threads. -/
def createMeteor2p2e2lpeTree : TopologyTree where
  numaNodes :=
    [⟨0, [⟨0,
      [⟨0, 0, [⟨0, 0, 0, 0⟩, ⟨1, 0, 1, 0⟩]⟩,
        ⟨1, 0, [⟨0, 0, 2, 0⟩, ⟨1, 0, 3, 0⟩]⟩,
        ⟨2, 1, [⟨0, 2, 4, 0⟩]⟩,
        ⟨3, 1, [⟨0, 3, 5, 0⟩]⟩]⟩]⟩,
      ⟨1, [⟨1,
        [⟨4, 1, [⟨0, 4, 6, 0⟩]⟩,
          ⟨5, 1, [⟨0, 5, 7, 0⟩]⟩]⟩]⟩]
  perfLevelCount := 2

example :
    (createMappingNuma createMeteor2p2e2lpeTree).map (·.osId) =
      [0, 2, 4, 6, 5, 7, 1, 3] := by
  decide

theorem take_defaultThreadCount_createMappingNuma_meteor :
    ((createMappingNuma createMeteor2p2e2lpeTree).take
        (getDefaultThreadCount 8 createMeteor2p2e2lpeTree)).Perm
      (createMeteor2p2e2lpeTree.cores.filterMap (·.threads.head?)) :=
  (take_defaultThreadCount_createMappingNuma 8 createMeteor2p2e2lpeTree
    (by decide) (by decide) (by decide)).2.1

end BenchBox
