import BenchBox.Support.Ragged
import BenchBox.Threading.Topology

/-!
# Thread mappings

The mappings of `threading.cpp`, loop by loop, and their closed form.  A mapping
lists pointers into the tree and copies the processors they point at in its
last step, so each entry can be asked for its place in the tree.

Every stage of a mapping is a column-major traversal: groups are collected by
LLC index across the nodes, cores are taken round-robin across the groups, and
threads are laid out slot by slot across the cores.  The 32-bit loop counters
of the source index vectors and are modelled without a width.
-/

namespace BenchBox

/-! ## Groups of one perf level -/

/-- `groups_t`. -/
structure Groups where
  groups : List (List CoreRef) := []
  maxThreads : ℕ := 0

/-- Whether the core is of the perf level and has a thread. -/
def CoreRef.inLevel (perfLevel : ℕ) (c : CoreRef) : Bool :=
  c.deref.perfLevel == perfLevel && !c.deref.threads.isEmpty

/-- The loop body over the cores of one LLC group, on `cores_in_group` and
`max_threads`. -/
def pushCore (perfLevel : ℕ) (acc : List CoreRef × ℕ) (c : CoreRef) :
    List CoreRef × ℕ :=
  if c.inLevel perfLevel then
    (acc.1 ++ [c], max acc.2 c.deref.threads.length)
  else
    acc

/-- What one LLC group adds to the groups collected so far. -/
def pushLlcGroup (perfLevel : ℕ) (acc : Groups) (llc : List CoreRef) : Groups :=
  let pushed := llc.foldl (pushCore perfLevel) ([], acc.maxThreads)
  if pushed.1.isEmpty then
    { acc with maxThreads := pushed.2 }
  else
    { groups := acc.groups ++ [pushed.1], maxThreads := pushed.2 }

/-- `build_groups_int_numa_int_llc`. -/
def buildGroupsIntNumaIntLlc (topoTree : TopologyTree) (perfLevel : ℕ) :
    Groups :=
  let maxLlcCount := topoTree.numaNodes.foldl
    (fun acc node => max acc node.llcGroups.length) 0
  (List.range maxLlcCount).foldl (fun acc llcIndex =>
    topoTree.numaNodes.zipIdx.foldl (fun acc node =>
      match node.1.llcGroups[llcIndex]? with
      | none => acc
      | some llc => pushLlcGroup perfLevel acc (llc.coreRefs node.2 llcIndex))
      acc) {}

/-! ## Interleaving -/

/-- `thread_lists_t`: one list for each thread slot. -/
abbrev ThreadLists := List (List ProcessorRef)

/-- `initalize_thread_lists`. -/
def initalizeThreadLists (maxThreads : ℕ) : ThreadLists :=
  (List.range maxThreads).foldl (fun threadLists _ => threadLists ++ [[]]) []

/-- Append each thread of the core to the list of its slot. -/
def pushThreads (maxThreads : ℕ) (threadLists : ThreadLists) (c : CoreRef) :
    ThreadLists :=
  (List.range maxThreads).foldl (fun threadLists t =>
    match c.deref.threads[t]? with
    | none => threadLists
    | some lp => threadLists.modify t (· ++ [⟨c, t, lp⟩])) threadLists

/-- `interleave`. -/
def interleave (threadLists : ThreadLists) (groups : List (List CoreRef)) :
    ThreadLists :=
  let maxThreads := threadLists.length
  let maxCores := groups.foldl (fun acc g => max acc g.length) 0
  (List.range maxCores).foldl (fun threadLists i =>
    groups.foldl (fun threadLists g =>
      match g[i]? with
      | none => threadLists
      | some c => pushThreads maxThreads threadLists c) threadLists) threadLists

/-- `add_threads_to_result`, still as pointers. -/
def addThreadsToResult (result : List ProcessorRef) (threadLists : ThreadLists) :
    List ProcessorRef :=
  threadLists.foldl (fun result threadList =>
    threadList.foldl (fun result lp => result ++ [lp]) result) result

/-! ## Mappings -/

/-- The loop body over the perf levels, on `levels` and `max_threads`. -/
def pushLevel (topoTree : TopologyTree) (acc : List Groups × ℕ) (lvl : ℕ) :
    List Groups × ℕ :=
  let level := buildGroupsIntNumaIntLlc topoTree lvl
  (acc.1 ++ [level], max acc.2 level.maxThreads)

/-- The pointers `create_mapping_numa` lists. -/
def createMappingNumaRefs (topoTree : TopologyTree) : List ProcessorRef :=
  if topoTree.numaNodes.isEmpty then
    []
  else
    let levels := (List.range topoTree.perfLevelCount).foldl
      (pushLevel topoTree) ([], 0)
    let threadLists := levels.1.foldl
      (fun threadLists level => interleave threadLists level.groups)
      (initalizeThreadLists levels.2)
    addThreadsToResult [] threadLists

/-- `create_mapping_numa`. -/
def createMappingNuma (topoTree : TopologyTree) : List LogicalProcessor :=
  (createMappingNumaRefs topoTree).map ProcessorRef.deref

/-- The pointers `create_mapping_phte` lists. -/
def createMappingPhteRefs (topoTree : TopologyTree) : List ProcessorRef :=
  if topoTree.numaNodes.isEmpty then
    []
  else
    (List.range topoTree.perfLevelCount).foldl (fun result lvl =>
      let level := buildGroupsIntNumaIntLlc topoTree lvl
      let threadLists := initalizeThreadLists level.maxThreads
      addThreadsToResult result (interleave threadLists level.groups)) []

/-- `create_mapping_phte`. -/
def createMappingPhte (topoTree : TopologyTree) : List LogicalProcessor :=
  (createMappingPhteRefs topoTree).map ProcessorRef.deref

/-- `get_default_thread_count`: without a node it asks the platform, whose
answer is `hardwareConcurrency`; otherwise it counts in 32 bits. -/
def getDefaultThreadCount (hardwareConcurrency : ℕ) (tree : TopologyTree) : ℕ :=
  if tree.numaNodes.isEmpty then
    hardwareConcurrency
  else
    tree.numaNodes.foldl (fun count node =>
      node.llcGroups.foldl (fun count llc =>
        (count + llc.cores.length % 2 ^ 32) % 2 ^ 32) count) 0

/-! ## The groups in closed form -/

theorem foldl_pushCore (perfLevel : ℕ) (cores : List CoreRef)
    (acc : List CoreRef × ℕ) :
    cores.foldl (pushCore perfLevel) acc =
      (acc.1 ++ cores.filter (CoreRef.inLevel perfLevel),
        (cores.filter (CoreRef.inLevel perfLevel)).foldl
          (fun m c => max m c.deref.threads.length) acc.2) := by
  induction cores generalizing acc with
  | nil => simp
  | cons c cores ih =>
      rw [List.foldl_cons, ih]
      by_cases hc : c.inLevel perfLevel = true
      · simp [pushCore, hc]
      · simp [pushCore, hc]

theorem pushLlcGroup_groups (perfLevel : ℕ) (acc : Groups) (llc : List CoreRef) :
    (pushLlcGroup perfLevel acc llc).groups =
      acc.groups ++
        [llc.filter (CoreRef.inLevel perfLevel)].filter (!·.isEmpty) := by
  rw [pushLlcGroup, foldl_pushCore]
  dsimp only
  rw [List.nil_append]
  cases hcores : (llc.filter (CoreRef.inLevel perfLevel)).isEmpty with
  | true => simp [hcores]
  | false => simp [hcores]

theorem pushLlcGroup_maxThreads (perfLevel : ℕ) (acc : Groups)
    (llc : List CoreRef) :
    (pushLlcGroup perfLevel acc llc).maxThreads =
      (llc.filter (CoreRef.inLevel perfLevel)).foldl
        (fun m c => max m c.deref.threads.length) acc.maxThreads := by
  rw [pushLlcGroup, foldl_pushCore]
  dsimp only
  split <;> rfl

theorem foldl_pushLlcGroup_groups (perfLevel : ℕ)
    (llcs : List (List CoreRef)) (acc : Groups) :
    (llcs.foldl (pushLlcGroup perfLevel) acc).groups =
      acc.groups ++
        (llcs.map (List.filter (CoreRef.inLevel perfLevel))).filter
          (!·.isEmpty) := by
  induction llcs generalizing acc with
  | nil => simp
  | cons llc llcs ih =>
      rw [List.foldl_cons, ih, pushLlcGroup_groups, List.append_assoc,
        ← List.filter_append]
      rfl

/-- `max_threads` bounds the threads of every core collected. -/
theorem length_threads_le_foldl_pushLlcGroup (perfLevel : ℕ)
    (llcs : List (List CoreRef)) (acc : Groups) :
    acc.maxThreads ≤ (llcs.foldl (pushLlcGroup perfLevel) acc).maxThreads ∧
      ∀ llc ∈ llcs, ∀ c ∈ llc, c.inLevel perfLevel →
        c.deref.threads.length ≤
          (llcs.foldl (pushLlcGroup perfLevel) acc).maxThreads := by
  induction llcs generalizing acc with
  | nil => simp
  | cons llc llcs ih =>
      obtain ⟨hmono, hrest⟩ := ih (pushLlcGroup perfLevel acc llc)
      have hllc := (Ragged.foldl_max_le_iff
        (fun c : CoreRef => c.deref.threads.length)
        (llc.filter (CoreRef.inLevel perfLevel)) acc.maxThreads _).mp
        (pushLlcGroup_maxThreads perfLevel acc llc).ge
      refine ⟨hllc.1.trans hmono, ?_⟩
      intro row hrow c hc hlevel
      rcases List.mem_cons.mp hrow with rfl | hrow
      · exact (hllc.2 c (List.mem_filter.mpr ⟨hc, hlevel⟩)).trans hmono
      · exact hrest row hrow c hc hlevel

/-- The loops over the LLC index and the nodes visit the LLC groups in
column-major order. -/
theorem buildGroupsIntNumaIntLlc_eq (topoTree : TopologyTree) (perfLevel : ℕ) :
    buildGroupsIntNumaIntLlc topoTree perfLevel =
      (Ragged.columnMajor topoTree.llcRows).foldl (pushLlcGroup perfLevel) {} := by
  have hwidth : topoTree.numaNodes.foldl
      (fun acc node => max acc node.llcGroups.length) 0 =
        Ragged.width topoTree.llcRows := by
    rw [Ragged.width, TopologyTree.llcRows, List.foldl_map]
    conv_lhs => rw [← List.zipIdx_map_fst 0 topoTree.numaNodes, List.foldl_map]
    simp
  rw [buildGroupsIntNumaIntLlc, hwidth, Ragged.columnMajor,
    ← Ragged.foldl_columns]
  congr 1
  funext acc llcIndex
  rw [TopologyTree.llcRows, List.foldl_map]
  congr 1
  funext acc node
  rw [List.getElem?_map, List.getElem?_zipIdx]
  cases node.1.llcGroups[llcIndex]? <;> simp

/-- The cores of a perf level, in the order the mappings take them: round-robin
over the LLC groups, and these by LLC index across the nodes. -/
def levelOrder (topoTree : TopologyTree) (perfLevel : ℕ) : List CoreRef :=
  Ragged.columnMajor ((Ragged.columnMajor topoTree.llcRows).map
    (List.filter (CoreRef.inLevel perfLevel)))

theorem columnMajor_groups (topoTree : TopologyTree) (perfLevel : ℕ) :
    Ragged.columnMajor (buildGroupsIntNumaIntLlc topoTree perfLevel).groups =
      levelOrder topoTree perfLevel := by
  rw [buildGroupsIntNumaIntLlc_eq, foldl_pushLlcGroup_groups, List.nil_append,
    Ragged.columnMajor_filter_ne_nil, levelOrder]

theorem mem_levelOrder_iff {topoTree : TopologyTree} {perfLevel : ℕ}
    {c : CoreRef} :
    c ∈ levelOrder topoTree perfLevel ↔
      c ∈ topoTree.coreRefs ∧ c.inLevel perfLevel := by
  have hrows (llc : List CoreRef) :
      llc ∈ Ragged.columnMajor topoTree.llcRows ↔
        llc ∈ topoTree.llcRows.flatten :=
    (Ragged.columnMajor_perm_flatten topoTree.llcRows).mem_iff
  rw [levelOrder, (Ragged.columnMajor_perm_flatten _).mem_iff,
    ← List.filter_flatten, List.mem_filter, TopologyTree.coreRefs,
    List.mem_flatten, List.mem_flatten]
  simp only [hrows]

theorem perfLevel_of_mem_levelOrder {tree : TopologyTree} {lvl : ℕ}
    {c : CoreRef} (hc : c ∈ levelOrder tree lvl) : c.deref.perfLevel = lvl := by
  have hin := (mem_levelOrder_iff.mp hc).2
  rw [CoreRef.inLevel, Bool.and_eq_true, beq_iff_eq] at hin
  exact hin.1

/-- The slots allotted to a level suffice for each of its cores. -/
theorem length_threads_le_maxThreads {topoTree : TopologyTree}
    {perfLevel : ℕ} {c : CoreRef} (hc : c ∈ levelOrder topoTree perfLevel) :
    c.deref.threads.length ≤
      (buildGroupsIntNumaIntLlc topoTree perfLevel).maxThreads := by
  obtain ⟨hmem, hlevel⟩ := mem_levelOrder_iff.mp hc
  rw [TopologyTree.coreRefs, List.mem_flatten] at hmem
  obtain ⟨llc, hllc, hcllc⟩ := hmem
  rw [buildGroupsIntNumaIntLlc_eq]
  exact (length_threads_le_foldl_pushLlcGroup perfLevel _ {}).2 llc
    ((Ragged.columnMajor_perm_flatten _).mem_iff.mpr hllc) c hcllc hlevel

/-! ## The mappings in closed form -/

theorem initalizeThreadLists_eq (maxThreads : ℕ) :
    initalizeThreadLists maxThreads = List.replicate maxThreads [] := by
  induction maxThreads with
  | zero => rfl
  | succ n ih =>
      rw [initalizeThreadLists, List.range_succ, List.foldl_append,
        ← initalizeThreadLists, ih, List.replicate_succ']
      rfl

theorem pushThreads_eq_deal (threadLists : ThreadLists) (c : CoreRef) :
    pushThreads threadLists.length threadLists c =
      Ragged.deal threadLists c.processorRefs := by
  rw [pushThreads, Ragged.deal]
  congr 1
  funext lists t
  rw [CoreRef.getElem?_processorRefs]
  cases c.deref.threads[t]? <;> rfl

theorem foldl_pushThreads (cores : List CoreRef) (threadLists : ThreadLists) :
    cores.foldl (pushThreads threadLists.length) threadLists =
      (cores.map CoreRef.processorRefs).foldl Ragged.deal threadLists := by
  generalize hn : threadLists.length = n
  induction cores generalizing threadLists with
  | nil => rfl
  | cons c cores ih =>
      subst n
      rw [List.foldl_cons, List.map_cons, List.foldl_cons, pushThreads_eq_deal]
      exact ih _ (Ragged.length_deal _ _)

/-- Interleaving deals the cores of the groups round-robin. -/
theorem interleave_eq (threadLists : ThreadLists)
    (groups : List (List CoreRef)) :
    interleave threadLists groups =
      ((Ragged.columnMajor groups).map CoreRef.processorRefs).foldl
        Ragged.deal threadLists := by
  rw [← foldl_pushThreads, Ragged.columnMajor, ← Ragged.foldl_columns,
    interleave]
  congr 1
  funext lists i
  congr 1
  funext lists g
  cases g[i]? <;> rfl

theorem addThreadsToResult_eq (result : List ProcessorRef)
    (threadLists : ThreadLists) :
    addThreadsToResult result threadLists = result ++ threadLists.flatten := by
  have hpush (threadList result : List ProcessorRef) :
      threadList.foldl (fun result lp => result ++ [lp]) result =
        result ++ threadList := by
    induction threadList generalizing result with
    | nil => simp
    | cons lp threadList ih => simp [ih]
  induction threadLists generalizing result with
  | nil => simp [addThreadsToResult]
  | cons threadList threadLists ih =>
      rw [addThreadsToResult, List.foldl_cons, ← addThreadsToResult, ih,
        hpush, List.flatten_cons, List.append_assoc]

/-- Cores dealt onto sufficiently many fresh slots and listed slot by slot. -/
theorem flatten_foldl_deal (cores : List CoreRef) (maxThreads : ℕ)
    (h : ∀ c ∈ cores, c.deref.threads.length ≤ maxThreads) :
    ((cores.map CoreRef.processorRefs).foldl Ragged.deal
        (initalizeThreadLists maxThreads)).flatten =
      Ragged.columnMajor (cores.map CoreRef.processorRefs) := by
  rw [initalizeThreadLists_eq, Ragged.flatten_foldl_deal_replicate]
  apply Ragged.columns_eq_columnMajor
  rw [Ragged.width_le_iff, List.forall_mem_map]
  intro c hc
  rw [CoreRef.length_processorRefs]
  exact h c hc

/-- All cores `create_mapping_numa` lists, in the order it takes them. -/
def numaOrder (topoTree : TopologyTree) : List CoreRef :=
  (List.range topoTree.perfLevelCount).flatMap (levelOrder topoTree)

theorem levelOrder_of_isEmpty {topoTree : TopologyTree}
    (h : topoTree.numaNodes.isEmpty) (perfLevel : ℕ) :
    levelOrder topoTree perfLevel = [] := by
  have hrows : topoTree.llcRows = [] := by
    rw [TopologyTree.llcRows, List.isEmpty_iff.mp h]
    rfl
  rw [levelOrder, hrows]
  rfl

theorem foldl_pushLevel (topoTree : TopologyTree) (n : ℕ) :
    (List.range n).foldl (pushLevel topoTree) ([], 0) =
      ((List.range n).map (buildGroupsIntNumaIntLlc topoTree),
        (List.range n).foldl (fun acc lvl =>
          max acc (buildGroupsIntNumaIntLlc topoTree lvl).maxThreads) 0) := by
  induction n with
  | zero => rfl
  | succ n ih => simp [List.range_succ, List.foldl_append, ih, pushLevel]

theorem foldl_interleave (topoTree : TopologyTree) (levels : List ℕ)
    (threadLists : ThreadLists) :
    (levels.map (buildGroupsIntNumaIntLlc topoTree)).foldl
        (fun threadLists level => interleave threadLists level.groups)
        threadLists =
      ((levels.flatMap (levelOrder topoTree)).map
        CoreRef.processorRefs).foldl Ragged.deal threadLists := by
  induction levels generalizing threadLists with
  | nil => rfl
  | cons lvl levels ih =>
      rw [List.map_cons, List.foldl_cons, ih, interleave_eq,
        columnMajor_groups, List.flatMap_cons, List.map_append,
        List.foldl_append]

/-- `create_mapping_numa` lays out, slot by slot, the threads of the cores of
all levels. -/
theorem createMappingNumaRefs_eq (topoTree : TopologyTree) :
    createMappingNumaRefs topoTree =
      Ragged.columnMajor
        ((numaOrder topoTree).map CoreRef.processorRefs) := by
  rw [createMappingNumaRefs]
  split
  next hempty =>
    have hcores : numaOrder topoTree = [] :=
      List.flatMap_eq_nil_iff.mpr fun lvl _ => levelOrder_of_isEmpty hempty lvl
    rw [hcores]
    rfl
  next =>
    rw [foldl_pushLevel]
    dsimp only
    rw [foldl_interleave, addThreadsToResult_eq, List.nil_append]
    apply flatten_foldl_deal
    intro c hc
    obtain ⟨lvl, hlvl, hc⟩ := List.mem_flatMap.mp hc
    exact (length_threads_le_maxThreads hc).trans
      (((Ragged.foldl_max_le_iff
        (fun lvl => (buildGroupsIntNumaIntLlc topoTree lvl).maxThreads)
        _ 0 _).mp le_rfl).2 lvl hlvl)

/-- `create_mapping_phte` lays out each level on its own. -/
theorem createMappingPhteRefs_eq (topoTree : TopologyTree) :
    createMappingPhteRefs topoTree =
      (List.range topoTree.perfLevelCount).flatMap fun lvl =>
        Ragged.columnMajor
          ((levelOrder topoTree lvl).map CoreRef.processorRefs) := by
  rw [createMappingPhteRefs]
  split
  next hempty =>
    symm
    rw [List.flatMap_eq_nil_iff]
    intro lvl _
    rw [levelOrder_of_isEmpty hempty]
    rfl
  next =>
    have hlevel (result : List ProcessorRef) (lvl : ℕ) :
        addThreadsToResult result
            (interleave
              (initalizeThreadLists
                (buildGroupsIntNumaIntLlc topoTree lvl).maxThreads)
              (buildGroupsIntNumaIntLlc topoTree lvl).groups) =
          result ++ Ragged.columnMajor
            ((levelOrder topoTree lvl).map CoreRef.processorRefs) := by
      rw [addThreadsToResult_eq, interleave_eq, columnMajor_groups,
        flatten_foldl_deal]
      exact fun c hc => length_threads_le_maxThreads hc
    simp only [hlevel]
    exact List.flatMap_eq_foldl.symm

end BenchBox
