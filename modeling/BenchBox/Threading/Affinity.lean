import BenchBox.Threading.Linux.Tree
import BenchBox.Threading.Placement
import BenchBox.Threading.Windows.Tiers

/-!
# Pinning threads

`assign_thread`, as the affinity it asks the operating system for.  On the tree
of a builder the mappings pin every logical processor once, and with the default
thread count one thread to each physical core.
-/

namespace BenchBox

/-- `threading_manager`. -/
structure ThreadingManager where
  threadCount : ℕ := 0
  threadMapping : List LogicalProcessor := []

/-! ## Thread ids and what they are pinned to -/

/-- The ids below the number of targets are pinned to one target each, no two to
the same; the others are not pinned. -/
structure PinsEach {τ : Type*} (pin : ℕ → Option τ) (targets : List τ) :
    Prop where
  eq_none_iff : ∀ threadId, pin threadId = none ↔ targets.length ≤ threadId
  mem : ∀ threadId target, pin threadId = some target → target ∈ targets
  existsUnique : ∀ target ∈ targets, ∃! threadId, pin threadId = some target

theorem pinsEach_getElem? {τ : Type*} {entries targets : List τ}
    (hperm : entries.Perm targets) (hnodup : targets.Nodup) :
    PinsEach (fun threadId => entries[threadId]?) targets where
  eq_none_iff := by
    intro threadId
    rw [List.getElem?_eq_none_iff, hperm.length_eq]
  mem := fun threadId target h =>
    hperm.mem_iff.mp (List.mem_of_getElem? h)
  existsUnique := by
    intro target htarget
    obtain ⟨i, hi⟩ := List.mem_iff_getElem?.mp (hperm.mem_iff.mpr htarget)
    refine ⟨i, hi, ?_⟩
    intro j hj
    obtain ⟨hlt, -⟩ := List.getElem?_eq_some_iff.mp hj
    exact (List.getElem?_inj hlt (hperm.nodup_iff.mpr hnodup)).mp
      (hj.trans hi.symm)

/-- If all perf levels are in range, every processor is active. -/
theorem TopologyTree.activeProcessors_eq {tree : TopologyTree}
    (h : ∀ c ∈ tree.cores, c.perfLevel < tree.perfLevelCount) :
    tree.activeProcessors = tree.cores.flatMap (·.threads) := by
  have hall : tree.cores.filter (·.perfLevel < tree.perfLevelCount) =
      tree.cores := by
    rw [List.filter_eq_self]
    exact fun c hc => decide_eq_true (h c hc)
  rw [TopologyTree.activeProcessors, hall]

/-! ## Linux -/

namespace Linux

/-- `cpu_set_t`. -/
abbrev CpuSet := BitVec 1024

/-- `CPU_SET`, which leaves the set alone for a CPU beyond its last bit. -/
def setCpu (cpu : ℕ) (cpuset : CpuSet) : CpuSet :=
  cpuset ||| 1#1024 <<< cpu

/-- `assign_thread`: the set of the call `pthread_setaffinity_np`, `none` if
there is no call. -/
def assignThread (threadManager : ThreadingManager) (threadId : ℕ) :
    Option CpuSet :=
  if h : threadId < threadManager.threadMapping.length then
    some (setCpu threadManager.threadMapping[threadId].osId 0#1024)
  else
    none

theorem getLsbD_setCpu_zero (cpu i : ℕ) :
    (setCpu cpu 0#1024).getLsbD i = true ↔ i = cpu ∧ i < 1024 := by
  rw [setCpu, BitVec.zero_or, BitVec.getLsbD_shiftLeft, BitVec.getLsbD_one]
  simp only [Bool.and_eq_true, decide_eq_true_eq, Bool.not_eq_true',
    decide_eq_false_iff_not]
  omega

theorem assignThread_eq (threadManager : ThreadingManager) (threadId : ℕ) :
    assignThread threadManager threadId =
      (threadManager.threadMapping.map (·.osId))[threadId]?.map
        (setCpu · 0#1024) := by
  rw [assignThread, List.getElem?_map]
  split
  next h => rw [List.getElem?_eq_getElem h]; rfl
  next h => rw [List.getElem?_eq_none (Nat.le_of_not_lt h)]; rfl

/-- The CPU numbers of a mapping of the tree. -/
theorem map_osId_mapping_perm {cpus : List CpuEntry}
    {mapping : List LogicalProcessor}
    (hmapping : mapping = createMappingNuma (treeOf cpus) ∨
      mapping = createMappingPhte (treeOf cpus)) :
    (mapping.map (·.osId)).Perm (cpus.map (·.cpu)) := by
  have hperm := (mapping_perm_activeProcessors hmapping).map (·.osId)
  rw [TopologyTree.activeProcessors_eq fun c hc =>
    perfLevel_lt_of_mem_cores hc] at hperm
  exact hperm.trans (osIds_treeOf_perm cpus)

/-- A thread asks for a set with a CPU exactly when its entry names the CPU. -/
theorem exists_assignThread_iff {threadManager : ThreadingManager}
    {threadId cpu : ℕ} (hcpu : cpu < 1024) :
    (∃ cpuset, assignThread threadManager threadId = some cpuset ∧
        cpuset.getLsbD cpu = true) ↔
      (threadManager.threadMapping.map (·.osId))[threadId]? = some cpu := by
  rw [assignThread_eq]
  constructor
  · intro h
    obtain ⟨cpuset, hset, hbit⟩ := h
    obtain ⟨osId, hosId, rfl⟩ := Option.map_eq_some_iff.mp hset
    rw [hosId, ((getLsbD_setCpu_zero osId cpu).mp hbit).1]
  · intro hosId
    rw [hosId]
    exact ⟨_, rfl, (getLsbD_setCpu_zero cpu cpu).mpr ⟨rfl, hcpu⟩⟩

/-- On the tree of an enumeration without repeated CPUs, the thread ids below
the number of CPUs ask for one CPU each and the others for none.  The CPU is one
of the enumeration, and each CPU that a `cpu_set_t` can name is asked for by
exactly one thread. -/
theorem assignThread_pinsEach {fs : Sysfs} {cpus : List CpuEntry}
    {tree : TopologyTree} (henum : enumerate fs = some cpus)
    (htree : buildTopoTree fs = some tree)
    (hdistinct : (cpus.map (·.cpu)).Nodup) (threadCount : ℕ)
    (mapping : List LogicalProcessor)
    (hmapping : mapping = createMappingNuma tree ∨
      mapping = createMappingPhte tree) :
    let threadManager : ThreadingManager := ⟨threadCount, mapping⟩
    (∀ threadId, assignThread threadManager threadId = none ↔
        cpus.length ≤ threadId) ∧
      (∀ threadId cpuset, assignThread threadManager threadId = some cpuset →
        ∃ e ∈ cpus, ∀ cpu,
          cpuset.getLsbD cpu = true ↔ cpu = e.cpu ∧ cpu < 1024) ∧
      ∀ e ∈ cpus, e.cpu < 1024 → ∃! threadId, ∃ cpuset,
        assignThread threadManager threadId = some cpuset ∧
          cpuset.getLsbD e.cpu = true := by
  intro threadManager
  obtain rfl : treeOf cpus = tree :=
    Option.some.inj ((buildTopoTree_of_enumerate henum).symm.trans htree)
  have hpins := pinsEach_getElem? (map_osId_mapping_perm hmapping) hdistinct
  refine ⟨?_, ?_, ?_⟩
  · intro threadId
    rw [assignThread_eq, Option.map_eq_none_iff, ← cpus.length_map (·.cpu)]
    exact hpins.eq_none_iff threadId
  · intro threadId cpuset hset
    rw [assignThread_eq] at hset
    obtain ⟨osId, hosId, rfl⟩ := Option.map_eq_some_iff.mp hset
    obtain ⟨e, he, rfl⟩ := List.mem_map.mp (hpins.mem threadId osId hosId)
    exact ⟨e, he, getLsbD_setCpu_zero e.cpu⟩
  · intro e he hcpu
    simp only [exists_assignThread_iff hcpu]
    exact hpins.existsUnique e.cpu (List.mem_map_of_mem he)

theorem assignThread_pinsEach_hybrid :
    ∃! threadId, ∃ cpuset,
      assignThread ⟨3, createMappingNuma (treeOf hybridCpus)⟩ threadId =
          some cpuset ∧ cpuset.getLsbD 2 = true :=
  (assignThread_pinsEach
    (show enumerate (sysfsOf hybridCpus) = some hybridCpus by decide)
    (buildTopoTree_of_enumerate (by decide)) (by decide) 3 _ (.inl rfl)).2.2
    ⟨2, 512, 0, none, some 1⟩ (by decide) (by decide)

/-! ## One thread a core -/

/-- The node, LLC and core ids of the cores of the tree. -/
def coreKeys (cpus : List CpuEntry) : List (ℕ × ℕ × ℕ) :=
  (treeOf cpus).keyedCores.map Prod.fst

/-- The number of the first CPU of a core. -/
def firstCpu (cpus : List CpuEntry) (k : ℕ × ℕ × ℕ) : Option ℕ :=
  (cpusAt cpus k).head?.map (·.cpu)

theorem mem_coreKeys_iff {cpus : List CpuEntry} {k : ℕ × ℕ × ℕ} :
    k ∈ coreKeys cpus ↔ ∃ e ∈ cpus, e.key = k := by
  rw [coreKeys, List.mem_map]
  constructor
  · intro h
    obtain ⟨⟨k, core⟩, hmem, rfl⟩ := h
    obtain ⟨hholds, -⟩ := TopologyTree.mem_keyedCores_iff.mp hmem
    obtain ⟨coreId, hne, rfl⟩ := holds_treeOf_iff.mp hholds
    obtain rfl := (TopologyTree.mem_keyedCores_iff.mp hmem).2
    obtain ⟨e, he⟩ := List.exists_mem_of_ne_nil _ hne
    exact ⟨e, mem_cpusAt_iff.mp he⟩
  · intro h
    obtain ⟨e, he, rfl⟩ := h
    exact ⟨_, TopologyTree.mem_keyedCores_iff.mpr ⟨holds_coreOf he, rfl⟩, rfl⟩

/-- The first threads of the cores are the first CPUs of the keys. -/
theorem map_osId_firstThreads (cpus : List CpuEntry) :
    ((treeOf cpus).cores.filterMap (·.threads.head?)).map (·.osId) =
      (coreKeys cpus).filterMap (firstCpu cpus) := by
  rw [← TopologyTree.map_snd_keyedCores, coreKeys, List.map_filterMap,
    List.filterMap_map, List.filterMap_map]
  apply List.filterMap_congr
  rintro ⟨k, core⟩ hmem
  rw [Function.comp_apply, Function.comp_apply, keyedCores_treeOf hmem,
    firstCpu, ← List.head?_map, ← List.head?_map, map_osId_coreOf]

/-- Every core has a thread and a perf level in range. -/
theorem threads_ne_nil_of_mem_cores {cpus : List CpuEntry} {core : Core}
    (hcore : core ∈ (treeOf cpus).cores) : core.threads ≠ [] := by
  obtain ⟨nodeId, llcId, hholds⟩ := TopologyTree.mem_cores_iff.mp hcore
  obtain ⟨coreId, hne, rfl⟩ := holds_treeOf_iff.mp hholds
  exact threads_coreOf_ne_nil hne _ _

theorem length_cores_eq (cpus : List CpuEntry) :
    (treeOf cpus).cores.length = (cpus.map (·.key)).toFinset.card := by
  have hkeys : (coreKeys cpus).toFinset = (cpus.map (·.key)).toFinset := by
    ext k
    rw [List.mem_toFinset, List.mem_toFinset, mem_coreKeys_iff, List.mem_map]
  have hnodup : (coreKeys cpus).Nodup := (ordered_treeOf cpus).nodup_keys
  rw [← hkeys, List.toFinset_card_of_nodup hnodup, coreKeys,
    ← TopologyTree.map_snd_keyedCores, List.length_map, List.length_map]

theorem length_cores_le (cpus : List CpuEntry) :
    (treeOf cpus).cores.length ≤ cpus.length := by
  rw [length_cores_eq, ← cpus.length_map (·.key)]
  exact List.toFinset_card_le _

theorem numaNodes_treeOf_ne_nil {cpus : List CpuEntry} (hne : cpus ≠ []) :
    (treeOf cpus).numaNodes ≠ [] := by
  obtain ⟨e, he⟩ := List.exists_mem_of_ne_nil _ hne
  obtain ⟨node, hnode, -⟩ := holds_coreOf he
  exact List.ne_nil_of_mem hnode

/-- The first CPUs of the cores are distinct. -/
theorem eq_key_of_firstCpu {cpus : List CpuEntry}
    (hdistinct : (cpus.map (·.cpu)).Nodup) {d : CpuEntry} (hd : d ∈ cpus)
    {k : ℕ × ℕ × ℕ} (hk : firstCpu cpus k = some d.cpu) : d.key = k := by
  obtain ⟨d', hhead, hcpu⟩ := Option.map_eq_some_iff.mp hk
  obtain ⟨hd', hkey⟩ := mem_cpusAt_iff.mp (List.mem_of_head? hhead)
  rw [← hkey, List.inj_on_of_nodup_map hdistinct hd' hd hcpu]

end Linux

namespace Linux

theorem firstCpu_isSome {cpus : List CpuEntry} {k : ℕ × ℕ × ℕ}
    (hk : k ∈ coreKeys cpus) : (firstCpu cpus k).isSome := by
  obtain ⟨e, he, rfl⟩ := mem_coreKeys_iff.mp hk
  rw [firstCpu, Option.isSome_map, List.isSome_head?]
  exact cpusAt_key_ne_nil he

/-- Every core has a first CPU. -/
theorem length_filterMap_firstCpu (cpus : List CpuEntry) :
    ((coreKeys cpus).filterMap (firstCpu cpus)).length =
      (treeOf cpus).cores.length := by
  have hall : (coreKeys cpus).countP (fun k => (firstCpu cpus k).isSome) =
      (coreKeys cpus).length :=
    List.countP_eq_length.mpr fun _ hk => firstCpu_isSome hk
  rw [List.length_filterMap_eq_countP, hall, coreKeys,
    ← TopologyTree.map_snd_keyedCores, List.length_map, List.length_map]

theorem exists_of_mem_filterMap_firstCpu {cpus : List CpuEntry} {cpu : ℕ}
    (h : cpu ∈ (coreKeys cpus).filterMap (firstCpu cpus)) :
    ∃ d ∈ cpus, d.cpu = cpu ∧ firstCpu cpus d.key = some cpu := by
  obtain ⟨k, -, hk⟩ := List.mem_filterMap.mp h
  obtain ⟨d, hhead, rfl⟩ := Option.map_eq_some_iff.mp hk
  obtain ⟨hd, rfl⟩ := mem_cpusAt_iff.mp (List.mem_of_head? hhead)
  exact ⟨d, hd, rfl, hk⟩

/-- The CPU numbers of the entries below the default thread count. -/
theorem take_map_osId_perm {cpus : List CpuEntry} (hne : cpus ≠ [])
    (hcount : cpus.length < 2 ^ 32) (hardwareConcurrency : ℕ) :
    (((createMappingNuma (treeOf cpus)).take (getDefaultThreadCount
        hardwareConcurrency (treeOf cpus))).map (·.osId)).Perm
      ((coreKeys cpus).filterMap (firstCpu cpus)) := by
  rw [← map_osId_firstThreads]
  apply List.Perm.map
  apply take_createMappingNuma_perm _ (numaNodes_treeOf_ne_nil hne)
    ((length_cores_le cpus).trans_lt hcount)
  exact fun c hc => ⟨threads_ne_nil_of_mem_cores hc, perfLevel_lt_of_mem_cores hc⟩

/-- The default thread count is the number of cores. -/
theorem getDefaultThreadCount_treeOf {cpus : List CpuEntry} (hne : cpus ≠ [])
    (hcount : cpus.length < 2 ^ 32) (hardwareConcurrency : ℕ) :
    getDefaultThreadCount hardwareConcurrency (treeOf cpus) =
      (treeOf cpus).cores.length := by
  rw [← Nat.mod_eq_of_lt ((length_cores_le cpus).trans_lt hcount)]
  exact getDefaultThreadCount_eq _ (numaNodes_treeOf_ne_nil hne)

/-- The threads below the default thread count ask for the first CPU of each
core, one thread for one core. -/
theorem pinsEach_take_map_osId {cpus : List CpuEntry} (hne : cpus ≠ [])
    (hcount : cpus.length < 2 ^ 32) (hdistinct : (cpus.map (·.cpu)).Nodup)
    (hardwareConcurrency : ℕ) :
    PinsEach (fun threadId => (((createMappingNuma (treeOf cpus)).take
        (getDefaultThreadCount hardwareConcurrency (treeOf cpus))).map
          (·.osId))[threadId]?)
      ((coreKeys cpus).filterMap (firstCpu cpus)) := by
  have hperm := take_map_osId_perm hne hcount hardwareConcurrency
  refine pinsEach_getElem? hperm ?_
  rw [← hperm.nodup_iff, List.map_take]
  exact ((map_osId_mapping_perm (.inl rfl)).nodup_iff.mpr hdistinct).sublist
    (List.take_sublist _ _)

/-- With the default thread count the NUMA mapping pins one thread to each
physical core: the count is the number of different node, L3 and core ids, each
thread below it asks for a CPU of the enumeration, and for each CPU exactly one
of these threads asks for a CPU of the same core. -/
theorem assignThread_defaultThreadCount {fs : Sysfs} {cpus : List CpuEntry}
    {tree : TopologyTree} (henum : enumerate fs = some cpus)
    (htree : buildTopoTree fs = some tree)
    (hdistinct : (cpus.map (·.cpu)).Nodup) (hne : cpus ≠ [])
    (hcount : cpus.length < 2 ^ 32) (hcpus : ∀ e ∈ cpus, e.cpu < 1024)
    (hardwareConcurrency : ℕ) :
    let threadCount := getDefaultThreadCount hardwareConcurrency tree
    let threadManager : ThreadingManager :=
      ⟨threadCount, createMappingNuma tree⟩
    threadCount = (cpus.map (·.key)).toFinset.card ∧
      (∀ threadId < threadCount, ∃ e ∈ cpus, ∃ cpuset,
        assignThread threadManager threadId = some cpuset ∧
          ∀ cpu, cpuset.getLsbD cpu = true ↔ cpu = e.cpu) ∧
      ∀ e ∈ cpus, ∃! threadId, threadId < threadCount ∧
        ∃ d ∈ cpus, d.key = e.key ∧ ∃ cpuset,
          assignThread threadManager threadId = some cpuset ∧
            cpuset.getLsbD d.cpu = true := by
  intro threadCount threadManager
  obtain rfl : treeOf cpus = tree :=
    Option.some.inj ((buildTopoTree_of_enumerate henum).symm.trans htree)
  have hcores : threadCount = (treeOf cpus).cores.length :=
    getDefaultThreadCount_treeOf hne hcount hardwareConcurrency
  let osIds := (createMappingNuma (treeOf cpus)).map (·.osId)
  have hpins := pinsEach_take_map_osId hne hcount hdistinct hardwareConcurrency
  have hget (threadId : ℕ) (hlt : threadId < threadCount) :
      (((createMappingNuma (treeOf cpus)).take threadCount).map
        (·.osId))[threadId]? = osIds[threadId]? := by
    rw [List.map_take, List.getElem?_take_of_lt hlt]
  refine ⟨hcores.trans (length_cores_eq cpus), ?_, ?_⟩
  · intro threadId hlt
    have hsome := mt (hpins.eq_none_iff threadId).mp
      (by rw [length_filterMap_firstCpu, ← hcores]; exact Nat.not_le_of_lt hlt)
    obtain ⟨osId, hosId⟩ := Option.ne_none_iff_exists'.mp hsome
    obtain ⟨d, hd, rfl, -⟩ :=
      exists_of_mem_filterMap_firstCpu (hpins.mem threadId osId hosId)
    rw [hget threadId hlt] at hosId
    refine ⟨d, hd, setCpu d.cpu 0#1024, ?_, ?_⟩
    · rw [assignThread_eq]
      exact Option.map_eq_some_iff.mpr ⟨d.cpu, hosId, rfl⟩
    · intro cpu
      rw [getLsbD_setCpu_zero]
      exact ⟨fun h => h.1, fun h => ⟨h, h ▸ hcpus d hd⟩⟩
  · intro e he
    obtain ⟨cpu, hfirst⟩ :=
      Option.isSome_iff_exists.mp (firstCpu_isSome (mem_coreKeys_iff.mpr ⟨e, he, rfl⟩))
    have htarget : cpu ∈ (coreKeys cpus).filterMap (firstCpu cpus) :=
      List.mem_filterMap.mpr ⟨e.key, mem_coreKeys_iff.mpr ⟨e, he, rfl⟩, hfirst⟩
    obtain ⟨threadId, hpin, hunique⟩ := hpins.existsUnique cpu htarget
    obtain ⟨d, hd, rfl, hfirst'⟩ := exists_of_mem_filterMap_firstCpu htarget
    refine ⟨threadId, ⟨?_, d, hd, ?_, ?_⟩, ?_⟩
    · by_contra hge
      have hnone := (hpins.eq_none_iff threadId).mpr
        (by rw [length_filterMap_firstCpu, ← hcores]; exact Nat.le_of_not_lt hge)
      exact absurd (hpin.symm.trans hnone) (by simp)
    · exact eq_key_of_firstCpu hdistinct hd hfirst
    · rw [exists_assignThread_iff (hcpus d hd)]
      rw [List.map_take, List.getElem?_take] at hpin
      split at hpin
      next => exact hpin
      next => exact absurd hpin (by simp)
    · rintro id ⟨hlt, d', hd', hkey, hset⟩
      rw [exists_assignThread_iff (hcpus d' hd')] at hset
      have hpin' := (hget id hlt).trans hset
      obtain ⟨d'', hd'', hcpu, hfirst''⟩ :=
        exists_of_mem_filterMap_firstCpu (hpins.mem id d'.cpu hpin')
      obtain rfl := List.inj_on_of_nodup_map hdistinct hd'' hd' hcpu
      -- both are the first CPU of the core of `e`
      rw [hkey, hfirst, Option.some.injEq] at hfirst''
      rw [← hfirst''] at hpin'
      exact hunique id hpin'

theorem assignThread_defaultThreadCount_hybrid :
    getDefaultThreadCount 3 (treeOf hybridCpus) = 2 ∧
      ∃! threadId, threadId < getDefaultThreadCount 3 (treeOf hybridCpus) ∧
        ∃ d ∈ hybridCpus, d.key = (0, 0, 0) ∧ ∃ cpuset,
          assignThread ⟨getDefaultThreadCount 3 (treeOf hybridCpus),
              createMappingNuma (treeOf hybridCpus)⟩ threadId =
            some cpuset ∧ cpuset.getLsbD d.cpu = true := by
  have henum : enumerate (sysfsOf hybridCpus) = some hybridCpus := by decide
  have hspec := assignThread_defaultThreadCount henum
    (buildTopoTree_of_enumerate henum) (by decide) (by decide) (by decide)
    (by decide) 3
  exact ⟨hspec.1.trans (by decide), hspec.2.2 ⟨1, 1024, 0, some 0, some 0⟩ (by decide)⟩

end Linux

/-! ## Windows -/

namespace Windows

/-- `assign_thread`: the affinity of the call `SetThreadGroupAffinity`, `none`
if there is no call. -/
def assignThread (threadManager : ThreadingManager) (threadId : ℕ) :
    Option GroupAffinity :=
  if h : threadId < threadManager.threadMapping.length then
    let lp := threadManager.threadMapping[threadId]
    some { mask := 1#64 <<< lp.osId, group := lp.groupId }
  else
    none

/-- The processors of all core records. -/
def coreProcessors (records : List Information) : List Processor :=
  (coreRecords records).flatMap fun r => r.2.flatMap (·.processors)

theorem assignThread_eq (threadManager : ThreadingManager) (threadId : ℕ) :
    assignThread threadManager threadId =
      (threadManager.threadMapping.map fun lp =>
          (lp.groupId, lp.osId))[threadId]?.map
        fun p => { mask := 1#64 <<< p.2, group := p.1 } := by
  rw [assignThread, List.getElem?_map]
  split
  next h => rw [List.getElem?_eq_getElem h]; rfl
  next h => rw [List.getElem?_eq_none (Nat.le_of_not_lt h)]; rfl

theorem mem_processors_iff {gm : GroupAffinity} {p : Processor} :
    p ∈ gm.processors ↔
      p.1 = gm.group ∧ p.2 < 64 ∧ gm.mask.getLsbD p.2 = true := by
  obtain ⟨group, b⟩ := p
  simp only [GroupAffinity.processors, List.mem_map, List.mem_filter,
    List.mem_range, Prod.mk.injEq]
  constructor
  · intro h
    obtain ⟨i, ⟨hlt, hbit⟩, rfl, rfl⟩ := h
    exact ⟨rfl, hlt, hbit⟩
  · intro h
    obtain ⟨rfl, hlt, hbit⟩ := h
    exact ⟨b, ⟨hlt, hbit⟩, rfl, rfl⟩

/-- The affinity that `assign_thread` builds has the processor only. -/
theorem mem_processors_shiftLeft_iff {p q : Processor} (hp : p.2 < 64) :
    q ∈ GroupAffinity.processors ⟨1#64 <<< p.2, p.1⟩ ↔ q = p := by
  rw [mem_processors_iff, BitVec.getLsbD_shiftLeft, BitVec.getLsbD_one,
    Prod.ext_iff]
  simp only [Bool.and_eq_true, decide_eq_true_eq, Bool.not_eq_true',
    decide_eq_false_iff_not]
  omega

theorem lt_of_mem_coreProcessors {records : List Information} {p : Processor}
    (hp : p ∈ coreProcessors records) : p.2 < 64 := by
  obtain ⟨r, -, hp⟩ := List.mem_flatMap.mp hp
  obtain ⟨gm, -, hp⟩ := List.mem_flatMap.mp hp
  exact (mem_processors_iff.mp hp).2.1

theorem perfLevel_lt_of_mem_cores {records : List Information} {core : Core}
    (hcore : core ∈ (buildTopoTree (some records)).cores) :
    core.perfLevel < (buildTopoTree (some records)).perfLevelCount := by
  have hmem := (cores_buildTopoTree_perm records).mem_iff.mp hcore
  obtain ⟨e, he, rfl⟩ := List.mem_map.mp hmem
  have hclass : e.efficiencyClass ∈ efficiencyClasses records := by
    rw [← map_efficiencyClass_coreEntries 0]
    exact List.mem_map_of_mem he
  rw [buildTopoTree_eq, size_tiers]
  exact (getD_tiers hclass).trans_lt (Rank.rank_lt_length hclass)

theorem map_processor_threadsOf (coreId : ℕ) (groupMask : List GroupAffinity) :
    (threadsOf coreId groupMask).map (fun lp => (lp.groupId, lp.osId)) =
      groupMask.flatMap (·.processors) := by
  apply List.ext_getElem?
  intro i
  simp only [threadsOf, List.getElem?_map, List.getElem?_mapIdx,
    Option.map_map, Function.comp_def, Prod.mk.eta, Option.map_id']

theorem map_processor_cores (records : List Information) :
    (((coreRecords records).mapIdx (coreOf records)).flatMap
        (·.threads)).map (fun lp => (lp.groupId, lp.osId)) =
      coreProcessors records := by
  rw [List.map_flatMap, coreProcessors, List.flatMap_def, List.flatMap_def]
  congr 1
  apply List.ext_getElem?
  intro i
  simp only [List.getElem?_map, List.getElem?_mapIdx, Option.map_map,
    Function.comp_def, coreOf, map_processor_threadsOf]

/-- The processors of a mapping of the tree. -/
theorem map_processor_mapping_perm {records : List Information}
    {mapping : List LogicalProcessor}
    (hmapping : mapping = createMappingNuma (buildTopoTree (some records)) ∨
      mapping = createMappingPhte (buildTopoTree (some records))) :
    (mapping.map fun lp => (lp.groupId, lp.osId)).Perm
      (coreProcessors records) := by
  have hperm := (mapping_perm_activeProcessors hmapping).map
    fun lp => (lp.groupId, lp.osId)
  rw [TopologyTree.activeProcessors_eq fun c hc =>
    perfLevel_lt_of_mem_cores hc] at hperm
  have hcores := cores_buildTopoTree_perm records
  rw [map_rankedCore_coreEntries] at hcores
  rw [← map_processor_cores]
  exact hperm.trans ((hcores.flatMap_right _).map _)

/-- If no processor is in two core records, or twice in one, the thread ids
below the number of processors ask for one processor of a core record each and
the others for none, and each processor is asked for by exactly one thread. -/
theorem assignThread_pinsProcessors (records : List Information)
    (hdistinct : (coreProcessors records).Nodup) (threadCount : ℕ)
    (mapping : List LogicalProcessor)
    (hmapping : mapping = createMappingNuma (buildTopoTree (some records)) ∨
      mapping = createMappingPhte (buildTopoTree (some records))) :
    let threadManager : ThreadingManager := ⟨threadCount, mapping⟩
    (∀ threadId, assignThread threadManager threadId = none ↔
        (coreProcessors records).length ≤ threadId) ∧
      (∀ threadId affinity,
        assignThread threadManager threadId = some affinity →
          ∃ p ∈ coreProcessors records, ∀ q, q ∈ affinity.processors ↔ q = p) ∧
      ∀ p ∈ coreProcessors records, ∃! threadId, ∃ affinity,
        assignThread threadManager threadId = some affinity ∧
          p ∈ affinity.processors := by
  intro threadManager
  have hpins := pinsEach_getElem? (map_processor_mapping_perm hmapping) hdistinct
  have hasks {threadId : ℕ} {affinity : GroupAffinity}
      (h : assignThread threadManager threadId = some affinity) :
      ∃ p ∈ coreProcessors records,
        (mapping.map fun lp => (lp.groupId, lp.osId))[threadId]? = some p ∧
          ∀ q, q ∈ affinity.processors ↔ q = p := by
    rw [assignThread_eq] at h
    obtain ⟨p, hp, rfl⟩ := Option.map_eq_some_iff.mp h
    have hmem := hpins.mem threadId p hp
    exact ⟨p, hmem, hp, fun q =>
      mem_processors_shiftLeft_iff (lt_of_mem_coreProcessors hmem)⟩
  refine ⟨?_, ?_, ?_⟩
  · intro threadId
    rw [assignThread_eq, Option.map_eq_none_iff]
    exact hpins.eq_none_iff threadId
  · intro threadId affinity h
    obtain ⟨p, hp, -, hall⟩ := hasks h
    exact ⟨p, hp, hall⟩
  · intro p hp
    obtain ⟨threadId, hpin, hunique⟩ := hpins.existsUnique p hp
    refine ⟨threadId, ⟨_, ?_, (mem_processors_shiftLeft_iff
      (lt_of_mem_coreProcessors hp)).mpr rfl⟩, ?_⟩
    · rw [assignThread_eq]
      exact Option.map_eq_some_iff.mpr ⟨p, hpin, rfl⟩
    · rintro id ⟨affinity, hset, hmem⟩
      obtain ⟨q, -, hget, hall⟩ := hasks hset
      rw [(hall p).mp hmem] at hunique
      exact hunique id hget

/-- Two cores in two processor groups, the first with two threads. -/
def twoGroupRecords : List Information :=
  [.processorCore 1 [⟨0b11#64, 0⟩], .processorCore 0 [⟨0b1#64, 1⟩]]

theorem assignThread_pinsProcessors_twoGroups :
    ∃! threadId, ∃ affinity,
      assignThread ⟨2, createMappingPhte
          (buildTopoTree (some twoGroupRecords))⟩ threadId = some affinity ∧
        (1, 0) ∈ affinity.processors :=
  (assignThread_pinsProcessors twoGroupRecords (by decide) 2 _ (.inr rfl)).2.2
    (1, 0) (by decide)

end Windows

end BenchBox
