import BenchBox.Support.StablePartition
import BenchBox.Threading.Linux.Files
import Mathlib.Data.List.Induction

/-!
# The tree of an enumeration

The core under a key is made of the CPUs that read that key, in enumeration
order.  So the tree holds every CPU exactly once, under the ids read for it.
-/

namespace BenchBox
namespace Linux

open NestedMap StablePartition

/-- The CPUs that are kept under a key. -/
def cpusAt (cpus : List CpuEntry) (k : ℕ × ℕ × ℕ) : List CpuEntry :=
  cpus.filter (·.key = k)

/-- The core made of the given CPUs.  Its perf level is that of the last
one. -/
def coreOf (tier : ℕ → ℕ) (coreId : ℕ) (cpus : List CpuEntry) : Core where
  coreId := coreId
  perfLevel := (cpus.getLast?.map fun e => tier e.capacity).getD 0
  threads := cpus.mapIdx fun i e =>
    { threadIndex := i, coreId := coreId, osId := e.cpu }

theorem map_osId_coreOf (tier : ℕ → ℕ) (coreId : ℕ) (cpus : List CpuEntry) :
    (coreOf tier coreId cpus).threads.map (·.osId) = cpus.map (·.cpu) := by
  apply List.ext_getElem?
  intro i
  simp only [coreOf, List.getElem?_map, List.getElem?_mapIdx, Option.map_map,
    Function.comp_def]

theorem threads_coreOf_ne_nil {cpus : List CpuEntry} (h : cpus ≠ [])
    (tier : ℕ → ℕ) (coreId : ℕ) : (coreOf tier coreId cpus).threads ≠ [] := by
  simpa [coreOf] using h

theorem getElem?_threads_coreOf {tier : ℕ → ℕ} {coreId i : ℕ}
    {cpus : List CpuEntry} {lp : LogicalProcessor}
    (h : (coreOf tier coreId cpus).threads[i]? = some lp) :
    lp.threadIndex = i ∧ lp.coreId = coreId := by
  rw [coreOf, List.getElem?_mapIdx, Option.map_eq_some_iff] at h
  obtain ⟨e, -, rfl⟩ := h
  exact ⟨rfl, rfl⟩

/-! ## The core under a key -/

/-- One more CPU of the same core. -/
theorem pushThread_coreOf {tier : ℕ → ℕ} {coreId : ℕ} (cpus : List CpuEntry)
    {e : CpuEntry} (he : e.coreId = coreId) :
    pushThread e.coreId (tier e.capacity) e.cpu (coreOf tier coreId cpus) =
      coreOf tier coreId (cpus ++ [e]) := by
  simp [pushThread, coreOf, he, List.mapIdx_append]

theorem foldl_pushThread_coreOf {tier : ℕ → ℕ} {coreId : ℕ}
    (done rest : List CpuEntry) (hid : ∀ e ∈ rest, e.coreId = coreId) :
    rest.foldl (fun c e => pushThread e.coreId (tier e.capacity) e.cpu c)
        (coreOf tier coreId done) = coreOf tier coreId (done ++ rest) := by
  induction rest generalizing done with
  | nil => simp
  | cons e rest ih =>
      rw [List.foldl_cons, pushThread_coreOf done (hid e List.mem_cons_self),
        ih _ fun d hd => hid d (List.mem_cons_of_mem e hd),
        List.append_assoc, List.singleton_append]

/-- The updates for the CPUs of one core build that core. -/
theorem foldl_pushThread {tier : ℕ → ℕ} {coreId : ℕ} {cpus : List CpuEntry}
    (hne : cpus ≠ []) (hid : ∀ e ∈ cpus, e.coreId = coreId) :
    cpus.foldl (fun c e => pushThread e.coreId (tier e.capacity) e.cpu c) {} =
      coreOf tier coreId cpus := by
  cases cpus with
  | nil => exact absurd rfl hne
  | cons e cpus =>
      -- the first update sets every field but the threads
      have hfirst : pushThread e.coreId (tier e.capacity) e.cpu {} =
          coreOf tier coreId [e] :=
        pushThread_coreOf [] (hid e List.mem_cons_self)
      rw [List.foldl_cons, hfirst, foldl_pushThread_coreOf [e] cpus
        fun d hd => hid d (List.mem_cons_of_mem e hd), List.singleton_append]

/-- The map of cores keeps under a key the core of its CPUs. -/
theorem lookup_topoOf (cpus : List CpuEntry) (k : ℕ × ℕ × ℕ) :
    lookup (topoOf cpus) k =
      if cpusAt cpus k = [] then none
      else some (coreOf (tier cpus) k.2.2 (cpusAt cpus k)) := by
  rw [topoOf, lookup_collect, ← cpusAt]
  split
  next hnil => rfl
  next hne =>
    rw [foldl_pushThread hne]
    intro e he
    rw [← of_decide_eq_true (List.mem_filter.mp he).2]
    rfl

/-- The tree holds exactly the cores of the keys in use. -/
theorem holds_treeOf_iff {cpus : List CpuEntry} {nodeId llcId : ℕ}
    {core : Core} :
    (treeOf cpus).Holds nodeId llcId core ↔
      ∃ coreId, cpusAt cpus (nodeId, llcId, coreId) ≠ [] ∧
        core = coreOf (tier cpus) coreId
          (cpusAt cpus (nodeId, llcId, coreId)) := by
  rw [treeOf, holds_flattenTopo_iff]
  apply exists_congr
  intro coreId
  rw [lookup_topoOf]
  split
  next hnil => simp [hnil]
  next hne => simp [hne, eq_comm]

theorem ordered_treeOf (cpus : List CpuEntry) : (treeOf cpus).Ordered := by
  have hne : NoEmpty (topoOf cpus) := noEmpty_collect _ _ _ _
  apply ordered_flattenTopo hne
  intro k core hlookup
  rw [lookup_topoOf] at hlookup
  split at hlookup
  next => exact absurd hlookup (by simp)
  next =>
    rw [← Option.some.inj hlookup]
    rfl

/-! ## Where a CPU is -/

theorem mem_cpusAt_iff {cpus : List CpuEntry} {k : ℕ × ℕ × ℕ} {e : CpuEntry} :
    e ∈ cpusAt cpus k ↔ e ∈ cpus ∧ e.key = k := by
  simp [cpusAt]

theorem cpusAt_key_ne_nil {cpus : List CpuEntry} {e : CpuEntry}
    (he : e ∈ cpus) : cpusAt cpus e.key ≠ [] :=
  List.ne_nil_of_mem (mem_cpusAt_iff.mpr ⟨he, rfl⟩)

/-- The core that an enumerated CPU is part of. -/
theorem holds_coreOf {cpus : List CpuEntry} {e : CpuEntry} (he : e ∈ cpus) :
    (treeOf cpus).Holds e.nodeId e.llcId
      (coreOf (tier cpus) e.coreId (cpusAt cpus e.key)) :=
  holds_treeOf_iff.mpr ⟨e.coreId, cpusAt_key_ne_nil he, rfl⟩

theorem mem_threads_coreOf_key {cpus : List CpuEntry} {e : CpuEntry}
    (he : e ∈ cpus) (tier : ℕ → ℕ) (coreId : ℕ) :
    e.cpu ∈ (coreOf tier coreId (cpusAt cpus e.key)).threads.map (·.osId) := by
  rw [map_osId_coreOf]
  exact List.mem_map_of_mem (mem_cpusAt_iff.mpr ⟨he, rfl⟩)

theorem coreOf_mem_cores {cpus : List CpuEntry} {e : CpuEntry}
    (he : e ∈ cpus) :
    coreOf (tier cpus) e.coreId (cpusAt cpus e.key) ∈ (treeOf cpus).cores :=
  TopologyTree.mem_cores_iff.mpr ⟨_, _, holds_coreOf he⟩

/-- A logical processor of the tree stands for a CPU read with its ids. -/
theorem exists_of_holds {cpus : List CpuEntry} {nodeId llcId : ℕ} {core : Core}
    (hholds : (treeOf cpus).Holds nodeId llcId core) {cpu : ℕ}
    (hcpu : cpu ∈ core.threads.map (·.osId)) :
    ∃ e ∈ cpus, e.cpu = cpu ∧ e.key = (nodeId, llcId, core.coreId) := by
  obtain ⟨coreId, -, rfl⟩ := holds_treeOf_iff.mp hholds
  rw [map_osId_coreOf] at hcpu
  obtain ⟨e, he, rfl⟩ := List.mem_map.mp hcpu
  obtain ⟨hmem, hkey⟩ := mem_cpusAt_iff.mp he
  exact ⟨e, hmem, rfl, hkey⟩

theorem keyedCores_treeOf {cpus : List CpuEntry} {k : ℕ × ℕ × ℕ} {core : Core}
    (h : (k, core) ∈ (treeOf cpus).keyedCores) :
    core = coreOf (tier cpus) k.2.2 (cpusAt cpus k) := by
  obtain ⟨hholds, hid⟩ := TopologyTree.mem_keyedCores_iff.mp h
  obtain ⟨coreId, -, rfl⟩ := holds_treeOf_iff.mp hholds
  obtain rfl : coreId = k.2.2 := hid
  rfl

/-- The tree loses and repeats no CPU. -/
theorem osIds_treeOf_perm (cpus : List CpuEntry) :
    (((treeOf cpus).cores.flatMap (·.threads)).map (·.osId)).Perm
      (cpus.map (·.cpu)) := by
  let keys := (treeOf cpus).keyedCores.map Prod.fst
  have hcores : ((treeOf cpus).cores.flatMap (·.threads)).map (·.osId) =
      (keys.flatMap (cpusAt cpus)).map (·.cpu) := by
    rw [← TopologyTree.map_snd_keyedCores, List.flatMap_map, List.map_flatMap,
      List.map_flatMap, List.flatMap_map]
    apply List.flatMap_congr
    rintro ⟨k, core⟩ hmem
    dsimp only
    rw [keyedCores_treeOf hmem, map_osId_coreOf]
  have hall : ∀ e ∈ cpus, e.key ∈ keys := fun e he =>
    List.mem_map_of_mem
      (TopologyTree.mem_keyedCores_iff.mpr ⟨holds_coreOf he, rfl⟩)
  have hperm : (keys.flatMap (cpusAt cpus)).Perm cpus :=
    flatMap_filter_perm_self CpuEntry.key (ordered_treeOf cpus).nodup_keys hall
  rw [hcores]
  exact hperm.map _

/-! ## Tiers -/

/-- The tier of an enumerated capacity is its rank. -/
theorem tier_eq_rank {cpus : List CpuEntry} {e : CpuEntry} (he : e ∈ cpus) :
    tier cpus e.capacity =
      Rank.rank (cpus.map (·.capacity)) e.capacity := by
  have hmem : e.capacity ∈ cpus.map (·.capacity) := List.mem_map_of_mem he
  rw [tier, capToTier, Std.TreeMap.getD_eq_getD_getElem?,
    Rank.getElem?_positions (Rank.nodup_descending _),
    if_pos (Rank.mem_descending_iff.mpr hmem), Option.getD_some,
    Rank.idxOf_descending hmem]

/-- The perf level of a core is the tier of the last of its CPUs. -/
theorem exists_perfLevel_coreOf {cpus : List CpuEntry} {k : ℕ × ℕ × ℕ}
    (hne : cpusAt cpus k ≠ []) (coreId : ℕ) :
    ∃ e ∈ cpus, e.key = k ∧ (cpusAt cpus k).getLast? = some e ∧
      (coreOf (tier cpus) coreId (cpusAt cpus k)).perfLevel =
        Rank.rank (cpus.map (·.capacity)) e.capacity := by
  have hlast := List.getLast?_eq_some_getLast hne
  obtain ⟨hmem, hkey⟩ := mem_cpusAt_iff.mp (List.getLast_mem hne)
  refine ⟨_, hmem, hkey, hlast, ?_⟩
  rw [← tier_eq_rank hmem, coreOf, hlast]
  rfl

theorem perfLevel_lt_of_mem_cores {cpus : List CpuEntry} {core : Core}
    (hcore : core ∈ (treeOf cpus).cores) :
    core.perfLevel < (treeOf cpus).perfLevelCount := by
  obtain ⟨nodeId, llcId, hholds⟩ := TopologyTree.mem_cores_iff.mp hcore
  obtain ⟨coreId, hne, rfl⟩ := holds_treeOf_iff.mp hholds
  obtain ⟨e, he, -, -, hlevel⟩ := exists_perfLevel_coreOf hne coreId
  rw [hlevel]
  exact Rank.rank_lt_length (List.mem_map_of_mem he)

/-! ## The built tree -/

/-- If the CPU numbers are distinct, the built tree holds every CPU once, under
the ids read for it.  Its ids ascend, nothing in it is empty, threads are
numbered by position and perf levels are below their count. -/
theorem buildTopoTree_places {fs : Sysfs} {cpus : List CpuEntry}
    (henum : enumerate fs = some cpus)
    (hdistinct : (cpus.map (·.cpu)).Nodup) :
    ∃ tree, buildTopoTree fs = some tree ∧
      ((tree.cores.flatMap (·.threads)).map (·.osId)).Perm
        (cpus.map (·.cpu)) ∧
      ((tree.cores.flatMap (·.threads)).map (·.osId)).Nodup ∧
      (∀ e ∈ cpus, ∃ core, tree.Holds e.nodeId e.llcId core ∧
        core.coreId = e.coreId ∧ ∃ lp ∈ core.threads, lp.osId = e.cpu) ∧
      tree.Ordered ∧
      ∀ core ∈ tree.cores, core.threads ≠ [] ∧
        core.perfLevel < tree.perfLevelCount ∧
        ∀ (i : ℕ) (lp : LogicalProcessor), core.threads[i]? = some lp →
          lp.threadIndex = i ∧ lp.coreId = core.coreId := by
  have hperm := osIds_treeOf_perm cpus
  refine ⟨treeOf cpus, buildTopoTree_of_enumerate henum, hperm,
    hperm.nodup_iff.mpr hdistinct, ?_, ordered_treeOf cpus, ?_⟩
  · intro e he
    refine ⟨_, holds_coreOf he, rfl, ?_⟩
    have hcpu : e.cpu ∈ (coreOf (tier cpus) e.coreId
        (cpusAt cpus e.key)).threads.map (·.osId) := by
      rw [map_osId_coreOf]
      exact List.mem_map_of_mem (mem_cpusAt_iff.mpr ⟨he, rfl⟩)
    exact List.mem_map.mp hcpu
  · intro core hcore
    refine ⟨?_, perfLevel_lt_of_mem_cores hcore, ?_⟩
    · obtain ⟨nodeId, llcId, hholds⟩ := TopologyTree.mem_cores_iff.mp hcore
      obtain ⟨coreId, hne, rfl⟩ := holds_treeOf_iff.mp hholds
      exact threads_coreOf_ne_nil hne _ _
    · intro i lp hlp
      obtain ⟨nodeId, llcId, hholds⟩ := TopologyTree.mem_cores_iff.mp hcore
      obtain ⟨coreId, -, rfl⟩ := holds_treeOf_iff.mp hholds
      exact getElem?_threads_coreOf hlp

/-- A big core with two threads and a small core without an L3, listed out of
order. -/
def hybridCpus : List CpuEntry :=
  [⟨2, 512, 0, none, some 1⟩, ⟨0, 1024, 0, some 0, some 0⟩,
    ⟨1, 1024, 0, some 0, some 0⟩]

theorem buildTopoTree_places_hybrid :
    ∃ tree, buildTopoTree (sysfsOf hybridCpus) = some tree ∧
      ((tree.cores.flatMap (·.threads)).map (·.osId)).Perm [2, 0, 1] := by
  obtain ⟨tree, htree, hperm, -⟩ := buildTopoTree_places
    (show enumerate (sysfsOf hybridCpus) = some hybridCpus by decide)
    (by decide)
  exact ⟨tree, htree, hperm⟩

end Linux
end BenchBox
