import BenchBox.Threading.Linux.Tree
import BenchBox.Threading.Mapping
import Mathlib.Data.Option.Basic

/-!
# Directory order

`directory_iterator` yields the entries of a directory in no particular order.
Nodes, LLC groups and cores come out sorted all the same, but the threads of a
core keep the order in which they were enumerated.  Two enumerations of the same
directories build the same tree exactly when that order agrees in every core.
-/

namespace BenchBox
namespace Linux

open NestedMap PartialLoop

/-- Two file systems that differ only in the order of directory entries. -/
structure Reordered (fs fs' : Sysfs) : Prop where
  file : fs.file = fs'.file
  entries : ∀ path, Option.Rel List.Perm (fs.entries path) (fs'.entries path)

/-- Under every key the same CPUs come in the same order, and the last one has
the same capacity. -/
def SameOrder (cpus cpus' : List CpuEntry) : Prop :=
  ∀ k, (cpusAt cpus k).map (·.cpu) = (cpusAt cpus' k).map (·.cpu) ∧
    (cpusAt cpus k).getLast?.map (·.capacity) =
      (cpusAt cpus' k).getLast?.map (·.capacity)

/-- Only keys in use matter. -/
theorem sameOrder_iff_forall_mem {cpus cpus' : List CpuEntry} :
    SameOrder cpus cpus' ↔
      ∀ e ∈ cpus ++ cpus',
        (cpusAt cpus e.key).map (·.cpu) = (cpusAt cpus' e.key).map (·.cpu) ∧
          (cpusAt cpus e.key).getLast?.map (·.capacity) =
            (cpusAt cpus' e.key).getLast?.map (·.capacity) := by
  constructor
  · exact fun h e _ => h e.key
  · intro h k
    by_cases hk : ∃ e ∈ cpus ++ cpus', e.key = k
    · obtain ⟨e, he, rfl⟩ := hk
      exact h e he
    · have hnil : ∀ xs, (∀ e ∈ xs, e ∈ cpus ++ cpus') → cpusAt xs k = [] := by
        intro xs hxs
        rw [cpusAt, List.filter_eq_nil_iff]
        intro e he hkey
        exact hk ⟨e, hxs e he, of_decide_eq_true hkey⟩
      rw [hnil cpus fun e => List.mem_append_left _,
        hnil cpus' fun e => List.mem_append_right _]
      exact ⟨rfl, rfl⟩

instance (cpus cpus' : List CpuEntry) : Decidable (SameOrder cpus cpus') :=
  decidable_of_iff _ sameOrder_iff_forall_mem.symm

/-- What is enumerated, apart from the ids, is the same up to order. -/
theorem enumerate_perm_of_reordered {fs fs' : Sysfs} (h : Reordered fs fs')
    {cpus cpus' : List CpuEntry} (henum : enumerate fs = some cpus)
    (henum' : enumerate fs' = some cpus') :
    (cpus.map fun e => (e.cpu, e.capacity)).Perm
      (cpus'.map fun e => (e.cpu, e.capacity)) := by
  obtain ⟨names, hnames, hcpus⟩ := Option.bind_eq_some_iff.mp henum
  obtain ⟨names', hnames', hcpus'⟩ := Option.bind_eq_some_iff.mp henum'
  have hperm : names.Perm names' := by
    have hrel := h.entries []
    rw [hnames, hnames'] at hrel
    exact Option.rel_some_some.mp hrel
  have hread : cpuEntries fs = cpuEntries fs' := by
    funext names
    simp only [cpuEntries, readU32, h.file]
  rw [map_of_mapM (fun _ _ => eq_of_readCpu) hcpus,
    map_of_mapM (fun _ _ => eq_of_readCpu) hcpus', ← hread]
  exact hperm.filterMap _

/-- A core is determined by its id, its CPU numbers and its perf level. -/
theorem coreOf_congr {tier tier' : ℕ → ℕ} {coreId : ℕ}
    {cpus cpus' : List CpuEntry}
    (hcpu : cpus.map (·.cpu) = cpus'.map (·.cpu))
    (hlevel : (coreOf tier coreId cpus).perfLevel =
      (coreOf tier' coreId cpus').perfLevel) :
    coreOf tier coreId cpus = coreOf tier' coreId cpus' := by
  have hthreads : (coreOf tier coreId cpus).threads =
      (coreOf tier' coreId cpus').threads := by
    apply List.ext_getElem?
    intro i
    have hget := congrArg (·[i]?.map fun cpu =>
      LogicalProcessor.mk i coreId cpu 0) hcpu
    simpa [coreOf, Function.comp_def] using hget
  rw [Core.mk.injEq]
  exact ⟨rfl, hlevel, hthreads⟩

section Trees

variable {cpus cpus' : List CpuEntry}
  (hcapacities : (cpus.map (·.capacity)).Perm (cpus'.map (·.capacity)))

include hcapacities

theorem perfLevelCount_treeOf_congr :
    (treeOf cpus).perfLevelCount = (treeOf cpus').perfLevelCount := by
  rw [treeOf, treeOf, Rank.length_descending, Rank.length_descending,
    List.toFinset_eq_of_perm _ _ hcapacities]

/-- With the same order under every key the trees are equal. -/
theorem treeOf_congr (horder : SameOrder cpus cpus') :
    treeOf cpus = treeOf cpus' := by
  have hlookup : ∀ k, lookup (topoOf cpus) k = lookup (topoOf cpus') k := by
    intro k
    obtain ⟨hcpu, hlast⟩ := horder k
    rw [lookup_topoOf, lookup_topoOf]
    by_cases hne : cpusAt cpus k = []
    · have hne' : cpusAt cpus' k = [] := by
        rw [hne, List.map_nil] at hcpu
        exact List.map_eq_nil_iff.mp hcpu.symm
      rw [if_pos hne, if_pos hne']
    · have hne' : cpusAt cpus' k ≠ [] := by
        intro hnil
        rw [hnil, List.map_nil] at hcpu
        exact hne (List.map_eq_nil_iff.mp hcpu)
      obtain ⟨e, -, -, he, hlevel⟩ := exists_perfLevel_coreOf hne k.2.2
      obtain ⟨e', -, -, he', hlevel'⟩ := exists_perfLevel_coreOf hne' k.2.2
      rw [he, he', Option.map_some, Option.map_some, Option.some.injEq] at hlast
      rw [if_neg hne, if_neg hne', coreOf_congr hcpu]
      rw [hlevel, hlevel', hlast, Rank.rank_congr_of_perm hcapacities]
  have hnodes : flattenTopo (topoOf cpus) = flattenTopo (topoOf cpus') :=
    flatten_congr (noEmpty_collect _ _ _ _) (noEmpty_collect _ _ _ _) hlookup
  have hcount := perfLevelCount_treeOf_congr hcapacities
  simp only [treeOf] at hcount ⊢
  rw [hnodes, hcount]

/-- A core of equal trees is made of the same CPUs in the same order. -/
theorem sameOrder_at_of_treeOf_eq (htree : treeOf cpus = treeOf cpus')
    {k : ℕ × ℕ × ℕ} (hne : cpusAt cpus k ≠ []) :
    cpusAt cpus' k ≠ [] ∧
      (cpusAt cpus k).map (·.cpu) = (cpusAt cpus' k).map (·.cpu) ∧
      (cpusAt cpus k).getLast?.map (·.capacity) =
        (cpusAt cpus' k).getLast?.map (·.capacity) := by
  obtain ⟨nodeId, llcId, coreId⟩ := k
  have hholds : (treeOf cpus).Holds nodeId llcId
      (coreOf (tier cpus) coreId (cpusAt cpus (nodeId, llcId, coreId))) :=
    holds_treeOf_iff.mpr ⟨coreId, hne, rfl⟩
  rw [htree] at hholds
  obtain ⟨coreId', hne', heq⟩ := holds_treeOf_iff.mp hholds
  obtain rfl : coreId = coreId' := congrArg Core.coreId heq
  refine ⟨hne', ?_, ?_⟩
  · rw [← map_osId_coreOf (tier cpus) coreId,
      ← map_osId_coreOf (tier cpus') coreId, heq]
  · obtain ⟨e, he, -, hlast, hlevel⟩ := exists_perfLevel_coreOf hne coreId
    obtain ⟨e', he', -, hlast', hlevel'⟩ := exists_perfLevel_coreOf hne' coreId
    rw [heq, hlevel', ← Rank.rank_congr_of_perm hcapacities] at hlevel
    have hmem' : e'.capacity ∈ cpus.map (·.capacity) :=
      hcapacities.mem_iff.mpr (List.mem_map_of_mem he')
    have hcapacity := Rank.eq_of_rank_eq hmem' (List.mem_map_of_mem he) hlevel
    rw [hlast, hlast', Option.map_some, Option.map_some, hcapacity]

theorem treeOf_eq_iff : treeOf cpus = treeOf cpus' ↔ SameOrder cpus cpus' := by
  refine ⟨?_, treeOf_congr hcapacities⟩
  intro htree k
  by_cases hne : cpusAt cpus k = []
  · by_cases hne' : cpusAt cpus' k = []
    · rw [hne, hne']
      exact ⟨rfl, rfl⟩
    · obtain ⟨hne, -⟩ :=
        sameOrder_at_of_treeOf_eq hcapacities.symm htree.symm hne'
      contradiction
  · exact (sameOrder_at_of_treeOf_eq hcapacities htree hne).2

end Trees

/-- Reordering directory entries keeps the built tree, and with it the mappings,
exactly when it keeps the order of the CPUs under every key. -/
theorem buildTopoTree_eq_iff_of_reordered {fs fs' : Sysfs}
    (h : Reordered fs fs') {cpus cpus' : List CpuEntry}
    (henum : enumerate fs = some cpus) (henum' : enumerate fs' = some cpus') :
    ∃ tree tree', buildTopoTree fs = some tree ∧
      buildTopoTree fs' = some tree' ∧
      (tree = tree' ∧ createMappingNuma tree = createMappingNuma tree' ∧
        createMappingPhte tree = createMappingPhte tree' ↔
          SameOrder cpus cpus') := by
  have hcapacities : (cpus.map (·.capacity)).Perm
      (cpus'.map (·.capacity)) := by
    have hperm := (enumerate_perm_of_reordered h henum henum').map Prod.snd
    simpa only [List.map_map, Function.comp_def] using hperm
  refine ⟨treeOf cpus, treeOf cpus', buildTopoTree_of_enumerate henum,
    buildTopoTree_of_enumerate henum', ?_⟩
  rw [← treeOf_eq_iff hcapacities]
  constructor
  · exact fun heq => heq.1
  · intro heq
    rw [heq]
    exact ⟨rfl, rfl, rfl⟩

/-- A file system whose CPU directory lists the given entries. -/
def Sysfs.listing (fs : Sysfs) (names : List StringView) : Sysfs where
  entries path := if path = [] then some names else fs.entries path
  file := fs.file

theorem reordered_listing {fs : Sysfs} {names : List StringView}
    (names' : List StringView) (hnames : fs.entries [] = some names)
    (h : names.Perm names') :
    Reordered fs (fs.listing names') where
  file := rfl
  entries := by
    intro path
    rw [Sysfs.listing]
    dsimp only
    split
    next hpath =>
      rw [hpath, hnames]
      exact Option.Rel.some h
    next =>
      cases fs.entries path with
      | none => exact Option.Rel.none
      | some entries => exact Option.Rel.some (List.Perm.refl entries)

/-- Moving the small core of the example to the end changes nothing. -/
theorem buildTopoTree_eq_iff_of_reordered_hybrid :
    ∃ tree, buildTopoTree (sysfsOf hybridCpus) = some tree ∧
      buildTopoTree ((sysfsOf hybridCpus).listing
        [cpuDir 0, cpuDir 1, cpuDir 2]) = some tree := by
  obtain ⟨tree, tree', htree, htree', hiff⟩ :=
    buildTopoTree_eq_iff_of_reordered
      (reordered_listing [cpuDir 0, cpuDir 1, cpuDir 2] rfl (by decide))
      (show enumerate (sysfsOf hybridCpus) = some hybridCpus by decide)
      (show _ = some [⟨0, 1024, 0, some 0, some 0⟩,
        ⟨1, 1024, 0, some 0, some 0⟩, ⟨2, 512, 0, none, some 1⟩] by decide)
  obtain ⟨rfl, -⟩ := hiff.mpr (by decide)
  exact ⟨tree, htree, htree'⟩

/-- The two threads of a core. -/
def siblingCpus : List CpuEntry :=
  [⟨0, 1024, 0, some 0, some 0⟩, ⟨1, 1024, 0, some 0, some 0⟩]

/-- Listed the other way round the threads of a core change places. -/
theorem buildTopoTree_ne_of_reordered_siblings :
    Reordered (sysfsOf siblingCpus)
        ((sysfsOf siblingCpus).listing [cpuDir 1, cpuDir 0]) ∧
      buildTopoTree (sysfsOf siblingCpus) ≠
        buildTopoTree
          ((sysfsOf siblingCpus).listing [cpuDir 1, cpuDir 0]) ∧
      (buildTopoTree (sysfsOf siblingCpus)).map (fun tree =>
          (createMappingNuma tree).map (·.osId)) = some [0, 1] ∧
      (buildTopoTree ((sysfsOf siblingCpus).listing
          [cpuDir 1, cpuDir 0])).map (fun tree =>
            (createMappingNuma tree).map (·.osId)) = some [1, 0] :=
  ⟨reordered_listing _ rfl (List.Perm.swap _ _ _), by decide, by decide,
    by decide⟩

end Linux
end BenchBox
