import BenchBox.Support.NestedMap
import BenchBox.Threading.Topology
import Mathlib.Data.List.Pairwise

/-!
# From a map of cores to a tree

Two of the topology builders collect their cores in a map keyed by NUMA node,
LLC group and core id and then move it into the tree in key order.  The tree
holds a core exactly where the map does, and it is ordered by the ids.
-/

namespace BenchBox

open Std NestedMap

/-- `std::map<uint32_t, std::map<uint32_t, std::map<uint32_t, core>>>`. -/
abbrev CoreMap := NestedMap ℕ Core

/-- The loops that move a map of cores into the nodes of a tree. -/
def flattenTopo (topo : CoreMap) : List NumaNode :=
  flatten NumaNode.mk LlcGroup.mk (fun _ c => c) topo

namespace TopologyTree

/-- Ids ascend strictly, and no node and no LLC group is empty. -/
structure Ordered (tree : TopologyTree) : Prop where
  nodes : tree.numaNodes.Pairwise fun a b => a.nodeId < b.nodeId
  llcGroups : ∀ node ∈ tree.numaNodes,
    node.llcGroups.Pairwise fun a b => a.llcId < b.llcId
  cores : ∀ node ∈ tree.numaNodes, ∀ llc ∈ node.llcGroups,
    llc.cores.Pairwise fun a b => a.coreId < b.coreId
  llcGroups_ne_nil : ∀ node ∈ tree.numaNodes, node.llcGroups ≠ []
  cores_ne_nil : ∀ node ∈ tree.numaNodes, ∀ llc ∈ node.llcGroups,
    llc.cores ≠ []

/-- The cores with the ids of their node, their LLC group and their own. -/
def keyedCores (tree : TopologyTree) : List ((ℕ × ℕ × ℕ) × Core) :=
  tree.numaNodes.flatMap fun node =>
    node.llcGroups.flatMap fun llc =>
      llc.cores.map fun c => ((node.nodeId, llc.llcId, c.coreId), c)

theorem map_snd_keyedCores (tree : TopologyTree) :
    tree.keyedCores.map Prod.snd = tree.cores := by
  simp [keyedCores, TopologyTree.cores, List.map_flatMap, Function.comp_def]

theorem mem_keyedCores_iff {tree : TopologyTree} {k : ℕ × ℕ × ℕ}
    {core : Core} :
    (k, core) ∈ tree.keyedCores ↔
      tree.Holds k.1 k.2.1 core ∧ core.coreId = k.2.2 := by
  obtain ⟨nodeId, llcId, coreId⟩ := k
  simp only [keyedCores, List.mem_flatMap, List.mem_map, Prod.mk.injEq, Holds]
  constructor
  · intro h
    rcases h with ⟨node, hnode, llc, hllc, c, hc, ⟨rfl, rfl, rfl⟩, rfl⟩
    exact ⟨⟨node, hnode, rfl, llc, hllc, rfl, hc⟩, rfl⟩
  · intro h
    rcases h with ⟨⟨node, hnode, rfl, llc, hllc, rfl, hc⟩, rfl⟩
    exact ⟨node, hnode, llc, hllc, core, hc, ⟨rfl, rfl, rfl⟩, rfl⟩

/-- In an ordered tree the three ids identify a core. -/
theorem Ordered.nodup_keys {tree : TopologyTree} (h : tree.Ordered) :
    (tree.keyedCores.map Prod.fst).Nodup := by
  rw [List.Nodup, List.pairwise_map, keyedCores, List.pairwise_flatMap]
  constructor
  · intro node hnode
    rw [List.pairwise_flatMap]
    constructor
    · intro llc hllc
      rw [List.pairwise_map]
      exact (h.cores node hnode llc hllc).imp fun hlt heq => by
        simp only [Prod.mk.injEq] at heq
        omega
    · apply (h.llcGroups node hnode).imp
      intro a b hlt x hx y hy
      obtain ⟨c, -, rfl⟩ := List.mem_map.mp hx
      obtain ⟨d, -, rfl⟩ := List.mem_map.mp hy
      simp only [ne_eq, Prod.mk.injEq]
      omega
  · apply h.nodes.imp
    intro a b hlt x hx y hy
    obtain ⟨_, -, hx⟩ := List.mem_flatMap.mp hx
    obtain ⟨_, -, hy⟩ := List.mem_flatMap.mp hy
    obtain ⟨c, -, rfl⟩ := List.mem_map.mp hx
    obtain ⟨d, -, rfl⟩ := List.mem_map.mp hy
    simp only [ne_eq, Prod.mk.injEq]
    omega

theorem Ordered.eq_of_nodeId_eq {tree : TopologyTree} (h : tree.Ordered)
    {node node' : NumaNode} (hnode : node ∈ tree.numaNodes)
    (hnode' : node' ∈ tree.numaNodes) (hid : node.nodeId = node'.nodeId) :
    node = node' := by
  have hnodup : (tree.numaNodes.map (·.nodeId)).Nodup :=
    List.pairwise_map.mpr (h.nodes.imp fun hlt => Nat.ne_of_lt hlt)
  exact List.inj_on_of_nodup_map hnodup hnode hnode' hid

theorem Ordered.eq_of_llcId_eq {tree : TopologyTree} (h : tree.Ordered)
    {node : NumaNode} (hnode : node ∈ tree.numaNodes) {llc llc' : LlcGroup}
    (hllc : llc ∈ node.llcGroups) (hllc' : llc' ∈ node.llcGroups)
    (hid : llc.llcId = llc'.llcId) : llc = llc' := by
  have hnodup : (node.llcGroups.map (·.llcId)).Nodup :=
    List.pairwise_map.mpr
      ((h.llcGroups node hnode).imp fun hlt => Nat.ne_of_lt hlt)
  exact List.inj_on_of_nodup_map hnodup hllc hllc' hid

/-- In an ordered tree cores with the same node and LLC ids lie in one LLC
group. -/
theorem Ordered.exists_group {tree : TopologyTree} (h : tree.Ordered)
    {nodeId llcId : ℕ} {core core' : Core}
    (hcore : tree.Holds nodeId llcId core)
    (hcore' : tree.Holds nodeId llcId core') :
    ∃ node ∈ tree.numaNodes, node.nodeId = nodeId ∧
      ∃ llc ∈ node.llcGroups, core ∈ llc.cores ∧ core' ∈ llc.cores := by
  obtain ⟨node, hnode, hnodeId, llc, hllc, hllcId, hmem⟩ := hcore
  obtain ⟨node', hnode', hnodeId', llc', hllc', hllcId', hmem'⟩ := hcore'
  obtain rfl := h.eq_of_nodeId_eq hnode hnode' (hnodeId.trans hnodeId'.symm)
  obtain rfl := h.eq_of_llcId_eq hnode hllc hllc' (hllcId.trans hllcId'.symm)
  exact ⟨node, hnode, hnodeId, llc, hllc, hmem, hmem'⟩

end TopologyTree

/-! ## The flattened tree -/

/-- The cores of one inner map. -/
def flattenCores (cores : TreeMap ℕ Core) : List Core :=
  mapEntries (fun _ c => c) cores

/-- The LLC groups of one inner map. -/
def flattenLlcGroups (llcs : TreeMap ℕ (TreeMap ℕ Core)) : List LlcGroup :=
  mapEntries (fun lid cores => ⟨lid, flattenCores cores⟩) llcs

theorem flattenTopo_eq (topo : CoreMap) :
    flattenTopo topo =
      mapEntries (fun nid llcs => ⟨nid, flattenLlcGroups llcs⟩) topo :=
  rfl

theorem mem_flattenCores_iff {cores : TreeMap ℕ Core} {core : Core} :
    core ∈ flattenCores cores ↔ ∃ coreId : ℕ, cores[coreId]? = some core := by
  rw [flattenCores, mem_mapEntries_iff]
  constructor
  · intro h
    rcases h with ⟨coreId, c, hc, rfl⟩
    exact ⟨coreId, hc⟩
  · intro h
    rcases h with ⟨coreId, hc⟩
    exact ⟨coreId, core, hc, rfl⟩

theorem mem_flattenLlcGroups_iff {llcs : TreeMap ℕ (TreeMap ℕ Core)}
    {llc : LlcGroup} :
    llc ∈ flattenLlcGroups llcs ↔
      ∃ cores, llcs[llc.llcId]? = some cores ∧
        llc.cores = flattenCores cores := by
  rw [flattenLlcGroups, mem_mapEntries_iff]
  constructor
  · intro h
    rcases h with ⟨lid, cores, hcores, rfl⟩
    exact ⟨cores, hcores, rfl⟩
  · intro h
    rcases h with ⟨cores, hcores, heq⟩
    exact ⟨llc.llcId, cores, hcores, by rw [← heq]⟩

theorem mem_flattenTopo_iff {topo : CoreMap} {node : NumaNode} :
    node ∈ flattenTopo topo ↔
      ∃ llcs, topo[node.nodeId]? = some llcs ∧
        node.llcGroups = flattenLlcGroups llcs := by
  rw [flattenTopo_eq, mem_mapEntries_iff]
  constructor
  · intro h
    rcases h with ⟨nid, llcs, hllcs, rfl⟩
    exact ⟨llcs, hllcs, rfl⟩
  · intro h
    rcases h with ⟨llcs, hllcs, heq⟩
    exact ⟨node.nodeId, llcs, hllcs, by rw [← heq]⟩

/-- The cores of a group of the flattened map are a row of the map. -/
theorem exists_of_mem_llcGroups_flattenTopo {topo : CoreMap} {node : NumaNode}
    (hnode : node ∈ flattenTopo topo) {llc : LlcGroup}
    (hllc : llc ∈ node.llcGroups) :
    ∃ llcs, topo[node.nodeId]? = some llcs ∧
      ∃ cores, llcs[llc.llcId]? = some cores ∧ llc.cores = flattenCores cores := by
  obtain ⟨llcs, hllcs, hgroups⟩ := mem_flattenTopo_iff.mp hnode
  rw [hgroups] at hllc
  obtain ⟨cores, hcores, hlist⟩ := mem_flattenLlcGroups_iff.mp hllc
  exact ⟨llcs, hllcs, cores, hcores, hlist⟩

/-- The tree holds a core where the map does. -/
theorem holds_flattenTopo_iff {topo : CoreMap} {perfLevelCount nodeId llcId : ℕ}
    {core : Core} :
    TopologyTree.Holds ⟨flattenTopo topo, perfLevelCount⟩ nodeId llcId core ↔
      ∃ coreId, lookup topo (nodeId, llcId, coreId) = some core := by
  simp only [TopologyTree.Holds, lookup_eq_some_iff]
  constructor
  · intro h
    rcases h with ⟨node, hnode, rfl, llc, hllc, rfl, hcore⟩
    obtain ⟨llcs, hllcs, cores, hcores, hlist⟩ :=
      exists_of_mem_llcGroups_flattenTopo hnode hllc
    rw [hlist] at hcore
    obtain ⟨coreId, hget⟩ := mem_flattenCores_iff.mp hcore
    exact ⟨coreId, llcs, hllcs, cores, hcores, hget⟩
  · intro h
    rcases h with ⟨coreId, llcs, hllcs, cores, hcores, hget⟩
    refine ⟨⟨nodeId, flattenLlcGroups llcs⟩,
      mem_flattenTopo_iff.mpr ⟨llcs, hllcs, rfl⟩, rfl,
      ⟨llcId, flattenCores cores⟩,
      mem_flattenLlcGroups_iff.mpr ⟨cores, hcores, rfl⟩, rfl,
      mem_flattenCores_iff.mpr ⟨coreId, hget⟩⟩

/-- The tree of a map without empty entries is ordered, provided each core is
kept under its own id. -/
theorem ordered_flattenTopo {topo : CoreMap} (hne : NoEmpty topo)
    (hid : ∀ k core, lookup topo k = some core → core.coreId = k.2.2)
    (perfLevelCount : ℕ) :
    TopologyTree.Ordered ⟨flattenTopo topo, perfLevelCount⟩ where
  nodes := by
    show (flattenTopo topo).Pairwise _
    rw [flattenTopo_eq]
    exact pairwise_mapEntries fun _ _ _ _ _ _ hlt => Nat.compare_eq_lt.mp hlt
  llcGroups := by
    intro node hnode
    obtain ⟨llcs, -, hgroups⟩ := mem_flattenTopo_iff.mp hnode
    rw [hgroups, flattenLlcGroups]
    exact pairwise_mapEntries fun _ _ _ _ _ _ hlt => Nat.compare_eq_lt.mp hlt
  cores := by
    intro node hnode llc hllc
    obtain ⟨llcs, hllcs, cores, hcores, hlist⟩ :=
      exists_of_mem_llcGroups_flattenTopo hnode hllc
    have hkey {k : ℕ} {c : Core} (hget : cores[k]? = some c) : c.coreId = k :=
      hid (node.nodeId, llc.llcId, k) c
        (lookup_eq_some_iff.mpr ⟨llcs, hllcs, cores, hcores, hget⟩)
    rw [hlist, flattenCores]
    apply pairwise_mapEntries
    intro k k' c c' hc hc' hlt
    rw [hkey hc, hkey hc']
    exact Nat.compare_eq_lt.mp hlt
  llcGroups_ne_nil := by
    intro node hnode
    obtain ⟨llcs, hllcs, hgroups⟩ := mem_flattenTopo_iff.mp hnode
    rw [hgroups]
    exact mapEntries_ne_nil _ (hne _ _ hllcs).1
  cores_ne_nil := by
    intro node hnode llc hllc
    obtain ⟨llcs, hllcs, cores, hcores, hlist⟩ :=
      exists_of_mem_llcGroups_flattenTopo hnode hllc
    rw [hlist]
    exact mapEntries_ne_nil _ ((hne _ _ hllcs).2 _ _ hcores)

end BenchBox
