import BenchBox.Threading.Placement
import Mathlib.Data.List.Lex

/-!
# The order of the NUMA mapping

The entries of the NUMA mapping ascend under a lexicographic key: the thread
slot, the perf level, the rank of the core among the usable cores of that level
in its LLC group, the index of the LLC group, and the node.
-/

namespace BenchBox

namespace TopologyTree

/-- The cores of an LLC group, given by the positions of its node and its
own. -/
def groupCores (tree : TopologyTree) (node llc : ℕ) : List Core :=
  match tree.numaNodes[node]?.bind (·.llcGroups[llc]?) with
  | none => []
  | some group => group.cores

/-- The number of cores before `c` in its LLC group that have its perf level and
a thread. -/
def rankInGroup (tree : TopologyTree) (c : CoreRef) : ℕ :=
  ((tree.groupCores c.node c.llc).take c.core).countP fun d =>
    d.perfLevel == c.deref.perfLevel && !d.threads.isEmpty

/-- The key of a core within a mapping slot. -/
def coreKey (tree : TopologyTree) (c : CoreRef) : List ℕ :=
  [c.deref.perfLevel, tree.rankInGroup c, c.llc, c.node]

/-- The key of a mapping entry. -/
def placementKey (tree : TopologyTree) (r : ProcessorRef) : List ℕ :=
  r.thread :: tree.coreKey r.core

end TopologyTree

theorem lt_cons_of_lt {a b : ℕ} (h : a < b) (xs ys : List ℕ) :
    a :: xs < b :: ys :=
  List.cons_lt_cons_iff.mpr (Or.inl h)

theorem lt_cons_of_eq {a b : ℕ} (h : a = b) {xs ys : List ℕ} (hlt : xs < ys) :
    a :: xs < b :: ys :=
  List.cons_lt_cons_iff.mpr (Or.inr ⟨h, hlt⟩)

/-! ## LLC groups -/

/-- The rows of the tree ascend by node. -/
theorem pairwise_llcRows (tree : TopologyTree) :
    tree.llcRows.Pairwise fun groups groups' =>
      ∀ group ∈ groups, ∀ group' ∈ groups', ∀ c ∈ group, ∀ c' ∈ group',
        c.node < c'.node := by
  rw [TopologyTree.llcRows, List.pairwise_map]
  have hindex : tree.numaNodes.zipIdx.Pairwise fun a b => a.2 < b.2 := by
    rw [← List.pairwise_map (f := Prod.snd) (R := (· < ·)),
      List.zipIdx_map_snd, ← List.range_eq_range']
    exact List.pairwise_lt_range
  refine hindex.imp ?_
  intro a b hlt group hgroup group' hgroup' c hc c' hc'
  obtain ⟨g, -, rfl⟩ := List.mem_map.mp hgroup
  obtain ⟨g', -, rfl⟩ := List.mem_map.mp hgroup'
  rw [(LlcGroup.mem_coreRefs_iff.mp hc).1, (LlcGroup.mem_coreRefs_iff.mp hc').1]
  exact hlt

/-- An entry of the traversal of the LLC groups lists the cores of a group. -/
theorem mem_column_llcRows_iff {tree : TopologyTree} {l : ℕ}
    {row : List CoreRef} :
    row ∈ Ragged.column tree.llcRows l ↔
      ∃ (n : ℕ) (node : NumaNode) (group : LlcGroup),
        tree.numaNodes[n]? = some node ∧ node.llcGroups[l]? = some group ∧
          row = group.coreRefs n l := by
  have hget (node : NumaNode) (n : ℕ) :
      (node.llcGroups.zipIdx.map fun llc => llc.1.coreRefs n llc.2)[l]? =
        node.llcGroups[l]?.map fun group => group.coreRefs n l := by
    simp [List.getElem?_zipIdx, Function.comp_def]
  simp only [Ragged.mem_column_iff, TopologyTree.llcRows, List.mem_map,
    Prod.exists, List.mem_zipIdx_iff_getElem?]
  constructor
  · intro h
    obtain ⟨_, ⟨node, n, hnode, rfl⟩, hrow⟩ := h
    rw [hget, Option.map_eq_some_iff] at hrow
    obtain ⟨group, hgroup, rfl⟩ := hrow
    exact ⟨n, node, group, hnode, hgroup, rfl⟩
  · intro h
    obtain ⟨n, node, group, hnode, hgroup, rfl⟩ := h
    exact ⟨_, ⟨node, n, hnode, rfl⟩, by rw [hget, hgroup, Option.map_some]⟩

theorem exists_of_mem_columnMajor_llcRows {tree : TopologyTree}
    {row : List CoreRef} (h : row ∈ Ragged.columnMajor tree.llcRows) :
    ∃ (n l : ℕ) (group : LlcGroup), tree.groupCores n l = group.cores ∧
      row = group.coreRefs n l := by
  rw [Ragged.columnMajor, Ragged.columns, List.mem_flatMap] at h
  obtain ⟨l, -, h⟩ := h
  obtain ⟨n, node, group, hnode, hgroup, hrow⟩ :=
    mem_column_llcRows_iff.mp h
  refine ⟨n, l, group, ?_, hrow⟩
  rw [TopologyTree.groupCores, hnode, Option.bind_some, hgroup]

/-- The traversal takes the LLC groups by index and then by node. -/
theorem pairwise_columnMajor_llcRows (tree : TopologyTree) :
    (Ragged.columnMajor tree.llcRows).Pairwise fun row row' =>
      ∀ c ∈ row, ∀ c' ∈ row', [c.llc, c.node] < [c'.llc, c'.node] := by
  have hllc {l : ℕ} {row : List CoreRef}
      (hrow : row ∈ Ragged.column tree.llcRows l) : ∀ c ∈ row, c.llc = l := by
    intro c hc
    obtain ⟨n, node, group, -, -, rfl⟩ := mem_column_llcRows_iff.mp hrow
    exact (LlcGroup.mem_coreRefs_iff.mp hc).2.1
  apply Ragged.pairwise_columnMajor
  · intro l
    have hsame : (Ragged.column tree.llcRows l).Pairwise fun row row' =>
        ∀ c ∈ row, ∀ c' ∈ row', c.node < c'.node := by
      apply Ragged.pairwise_column
      refine (pairwise_llcRows tree).imp ?_
      intro groups groups' hlt row hrow row' hrow'
      exact hlt row (List.mem_of_getElem? hrow) row'
        (List.mem_of_getElem? hrow')
    refine hsame.imp_of_mem ?_
    intro row row' hrow hrow' hlt c hc c' hc'
    have heq : c.llc = c'.llc :=
      (hllc hrow c hc).trans (hllc hrow' c' hc').symm
    exact lt_cons_of_eq heq (lt_cons_of_lt (hlt c hc c' hc') [] [])
  · intro l l' hlt row hrow row' hrow' c hc c' hc'
    apply lt_cons_of_lt
    rwa [hllc hrow c hc, hllc hrow' c' hc']

/-! ## Cores of one level -/

/-- An element of a filtered list is preceded by as many selected elements as
its index says. -/
theorem exists_countP_take_of_getElem?_filter {α : Type*} {p : α → Bool}
    {xs : List α} {i : ℕ} {a : α} (h : (xs.filter p)[i]? = some a) :
    ∃ k, xs[k]? = some a ∧ (xs.take k).countP p = i := by
  induction xs generalizing i with
  | nil => simp at h
  | cons x xs ih =>
      by_cases hx : p x = true
      · rw [List.filter_cons_of_pos hx] at h
        cases i with
        | zero => exact ⟨0, h, rfl⟩
        | succ i =>
            obtain ⟨k, hget, hcount⟩ := ih h
            exact ⟨k + 1, hget, by
              rw [List.take_succ_cons, List.countP_cons_of_pos hx, hcount]⟩
      · rw [List.filter_cons_of_neg hx] at h
        obtain ⟨k, hget, hcount⟩ := ih h
        exact ⟨k + 1, hget, by
          rw [List.take_succ_cons, List.countP_cons_of_neg hx, hcount]⟩

theorem LlcGroup.getElem?_coreRefs (group : LlcGroup) (node llc i : ℕ) :
    (group.coreRefs node llc)[i]? =
      group.cores[i]?.map fun c => ⟨node, llc, i, c⟩ := by
  simp [LlcGroup.coreRefs, List.getElem?_zipIdx, Function.comp_def]

/-- The cores of a level in an LLC group are indexed by their rank. -/
theorem rankInGroup_of_getElem? {tree : TopologyTree} {lvl i : ℕ}
    {row : List CoreRef} (hrow : row ∈ Ragged.columnMajor tree.llcRows)
    {c : CoreRef} (h : (row.filter (CoreRef.inLevel lvl))[i]? = some c) :
    c.deref.perfLevel = lvl ∧ tree.rankInGroup c = i := by
  have hlevel : c.inLevel lvl = true :=
    (List.mem_filter.mp (List.mem_of_getElem? h)).2
  rw [CoreRef.inLevel, Bool.and_eq_true, beq_iff_eq] at hlevel
  refine ⟨hlevel.1, ?_⟩
  obtain ⟨n, l, group, hcores, rfl⟩ := exists_of_mem_columnMajor_llcRows hrow
  obtain ⟨k, hget, hcount⟩ := exists_countP_take_of_getElem?_filter h
  rw [LlcGroup.getElem?_coreRefs, Option.map_eq_some_iff] at hget
  obtain ⟨d, -, rfl⟩ := hget
  -- whether a core counts depends on the core alone, not on its place
  have hplace : (group.cores.take k).countP (fun d =>
      d.perfLevel == lvl && !d.threads.isEmpty) =
        ((group.coreRefs n l).take k).countP (CoreRef.inLevel lvl) := by
    rw [← group.map_deref_coreRefs n l, ← List.map_take, List.countP_map]
    rfl
  rw [TopologyTree.rankInGroup, hcores, hlevel.1, hplace, hcount]

/-- The cores of a level ascend by rank, LLC index and node. -/
theorem pairwise_levelOrder (tree : TopologyTree) (lvl : ℕ) :
    (levelOrder tree lvl).Pairwise fun c c' =>
      tree.coreKey c < tree.coreKey c' := by
  have hcolumn {i : ℕ} {c : CoreRef}
      (hc : c ∈ Ragged.column ((Ragged.columnMajor tree.llcRows).map
        (List.filter (CoreRef.inLevel lvl))) i) :
      c.deref.perfLevel = lvl ∧ tree.rankInGroup c = i := by
    rw [Ragged.mem_column_iff] at hc
    obtain ⟨_, hmem, hget⟩ := hc
    obtain ⟨row, hrow, rfl⟩ := List.mem_map.mp hmem
    exact rankInGroup_of_getElem? hrow hget
  rw [levelOrder]
  apply Ragged.pairwise_columnMajor
  · intro i
    have hgroups : (Ragged.column ((Ragged.columnMajor tree.llcRows).map
        (List.filter (CoreRef.inLevel lvl))) i).Pairwise fun c c' =>
          [c.llc, c.node] < [c'.llc, c'.node] := by
      apply Ragged.pairwise_column
      rw [List.pairwise_map]
      refine (pairwise_columnMajor_llcRows tree).imp ?_
      intro row row' hlt c hc c' hc'
      exact hlt c (List.mem_of_mem_filter (List.mem_of_getElem? hc)) c'
        (List.mem_of_mem_filter (List.mem_of_getElem? hc'))
    refine hgroups.imp_of_mem ?_
    intro c c' hc hc' hlt
    obtain ⟨hlevel, hrank⟩ := hcolumn hc
    obtain ⟨hlevel', hrank'⟩ := hcolumn hc'
    exact lt_cons_of_eq (hlevel.trans hlevel'.symm)
      (lt_cons_of_eq (hrank.trans hrank'.symm) hlt)
  · intro i j hij c hc c' hc'
    obtain ⟨hlevel, hrank⟩ := hcolumn hc
    obtain ⟨hlevel', hrank'⟩ := hcolumn hc'
    apply lt_cons_of_eq (hlevel.trans hlevel'.symm)
    apply lt_cons_of_lt
    rwa [hrank, hrank']

/-! ## The mapping -/

theorem pairwise_numaOrder (tree : TopologyTree) :
    (numaOrder tree).Pairwise fun c c' => tree.coreKey c < tree.coreKey c' := by
  rw [numaOrder, List.pairwise_flatMap]
  refine ⟨fun lvl _ => pairwise_levelOrder tree lvl, ?_⟩
  refine List.pairwise_lt_range.imp ?_
  intro lvl lvl' hlt c hc c' hc'
  apply lt_cons_of_lt
  rwa [perfLevel_of_mem_levelOrder hc, perfLevel_of_mem_levelOrder hc']

/-- The entries of the NUMA mapping, tagged with their places in the tree,
ascend strictly under the key. -/
theorem createMappingNuma_pairwise_placementKey (tree : TopologyTree) :
    createMappingNuma tree =
        (createMappingNumaRefs tree).map ProcessorRef.deref ∧
      (∀ r ∈ createMappingNumaRefs tree, tree.Locates r) ∧
      (createMappingNumaRefs tree).Pairwise fun r s =>
        tree.placementKey r < tree.placementKey s := by
  refine ⟨rfl, fun r hr => (locates_of_mem_createMappingNumaRefs hr).1, ?_⟩
  rw [createMappingNumaRefs_eq]
  apply Ragged.pairwise_columnMajor
  · intro t
    have hcores : (Ragged.column
        ((numaOrder tree).map CoreRef.processorRefs) t).Pairwise fun r s =>
          tree.coreKey r.core < tree.coreKey s.core := by
      apply Ragged.pairwise_column
      rw [List.pairwise_map]
      refine (pairwise_numaOrder tree).imp ?_
      intro c c' hlt r hr s hs
      rw [(CoreRef.mem_processorRefs_iff.mp (List.mem_of_getElem? hr)).1,
        (CoreRef.mem_processorRefs_iff.mp (List.mem_of_getElem? hs)).1]
      exact hlt
    refine hcores.imp_of_mem ?_
    intro r s hr hs hlt
    exact lt_cons_of_eq
      ((thread_of_mem_column hr).trans (thread_of_mem_column hs).symm) hlt
  · intro t t' hlt r hr s hs
    apply lt_cons_of_lt
    rwa [thread_of_mem_column hr, thread_of_mem_column hs]

end BenchBox
