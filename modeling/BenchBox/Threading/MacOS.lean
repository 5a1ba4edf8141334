import BenchBox.Parse
import BenchBox.Threading.Placement

/-!
# The topology builder on macOS

`build_topo_tree` as `topology.cpp` has it for macOS.  It asks for the number of
cores of one perf level after the other, and makes each level an LLC group.
What `sysctlbyname` answers is an arbitrary input.
-/

namespace BenchBox
namespace MacOS

/-- `"hw.perflevel" + std::to_string(lvl) + ".physicalcpu"`. -/
def countKey (lvl : ℕ) : StringView :=
  "hw.perflevel".toList ++ Nat.toDigits 10 lvl ++ ".physicalcpu".toList

/-- The core number `gid`, which is of the perf level `lvl`. -/
def coreOf (lvl gid : ℕ) : Core where
  coreId := gid
  perfLevel := lvl
  threads := [{ threadIndex := 0, coreId := gid, osId := gid }]

/-- One round of the loop over the cores of a level, on `llc.cores` and
`gid`. -/
def pushCore (lvl : ℕ) (s : List Core × ℕ) : List Core × ℕ :=
  (s.1 ++ [coreOf lvl s.2], (s.2 + 1) % 2 ^ 32)

/-- The loop over the cores of a level and the group it adds, on
`node.llc_groups` and `gid`. -/
def pushLevel (lvl count : ℕ) (s : List LlcGroup × ℕ) : List LlcGroup × ℕ :=
  let pushed := (List.range count).foldl (fun s _ => pushCore lvl s) ([], s.2)
  (s.1 ++ [⟨lvl, pushed.1⟩], pushed.2)

/-- The loop over the perf levels from `lvl` on, with `rounds` left.  A call
that fails and a level without cores end it. -/
def pushLevels (sysctl : StringView → Option ℕ) :
    (rounds lvl : ℕ) → List LlcGroup × ℕ → List LlcGroup × ℕ
  | 0, _, s => s
  | rounds + 1, lvl, s =>
      match sysctl (countKey lvl) with
      | none => s
      | some count =>
          if count = 0 then s
          else pushLevels sysctl rounds (lvl + 1) (pushLevel lvl count s)

/-- `max_levels`. -/
def maxLevels : ℕ := 8

/-- `build_topo_tree`. -/
def buildTopoTree (sysctl : StringView → Option ℕ) : TopologyTree :=
  let llcGroups := (pushLevels sysctl maxLevels 0 ([], 0)).1
  { numaNodes := [⟨0, llcGroups⟩], perfLevelCount := llcGroups.length }

/-! ## The levels it finds -/

/-- The core counts of the levels before the first one without an answer or
without cores, of eight at most. -/
def levelCounts (sysctl : StringView → Option ℕ) : List ℕ :=
  (((List.range maxLevels).map fun lvl =>
    (sysctl (countKey lvl)).getD 0).takeWhile (0 < ·))

/-- The LLC groups of the counted levels, numbered from `lvl` and their cores
from `gid`. -/
def levelGroups : (lvl gid : ℕ) → List ℕ → List LlcGroup
  | _, _, [] => []
  | lvl, gid, count :: counts =>
      ⟨lvl, (List.range' gid count).map (coreOf lvl)⟩ ::
        levelGroups (lvl + 1) (gid + count) counts

theorem foldl_pushCore (lvl count : ℕ) (cores : List Core) {gid : ℕ}
    (h : gid + count < 2 ^ 32) :
    (List.range count).foldl (fun s _ => pushCore lvl s) (cores, gid) =
      (cores ++ (List.range' gid count).map (coreOf lvl), gid + count) := by
  induction count with
  | zero => simp
  | succ count ih =>
      have hgid : (gid + count + 1) % 2 ^ 32 = gid + (count + 1) :=
        Nat.mod_eq_of_lt h
      rw [List.range_succ, List.foldl_append, ih (by omega),
        List.range'_concat, List.map_append, ← List.append_assoc,
        List.foldl_cons, List.foldl_nil, pushCore, hgid, Nat.one_mul]
      rfl

/-- The loop over the levels adds the groups of the counts it reads. -/
theorem pushLevels_eq (sysctl : StringView → Option ℕ) (rounds lvl gid : ℕ)
    (groups : List LlcGroup)
    (h : gid + (((List.range' lvl rounds).map fun lvl =>
      (sysctl (countKey lvl)).getD 0).takeWhile (0 < ·)).sum < 2 ^ 32) :
    (pushLevels sysctl rounds lvl (groups, gid)).1 =
      groups ++ levelGroups lvl gid
        (((List.range' lvl rounds).map fun lvl =>
          (sysctl (countKey lvl)).getD 0).takeWhile (0 < ·)) := by
  induction rounds generalizing lvl gid groups with
  | zero => simp [pushLevels, levelGroups]
  | succ rounds ih =>
      rw [List.range'_succ, List.map_cons, List.takeWhile_cons] at h ⊢
      rw [pushLevels]
      cases hcount : sysctl (countKey lvl) with
      | none => simp [levelGroups]
      | some count =>
          simp only [hcount, Option.getD_some, decide_eq_true_eq] at h ⊢
          by_cases hzero : count = 0
          · simp [hzero, levelGroups]
          · rw [if_pos (Nat.pos_of_ne_zero hzero), List.sum_cons,
              ← Nat.add_assoc] at h
            rw [if_neg hzero, if_pos (Nat.pos_of_ne_zero hzero), pushLevel,
              foldl_pushCore lvl count [] (by omega), levelGroups]
            dsimp only
            rw [ih (lvl + 1) (gid + count) _ h, List.nil_append,
              List.append_assoc, List.singleton_append]

theorem length_levelGroups (lvl gid : ℕ) (counts : List ℕ) :
    (levelGroups lvl gid counts).length = counts.length := by
  induction counts generalizing lvl gid with
  | nil => rfl
  | cons count counts ih =>
      rw [levelGroups, List.length_cons, List.length_cons, ih]

theorem buildTopoTree_eq {sysctl : StringView → Option ℕ}
    (h : (levelCounts sysctl).sum < 2 ^ 32) :
    buildTopoTree sysctl =
      { numaNodes := [⟨0, levelGroups 0 0 (levelCounts sysctl)⟩]
        perfLevelCount := (levelCounts sysctl).length } := by
  rw [levelCounts, List.range_eq_range'] at h
  have hgroups := pushLevels_eq sysctl maxLevels 0 0 [] (by rwa [Nat.zero_add])
  rw [buildTopoTree, hgroups, List.nil_append, length_levelGroups, levelCounts,
    List.range_eq_range']

end MacOS

/-! ## Mappings of a tree whose LLC groups are its perf levels -/

/-- Pointers to the cores of each group of the only node. -/
def NumaNode.rows (node : NumaNode) : List (List CoreRef) :=
  node.llcGroups.zipIdx.map fun llc => llc.1.coreRefs 0 llc.2

/-- The tree has one node, whose LLC groups are the perf levels in order, and
every core has one thread. -/
structure LevelGroups (tree : TopologyTree) (node : NumaNode) : Prop where
  numaNodes : tree.numaNodes = [node]
  perfLevel : ∀ (i : ℕ) (llc : LlcGroup), node.llcGroups[i]? = some llc →
    ∀ c ∈ llc.cores, c.perfLevel = i
  threads : ∀ c ∈ tree.cores, c.threads.length = 1
  perfLevelCount : tree.perfLevelCount = node.llcGroups.length

namespace LevelGroups

variable {tree : TopologyTree} {node : NumaNode} (h : LevelGroups tree node)

include h

theorem llcRows_eq : tree.llcRows = [node.rows] := by
  rw [TopologyTree.llcRows, h.numaNodes]
  rfl

theorem perfLevel_of_mem_coreRefs {llc : LlcGroup} {i : ℕ}
    (hllc : (llc, i) ∈ node.llcGroups.zipIdx) {c : CoreRef}
    (hc : c ∈ llc.coreRefs 0 i) :
    c.deref.perfLevel = i :=
  h.perfLevel i llc (List.mem_zipIdx_iff_getElem?.mp hllc) c.deref
    (List.mem_of_getElem? (LlcGroup.mem_coreRefs_iff.mp hc).2.2)

theorem length_threads_of_mem_coreRefs {c : CoreRef}
    (hc : c ∈ tree.coreRefs) : c.deref.threads.length = 1 := by
  apply h.threads
  rw [← tree.map_deref_coreRefs]
  exact List.mem_map_of_mem hc

theorem coreRefs_eq : tree.coreRefs = node.rows.flatten := by
  rw [TopologyTree.coreRefs, h.llcRows_eq, List.flatten_singleton]

/-- A level takes the cores of its group in order. -/
theorem levelOrder_eq_filter (lvl : ℕ) :
    levelOrder tree lvl = tree.coreRefs.filter (CoreRef.inLevel lvl) := by
  have hpairwise : (node.rows.map (List.filter (CoreRef.inLevel lvl))).Pairwise
      fun row row' => row = [] ∨ row' = [] := by
    have hindex : node.llcGroups.zipIdx.Pairwise fun a b => a.2 ≠ b.2 := by
      rw [← List.pairwise_map (f := Prod.snd) (R := (· ≠ ·)),
        List.zipIdx_map_snd]
      exact List.nodup_range'
    have hempty {llc : LlcGroup} {i : ℕ}
        (hllc : (llc, i) ∈ node.llcGroups.zipIdx) (hne : i ≠ lvl) :
        (llc.coreRefs 0 i).filter (CoreRef.inLevel lvl) = [] := by
      rw [List.filter_eq_nil_iff]
      intro c hc
      simp [CoreRef.inLevel, h.perfLevel_of_mem_coreRefs hllc hc, hne]
    rw [NumaNode.rows, List.map_map, List.pairwise_map]
    refine hindex.imp_of_mem ?_
    rintro ⟨llc, i⟩ ⟨llc', i'⟩ hllc hllc' hne
    by_cases hi : i = lvl
    · exact .inr (hempty hllc' (hi ▸ hne.symm))
    · exact .inl (hempty hllc hi)
  rw [levelOrder, h.llcRows_eq, Ragged.columnMajor_singleton,
    Ragged.columnMajor_of_pairwise hpairwise, ← List.filter_flatten,
    h.coreRefs_eq]

/-- All levels together take the cores in tree order. -/
theorem numaOrder_eq_coreRefs : numaOrder tree = tree.coreRefs := by
  have hlength : tree.perfLevelCount = node.rows.length := by
    rw [h.perfLevelCount, NumaNode.rows, List.length_map, List.length_zipIdx]
  have hrow (i : ℕ) : ∀ c ∈ node.rows[i]?.getD [], c.deref.perfLevel = i := by
    intro c hc
    rw [NumaNode.rows, List.getElem?_map, List.getElem?_zipIdx] at hc
    cases hllc : node.llcGroups[i]? with
    | none => simp [hllc] at hc
    | some llc =>
        simp only [hllc, Option.map_some, Option.getD_some, Nat.zero_add] at hc
        exact h.perfLevel_of_mem_coreRefs
          (List.mem_zipIdx_iff_getElem?.mpr hllc) hc
  have hfilter (lvl : ℕ) : tree.coreRefs.filter (CoreRef.inLevel lvl) =
      tree.coreRefs.filter (·.deref.perfLevel == lvl) := by
    apply List.filter_congr
    intro c hc
    have hthreads := h.length_threads_of_mem_coreRefs hc
    cases hnil : c.deref.threads with
    | nil => simp [hnil] at hthreads
    | cons lp threads => simp [CoreRef.inLevel, hnil]
  rw [numaOrder, funext h.levelOrder_eq_filter, funext hfilter, h.coreRefs_eq,
    Ragged.flatten_eq_flatMap_range, hlength]
  apply List.flatMap_congr
  intro lvl hlvl
  rw [StablePartition.filter_flatMap_range hrow,
    if_pos (List.mem_range.mp hlvl)]

/-- Both mappings list the threads in tree order. -/
theorem createMapping_eq_threads :
    createMappingNuma tree = tree.cores.flatMap (·.threads) ∧
      createMappingPhte tree = tree.cores.flatMap (·.threads) := by
  have hone {cores : List CoreRef} (hsub : ∀ c ∈ cores, c ∈ tree.coreRefs) :
      Ragged.columnMajor (cores.map CoreRef.processorRefs) =
        cores.flatMap CoreRef.processorRefs := by
    rw [List.flatMap_def]
    apply Ragged.columnMajor_of_length_le_one
    rw [List.forall_mem_map]
    intro c hc
    rw [CoreRef.length_processorRefs,
      h.length_threads_of_mem_coreRefs (hsub c hc)]
  have horder := h.numaOrder_eq_coreRefs
  have hnuma : createMappingNumaRefs tree =
      tree.coreRefs.flatMap CoreRef.processorRefs := by
    rw [createMappingNumaRefs_eq, horder, hone fun c hc => hc]
  have hphte : createMappingPhteRefs tree =
      tree.coreRefs.flatMap CoreRef.processorRefs := by
    rw [createMappingPhteRefs_eq, ← horder, numaOrder, List.flatMap_assoc]
    apply List.flatMap_congr
    intro lvl _
    exact hone fun c hc => (mem_levelOrder_iff.mp hc).1
  have hthreads : (tree.coreRefs.flatMap CoreRef.processorRefs).map
      ProcessorRef.deref = tree.cores.flatMap (·.threads) := by
    rw [← tree.map_deref_coreRefs, List.map_flatMap, List.flatMap_map]
    exact List.flatMap_congr fun c _ => c.map_deref_processorRefs
  rw [createMappingNuma, createMappingPhte, hnuma, hphte]
  exact ⟨hthreads, hthreads⟩

end LevelGroups

namespace MacOS

/-! ## The mappings -/

theorem exists_eq_coreOf {lvl gid i : ℕ} {counts : List ℕ} {llc : LlcGroup}
    (h : (levelGroups lvl gid counts)[i]? = some llc) {c : Core}
    (hc : c ∈ llc.cores) : ∃ id, c = coreOf (lvl + i) id := by
  induction counts generalizing lvl gid i with
  | nil => simp [levelGroups] at h
  | cons count counts ih =>
      rw [levelGroups] at h
      cases i with
      | zero =>
          rw [List.getElem?_cons_zero, Option.some.injEq] at h
          subst h
          obtain ⟨id, -, rfl⟩ := List.mem_map.mp hc
          exact ⟨id, rfl⟩
      | succ i =>
          rw [List.getElem?_cons_succ] at h
          obtain ⟨id, rfl⟩ := ih h
          exact ⟨id, by rw [Nat.add_right_comm, Nat.add_assoc]⟩

/-- The cores of the groups are numbered one after the other. -/
theorem flatMap_threads_levelGroups (lvl gid : ℕ) (counts : List ℕ) :
    (((levelGroups lvl gid counts).flatMap (·.cores)).flatMap
        (·.threads)) =
      (List.range' gid counts.sum).map fun id =>
        { threadIndex := 0, coreId := id, osId := id } := by
  induction counts generalizing lvl gid with
  | nil => rfl
  | cons count counts ih =>
      have hcores : ((List.range' gid count).map (coreOf lvl)).flatMap
          (·.threads) =
            (List.range' gid count).map fun id =>
              { threadIndex := 0, coreId := id, osId := id } := by
        rw [List.flatMap_map, List.map_eq_flatMap]
        rfl
      rw [levelGroups, List.flatMap_cons, List.flatMap_append, ih, hcores,
        List.sum_cons, ← List.map_append, ← List.range'_append_1]

theorem levelGroups_buildTopoTree {sysctl : StringView → Option ℕ}
    (h : (levelCounts sysctl).sum < 2 ^ 32) :
    LevelGroups (buildTopoTree sysctl)
      ⟨0, levelGroups 0 0 (levelCounts sysctl)⟩ where
  numaNodes := by rw [buildTopoTree_eq h]
  perfLevel := by
    intro i llc hllc c hc
    obtain ⟨id, rfl⟩ := exists_eq_coreOf hllc hc
    exact Nat.zero_add i
  threads := by
    intro c hc
    rw [buildTopoTree_eq h, TopologyTree.cores, List.flatMap_singleton] at hc
    obtain ⟨llc, hllc, hc⟩ := List.mem_flatMap.mp hc
    obtain ⟨i, hi⟩ := List.mem_iff_getElem?.mp hllc
    obtain ⟨id, rfl⟩ := exists_eq_coreOf hi hc
    rfl
  perfLevelCount := by rw [buildTopoTree_eq h, length_levelGroups]

theorem flatMap_threads_buildTopoTree {sysctl : StringView → Option ℕ}
    (h : (levelCounts sysctl).sum < 2 ^ 32) :
    (buildTopoTree sysctl).cores.flatMap (·.threads) =
      (List.range (levelCounts sysctl).sum).map fun id =>
        { threadIndex := 0, coreId := id, osId := id } := by
  rw [buildTopoTree_eq h, TopologyTree.cores, List.flatMap_singleton,
    flatMap_threads_levelGroups, List.range_eq_range']

/-- The perf levels of the cores, in tree order. -/
theorem map_perfLevel_levelGroups (lvl gid : ℕ) (counts : List ℕ) :
    ((levelGroups lvl gid counts).flatMap (·.cores)).map (·.perfLevel) =
      (counts.zipIdx lvl).flatMap fun c => List.replicate c.1 c.2 := by
  induction counts generalizing lvl gid with
  | nil => rfl
  | cons count counts ih =>
      rw [levelGroups, List.flatMap_cons, List.map_append, ih,
        List.zipIdx_cons, List.flatMap_cons]
      congr 1
      rw [List.map_map, List.eq_replicate_iff]
      refine ⟨by simp, ?_⟩
      intro level hlevel
      obtain ⟨id, -, rfl⟩ := List.mem_map.mp hlevel
      rfl

theorem length_cores_levelGroups (lvl gid : ℕ) (counts : List ℕ) :
    ((levelGroups lvl gid counts).flatMap (·.cores)).length = counts.sum := by
  induction counts generalizing lvl gid with
  | nil => rfl
  | cons count counts ih =>
      rw [levelGroups, List.flatMap_cons, List.length_append, ih,
        List.length_map, List.length_range', List.sum_cons]

/-- The counts are those of the first eight keys, up to one that counts no core. -/
theorem levelCounts_spec (sysctl : StringView → Option ℕ) :
    (levelCounts sysctl).length ≤ 8 ∧
      (∀ lvl count, (levelCounts sysctl)[lvl]? = some count →
        sysctl (countKey lvl) = some count ∧ 0 < count) ∧
      ((levelCounts sysctl).length < 8 →
        (sysctl (countKey (levelCounts sysctl).length)).getD 0 = 0) := by
  let all := (List.range maxLevels).map fun lvl =>
    (sysctl (countKey lvl)).getD 0
  have hall (lvl : ℕ) (hlvl : lvl < 8) :
      all[lvl]? = some ((sysctl (countKey lvl)).getD 0) := by
    rw [List.getElem?_map, List.getElem?_range (show lvl < maxLevels from hlvl)]
    rfl
  have hlength : all.length = 8 := by simp [all, maxLevels]
  have hsplit : levelCounts sysctl ++ all.dropWhile (0 < ·) = all :=
    List.takeWhile_append_dropWhile
  have hle : (levelCounts sysctl).length ≤ 8 := by
    rw [← hlength, ← hsplit, List.length_append]
    exact Nat.le_add_right _ _
  refine ⟨hle, ?_, ?_⟩
  · intro lvl count hcount
    have hlt := (List.getElem?_eq_some_iff.mp hcount).1
    have hpos : 0 < count := by
      have hmem : count ∈ all.takeWhile (0 < ·) := List.mem_of_getElem? hcount
      simpa using List.mem_takeWhile_imp hmem
    have hvalue := hall lvl (hlt.trans_le hle)
    rw [← hsplit, List.getElem?_append_left hlt, hcount,
      Option.some.injEq] at hvalue
    refine ⟨?_, hpos⟩
    cases hsysctl : sysctl (countKey lvl) with
    | none => simp [hsysctl] at hvalue; omega
    | some c => rw [hvalue, hsysctl]; rfl
  · intro hlt
    have hvalue := hall _ hlt
    rw [← hsplit, List.getElem?_append_right le_rfl, Nat.sub_self,
      ← List.head?_eq_getElem?] at hvalue
    have hfails := List.head?_dropWhile_not (fun n : ℕ => decide (0 < n)) all
    rw [hvalue] at hfails
    simpa using hfails

/-- On macOS the levels are those of the first eight keys, up to one that counts
no core.  Their cores are numbered one after the other, both mappings list them
in that order, the fastest level first, and the default thread count is their
number. -/
theorem buildTopoTree_mapping (sysctl : StringView → Option ℕ)
    (h : (levelCounts sysctl).sum < 2 ^ 32) (hardwareConcurrency : ℕ) :
    let tree := buildTopoTree sysctl
    let counts := levelCounts sysctl
    (counts.length ≤ 8 ∧
      (∀ lvl count, counts[lvl]? = some count →
        sysctl (countKey lvl) = some count ∧ 0 < count) ∧
      (counts.length < 8 → (sysctl (countKey counts.length)).getD 0 = 0)) ∧
    tree.perfLevelCount = counts.length ∧
      tree.cores.map (·.perfLevel) =
        counts.zipIdx.flatMap (fun c => List.replicate c.1 c.2) ∧
      createMappingNuma tree = (List.range counts.sum).map (fun id =>
        { threadIndex := 0, coreId := id, osId := id }) ∧
      createMappingPhte tree = createMappingNuma tree ∧
      getDefaultThreadCount hardwareConcurrency tree = counts.sum := by
  intro tree counts
  have hcores : tree.cores = (levelGroups 0 0 counts).flatMap (·.cores) := by
    show (buildTopoTree sysctl).cores = _
    rw [buildTopoTree_eq h, TopologyTree.cores, List.flatMap_singleton]
  have hthreads := flatMap_threads_buildTopoTree h
  obtain ⟨hnuma, hphte⟩ :=
    (levelGroups_buildTopoTree h).createMapping_eq_threads
  refine ⟨levelCounts_spec sysctl, ?_, ?_, hnuma.trans hthreads,
    hphte.trans hnuma.symm, ?_⟩
  · show (buildTopoTree sysctl).perfLevelCount = _
    rw [buildTopoTree_eq h]
  · rw [hcores, map_perfLevel_levelGroups]
  · have hnodes : tree.numaNodes ≠ [] := by
      rw [(levelGroups_buildTopoTree h).numaNodes]
      exact List.cons_ne_nil _ _
    rw [getDefaultThreadCount_eq _ hnodes, hcores, length_cores_levelGroups,
      Nat.mod_eq_of_lt h]

/-- Four fast and two slow cores. -/
def fourAndTwo (key : StringView) : Option ℕ :=
  if key = countKey 0 then some 4 else if key = countKey 1 then some 2 else none

theorem buildTopoTree_mapping_fourAndTwo :
    (createMappingPhte (buildTopoTree fourAndTwo)).map (·.osId) =
      [0, 1, 2, 3, 4, 5] := by
  obtain ⟨-, -, -, hnuma, hphte, -⟩ :=
    buildTopoTree_mapping fourAndTwo (by decide) 8
  rw [hphte, hnuma]
  decide

end MacOS

end BenchBox
