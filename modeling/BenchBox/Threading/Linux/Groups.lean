import BenchBox.Threading.Linux.Tree

/-!
# Missing attributes on Linux

A missing L3 or core id reads as zero.  So CPUs without the attribute are
grouped with those whose id is zero, and CPUs without a core id with each other.
-/

namespace BenchBox
namespace Linux

open PartialLoop

/-- One LLC group holds both CPUs. -/
def SameLlcGroup (tree : TopologyTree) (cpu cpu' : ℕ) : Prop :=
  ∃ node ∈ tree.numaNodes, ∃ llc ∈ node.llcGroups,
    (∃ core ∈ llc.cores, cpu ∈ core.threads.map (·.osId)) ∧
      ∃ core ∈ llc.cores, cpu' ∈ core.threads.map (·.osId)

instance (tree : TopologyTree) (cpu cpu' : ℕ) :
    Decidable (SameLlcGroup tree cpu cpu') :=
  inferInstanceAs (Decidable (∃ node ∈ tree.numaNodes, _))

/-- One core holds both CPUs. -/
def SameCore (tree : TopologyTree) (cpu cpu' : ℕ) : Prop :=
  ∃ core ∈ tree.cores,
    cpu ∈ core.threads.map (·.osId) ∧ cpu' ∈ core.threads.map (·.osId)

/-- CPUs of one NUMA node share an LLC group if they report the same L3 or both
report none, and a core if they also report the same core id. -/
def GroupsAsReported (cpus : List CpuEntry) (tree : TopologyTree) : Prop :=
  ∀ a ∈ cpus, ∀ b ∈ cpus, a.cpu ≠ b.cpu → a.nodeId = b.nodeId →
    (SameLlcGroup tree a.cpu b.cpu ↔ a.l3Id = b.l3Id) ∧
      (SameCore tree a.cpu b.cpu ↔
        a.l3Id = b.l3Id ∧
          ∃ id, a.topologyCoreId = some id ∧ b.topologyCoreId = some id)

/-- No two CPUs of one NUMA node are confused by a missing attribute: none lacks
the L3 id where another reports zero, and none lacks the core id where another
of the same L3 lacks it too or reports zero. -/
def DefaultsUnambiguous (cpus : List CpuEntry) : Prop :=
  ∀ a ∈ cpus, ∀ b ∈ cpus, a.cpu ≠ b.cpu → a.nodeId = b.nodeId →
    ¬(a.l3Id = none ∧ b.l3Id = some 0) ∧
      ¬(a.l3Id = b.l3Id ∧ a.topologyCoreId = none ∧
        (b.topologyCoreId = none ∨ b.topologyCoreId = some 0))

instance (cpus : List CpuEntry) : Decidable (DefaultsUnambiguous cpus) :=
  inferInstanceAs (Decidable (∀ a ∈ cpus, ∀ b ∈ cpus, _))

/-- Zero is only confused with a missing id. -/
theorem getD_zero_eq_iff {x y : Option ℕ} (h : ¬(x = none ∧ y = some 0))
    (h' : ¬(y = none ∧ x = some 0)) : x.getD 0 = y.getD 0 ↔ x = y := by
  cases x <;> cases y <;> simp_all [eq_comm]

/-- Without confusion equal ids have been reported. -/
theorem exists_eq_some_of_getD_eq {x y : Option ℕ} (h : x.getD 0 = y.getD 0)
    (hx : ¬(x = none ∧ (y = none ∨ y = some 0)))
    (hy : ¬(y = none ∧ (x = none ∨ x = some 0))) :
    ∃ id, x = some id ∧ y = some id := by
  cases x with
  | none => cases y <;> simp_all [eq_comm]
  | some id => cases y <;> simp_all [eq_comm]

/-- What is read for a CPU depends on its number only. -/
theorem key_eq_of_cpu_eq {fs : Sysfs} {cpus : List CpuEntry}
    (henum : enumerate fs = some cpus) {a b : CpuEntry} (ha : a ∈ cpus)
    (hb : b ∈ cpus) (hcpu : a.cpu = b.cpu) : a.key = b.key := by
  obtain ⟨names, -, hcpus⟩ := Option.bind_eq_some_iff.mp henum
  obtain ⟨⟨cpu, capacity⟩, -, hreadA⟩ := exists_of_mem_mapM hcpus ha
  obtain ⟨⟨cpu', capacity'⟩, -, hreadB⟩ := exists_of_mem_mapM hcpus hb
  rw [readCpu, Option.map_eq_some_iff] at hreadA hreadB
  obtain ⟨entries, hentries, rfl⟩ := hreadA
  obtain ⟨entries', hentries', rfl⟩ := hreadB
  obtain rfl : cpu = cpu' := hcpu
  obtain rfl : entries = entries' :=
    Option.some.inj (hentries.symm.trans hentries')
  rfl

section Tree

variable {cpus : List CpuEntry}
  (hkey : ∀ a ∈ cpus, ∀ b ∈ cpus, a.cpu = b.cpu → a.key = b.key)

include hkey

/-- A core that holds a CPU is kept under the key of the CPU. -/
theorem key_of_holds {e : CpuEntry} (he : e ∈ cpus) {nodeId llcId : ℕ}
    {core : Core} (hholds : (treeOf cpus).Holds nodeId llcId core)
    (hcpu : e.cpu ∈ core.threads.map (·.osId)) :
    e.key = (nodeId, llcId, core.coreId) := by
  obtain ⟨d, hd, hdcpu, hdkey⟩ := exists_of_holds hholds hcpu
  rw [hkey e he d hd hdcpu.symm, hdkey]

theorem sameLlcGroup_treeOf_iff {a b : CpuEntry} (ha : a ∈ cpus)
    (hb : b ∈ cpus) (hnode : a.nodeId = b.nodeId) :
    SameLlcGroup (treeOf cpus) a.cpu b.cpu ↔ a.llcId = b.llcId := by
  constructor
  · intro h
    rcases h with ⟨node, hmem, llc, hllc, hhas, core', hcore', hcpu'⟩
    rcases hhas with ⟨core, hcore, hcpu⟩
    have hkeyA := key_of_holds hkey ha
      ⟨node, hmem, rfl, llc, hllc, rfl, hcore⟩ hcpu
    have hkeyB := key_of_holds hkey hb
      ⟨node, hmem, rfl, llc, hllc, rfl, hcore'⟩ hcpu'
    exact (congrArg (·.2.1) hkeyA).trans (congrArg (·.2.1) hkeyB).symm
  · intro hllc
    have hholds := holds_coreOf hb
    rw [← hnode, ← hllc] at hholds
    obtain ⟨node, hmem, -, llc, hgroup, hcore, hcore'⟩ :=
      (ordered_treeOf cpus).exists_group (holds_coreOf ha) hholds
    exact ⟨node, hmem, llc, hgroup, ⟨_, hcore, mem_threads_coreOf_key ha _ _⟩,
      _, hcore', mem_threads_coreOf_key hb _ _⟩

theorem sameCore_treeOf_iff {a b : CpuEntry} (ha : a ∈ cpus) (hb : b ∈ cpus) :
    SameCore (treeOf cpus) a.cpu b.cpu ↔ a.key = b.key := by
  constructor
  · intro h
    rcases h with ⟨core, hcore, hcpu, hcpu'⟩
    obtain ⟨nodeId, llcId, hholds⟩ := TopologyTree.mem_cores_iff.mp hcore
    rw [key_of_holds hkey ha hholds hcpu, key_of_holds hkey hb hholds hcpu']
  · intro hab
    refine ⟨_, coreOf_mem_cores ha, mem_threads_coreOf_key ha _ _, ?_⟩
    rw [hab]
    exact mem_threads_coreOf_key hb _ _

/-- The tree groups CPUs as they report exactly when no default is mistaken for
a reported id. -/
theorem groupsAsReported_treeOf_iff :
    GroupsAsReported cpus (treeOf cpus) ↔ DefaultsUnambiguous cpus := by
  constructor
  · intro h a ha b hb hne hnode
    obtain ⟨hllc, hcore⟩ := h a ha b hb hne hnode
    rw [sameLlcGroup_treeOf_iff hkey ha hb hnode] at hllc
    rw [sameCore_treeOf_iff hkey ha hb] at hcore
    constructor
    · intro hconfused
      rcases hconfused with ⟨hl3, hl3'⟩
      have hids : a.llcId = b.llcId := by simp [CpuEntry.llcId, hl3, hl3']
      rw [hllc, hl3, hl3'] at hids
      exact absurd hids (by simp)
    · intro hconfused
      rcases hconfused with ⟨hl3, hid, hid'⟩
      have hcoreIds : a.coreId = b.coreId := by
        rcases hid' with hid' | hid' <;> simp [CpuEntry.coreId, hid, hid']
      have hkeys : a.key = b.key := by
        rw [CpuEntry.key, CpuEntry.key, hnode, hllc.mpr hl3, hcoreIds]
      obtain ⟨-, id, hsome, -⟩ := hcore.mp hkeys
      exact absurd (hid.symm.trans hsome) (by simp)
  · intro h a ha b hb hne hnode
    rw [sameLlcGroup_treeOf_iff hkey ha hb hnode, sameCore_treeOf_iff hkey ha hb]
    obtain ⟨hl3, hid⟩ := h a ha b hb hne hnode
    obtain ⟨hl3', hid'⟩ := h b hb a ha hne.symm hnode.symm
    have hllcIds : a.llcId = b.llcId ↔ a.l3Id = b.l3Id := by
      rw [CpuEntry.llcId, CpuEntry.llcId]
      exact getD_zero_eq_iff hl3 hl3'
    refine ⟨hllcIds, ?_⟩
    constructor
    · intro hkeys
      have hl3Ids := hllcIds.mp (congrArg (·.2.1) hkeys)
      have hcoreIds : a.coreId = b.coreId := congrArg (·.2.2) hkeys
      exact ⟨hl3Ids, exists_eq_some_of_getD_eq hcoreIds
        (fun hnone => hid ⟨hl3Ids, hnone⟩)
        (fun hnone => hid' ⟨hl3Ids.symm, hnone⟩)⟩
    · intro hreported
      rcases hreported with ⟨hl3, id, hida, hidb⟩
      have hcoreIds : a.coreId = b.coreId := by
        rw [CpuEntry.coreId, CpuEntry.coreId, hida, hidb]
      rw [CpuEntry.key, CpuEntry.key, hnode, hllcIds.mpr hl3, hcoreIds]

end Tree

end Linux
end BenchBox
