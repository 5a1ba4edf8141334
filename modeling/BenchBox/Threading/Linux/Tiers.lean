import BenchBox.Threading.Linux.Tree

/-!
# Performance tiers on Linux

The tier of a core is written again for every CPU under its key, so it follows
the capacity of the last one.  It is the tier of all its CPUs exactly when CPUs
with the same key have the same capacity.
-/

namespace BenchBox
namespace Linux

/-- The core of a CPU is as many tiers down as there are higher capacities, and
no tier is without a core. -/
def TiersByCapacity (cpus : List CpuEntry) (tree : TopologyTree) : Prop :=
  (∀ e ∈ cpus, ∀ core ∈ tree.cores, e.cpu ∈ core.threads.map (·.osId) →
    core.perfLevel =
      ((cpus.map (·.capacity)).toFinset.filter (e.capacity < ·)).card) ∧
  ∀ level < tree.perfLevelCount, ∃ core ∈ tree.cores, core.perfLevel = level

instance (cpus : List CpuEntry) (tree : TopologyTree) :
    Decidable (TiersByCapacity cpus tree) :=
  inferInstanceAs (Decidable (_ ∧ _))

/-- The core under the key of a CPU has the tier of that CPU if the CPUs of the
key agree on their capacity. -/
theorem perfLevel_coreOf_of_agree {cpus : List CpuEntry}
    (hagree : ∀ a ∈ cpus, ∀ b ∈ cpus, a.key = b.key → a.capacity = b.capacity)
    {e : CpuEntry} (he : e ∈ cpus) (coreId : ℕ) :
    (coreOf (tier cpus) coreId (cpusAt cpus e.key)).perfLevel =
      Rank.rank (cpus.map (·.capacity)) e.capacity := by
  obtain ⟨d, hd, hkey, -, hlevel⟩ :=
    exists_perfLevel_coreOf (cpusAt_key_ne_nil he) coreId
  rw [hlevel, hagree d hd e he hkey]

/-- The only core that holds a CPU is the one under its key. -/
theorem eq_coreOf_of_mem {cpus : List CpuEntry}
    (hdistinct : (cpus.map (·.cpu)).Nodup) {e : CpuEntry} (he : e ∈ cpus)
    {core : Core} (hcore : core ∈ (treeOf cpus).cores)
    (hcpu : e.cpu ∈ core.threads.map (·.osId)) :
    core = coreOf (tier cpus) e.coreId (cpusAt cpus e.key) := by
  obtain ⟨nodeId, llcId, hholds⟩ := TopologyTree.mem_cores_iff.mp hcore
  obtain ⟨d, hd, hcpu, hkey⟩ := exists_of_holds hholds hcpu
  obtain rfl : d = e := List.inj_on_of_nodup_map hdistinct hd he hcpu
  obtain ⟨coreId, -, rfl⟩ := holds_treeOf_iff.mp hholds
  obtain ⟨rfl, rfl, rfl⟩ : d.nodeId = nodeId ∧ d.llcId = llcId ∧
      d.coreId = coreId := by
    simpa [CpuEntry.key, coreOf] using hkey
  rfl

theorem tiersByCapacity_treeOf_iff {cpus : List CpuEntry}
    (hdistinct : (cpus.map (·.cpu)).Nodup) :
    TiersByCapacity cpus (treeOf cpus) ↔
      ∀ a ∈ cpus, ∀ b ∈ cpus, a.key = b.key → a.capacity = b.capacity := by
  constructor
  · rintro ⟨htier, -⟩ a ha b hb hkey
    have hlevel : ∀ e ∈ cpus, e.key = a.key →
        (coreOf (tier cpus) a.coreId (cpusAt cpus a.key)).perfLevel =
          Rank.rank (cpus.map (·.capacity)) e.capacity := by
      intro e he hekey
      apply htier e he _ (coreOf_mem_cores ha)
      rw [← hekey]
      exact mem_threads_coreOf_key he _ _
    exact Rank.eq_of_rank_eq (List.mem_map_of_mem ha) (List.mem_map_of_mem hb)
      ((hlevel a ha rfl).symm.trans (hlevel b hb hkey.symm))
  · intro hagree
    constructor
    · intro e he core hcore hcpu
      rw [eq_coreOf_of_mem hdistinct he hcore hcpu]
      exact perfLevel_coreOf_of_agree hagree he _
    · intro level hlevel
      obtain ⟨capacity, hmem, hrank⟩ := Rank.exists_rank_eq hlevel
      obtain ⟨e, he, rfl⟩ := List.mem_map.mp hmem
      exact ⟨_, coreOf_mem_cores he,
        (perfLevel_coreOf_of_agree hagree he _).trans hrank⟩

/-- In the built tree the perf levels follow the capacities exactly when CPUs
read with the same ids have the same capacity. -/
theorem buildTopoTree_tiersByCapacity_iff {fs : Sysfs} {cpus : List CpuEntry}
    (henum : enumerate fs = some cpus)
    (hdistinct : (cpus.map (·.cpu)).Nodup) :
    ∃ tree, buildTopoTree fs = some tree ∧
      (TiersByCapacity cpus tree ↔
        ∀ a ∈ cpus, ∀ b ∈ cpus, a.key = b.key → a.capacity = b.capacity) :=
  ⟨treeOf cpus, buildTopoTree_of_enumerate henum,
    tiersByCapacity_treeOf_iff hdistinct⟩

theorem buildTopoTree_tiersByCapacity_hybrid :
    ∃ tree, buildTopoTree (sysfsOf hybridCpus) = some tree ∧
      TiersByCapacity hybridCpus tree := by
  obtain ⟨tree, htree, hiff⟩ := buildTopoTree_tiersByCapacity_iff
    (show enumerate (sysfsOf hybridCpus) = some hybridCpus by decide)
    (by decide)
  exact ⟨tree, htree, hiff.mpr (by decide)⟩

/-- A CPU of capacity 512 and one of capacity 1024 without id files, which is
read as a second thread of the same core. -/
def bareCpus : List CpuEntry :=
  [⟨0, 512, 0, some 0, some 0⟩, ⟨1, 1024, 0, none, none⟩]

/-- Both CPUs end up in a core of the highest tier, and the lower tier has no
core. -/
theorem not_tiersByCapacity_bareCpus :
    enumerate (sysfsOf bareCpus) = some bareCpus ∧
      ∃ tree, buildTopoTree (sysfsOf bareCpus) = some tree ∧
        tree.perfLevelCount = 2 ∧ (∀ core ∈ tree.cores, core.perfLevel = 0) ∧
        ¬TiersByCapacity bareCpus tree := by
  exact ⟨by decide, treeOf bareCpus, by decide, by decide, by decide,
    by decide⟩

end Linux
end BenchBox
