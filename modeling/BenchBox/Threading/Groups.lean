import BenchBox.Threading.Linux.Groups
import BenchBox.Threading.Windows.Groups

/-!
# Missing attributes and groups

On both platforms an attribute that is missing is stored as the id zero.  The
groups of a tree are the reported ones exactly when that zero meets no reported
id.
-/

namespace BenchBox

/-- The Linux tree groups the CPUs of a node as they report, and the Windows
tree the cores of a node as the records do, exactly when no default id is
mistaken for a reported one. -/
theorem groupsAsReported_iff {fs : Linux.Sysfs} {cpus : List Linux.CpuEntry}
    (henum : Linux.enumerate fs = some cpus)
    (records : List Windows.Information) :
    (∃ tree, Linux.buildTopoTree fs = some tree ∧
      (Linux.GroupsAsReported cpus tree ↔ Linux.DefaultsUnambiguous cpus)) ∧
      (Windows.GroupsAsReported records
          (Windows.buildTopoTree (some records)) ↔
        Windows.DefaultsUnambiguous records) := by
  refine ⟨⟨Linux.treeOf cpus, Linux.buildTopoTree_of_enumerate henum, ?_⟩,
    Windows.groupsAsReported_buildTopoTree_iff records⟩
  exact Linux.groupsAsReported_treeOf_iff fun a ha b hb =>
    Linux.key_eq_of_cpu_eq henum ha hb

/-- Two cores with an L3 each. -/
def splitL3Cpus : List Linux.CpuEntry :=
  [⟨0, 1024, 0, some 0, some 0⟩, ⟨1, 1024, 0, some 1, some 1⟩]

/-- The records of the same machine. -/
def splitL3Records : List Windows.Information :=
  [.numaNode 0 ⟨3, 0⟩, .cache 3 [⟨1, 0⟩], .cache 3 [⟨2, 0⟩],
    .processorCore 0 [⟨1, 0⟩], .processorCore 0 [⟨2, 0⟩]]

theorem groupsAsReported_iff_splitL3 :
    (∃ tree, Linux.buildTopoTree (Linux.sysfsOf splitL3Cpus) = some tree ∧
      Linux.GroupsAsReported splitL3Cpus tree) ∧
      Windows.GroupsAsReported splitL3Records
        (Windows.buildTopoTree (some splitL3Records)) := by
  obtain ⟨⟨tree, htree, hlinux⟩, hwindows⟩ := groupsAsReported_iff
    (show Linux.enumerate (Linux.sysfsOf splitL3Cpus) = some splitL3Cpus
      by decide) splitL3Records
  exact ⟨⟨tree, htree, hlinux.mpr (by decide)⟩, hwindows.mpr (by decide)⟩

/-- A core with an L3 and a low-power core outside it. -/
def lowPowerCpus : List Linux.CpuEntry :=
  [⟨0, 1024, 0, some 0, some 0⟩, ⟨1, 1024, 0, none, some 1⟩]

/-- The records of the same machine. -/
def lowPowerRecords : List Windows.Information :=
  [.numaNode 0 ⟨3, 0⟩, .cache 3 [⟨1, 0⟩], .processorCore 0 [⟨1, 0⟩],
    .processorCore 0 [⟨2, 0⟩]]

/-- Both trees put the low-power core in the LLC group of the L3. -/
theorem not_groupsAsReported_lowPower :
    Linux.enumerate (Linux.sysfsOf lowPowerCpus) = some lowPowerCpus ∧
      (∃ tree, Linux.buildTopoTree (Linux.sysfsOf lowPowerCpus) = some tree ∧
        Linux.SameLlcGroup tree 0 1 ∧
        ¬Linux.GroupsAsReported lowPowerCpus tree) ∧
      (Windows.buildTopoTree (some lowPowerRecords)).numaNodes.map
          (fun node => node.llcGroups.map fun llc => llc.cores.map (·.coreId)) =
        [[[0, 1]]] ∧
      ¬Windows.GroupsAsReported lowPowerRecords
        (Windows.buildTopoTree (some lowPowerRecords)) := by
  refine ⟨by decide, ⟨Linux.treeOf lowPowerCpus, by decide, by decide, ?_⟩,
    by decide, ?_⟩
  · intro h
    have hllc := (h ⟨0, 1024, 0, some 0, some 0⟩ (by decide)
      ⟨1, 1024, 0, none, some 1⟩ (by decide) (by decide) rfl).1
    exact absurd (hllc.mp (by decide)) (by decide)
  · rw [Windows.groupsAsReported_buildTopoTree_iff]
    decide

end BenchBox
