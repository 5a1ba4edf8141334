import BenchBox.Support.Rank
import BenchBox.Threading.Windows.Tree

/-!
# Cores and performance tiers on Windows

The tree holds every core record once, numbered in the order of the records,
and the tier of a core is the rank of its efficiency class among the classes of
all core records.
-/

namespace BenchBox
namespace Windows

open Std

/-! ## The core records -/

/-- The core records, as the efficiency class and the masks. -/
def coreRecords (records : List Information) :
    List (ℕ × List GroupAffinity) :=
  records.filterMap fun
    | .processorCore efficiencyClass groupMask =>
        some (efficiencyClass, groupMask)
    | _ => none

/-- The efficiency classes of the core records. -/
def efficiencyClasses (records : List Information) : List ℕ :=
  (coreRecords records).map Prod.fst

/-- The threads of the processors of a core. -/
def threadsOf (coreId : ℕ) (groupMask : List GroupAffinity) :
    List LogicalProcessor :=
  (groupMask.flatMap (·.processors)).mapIdx fun i p =>
    { threadIndex := i, coreId := coreId, osId := p.2, groupId := p.1 }

theorem coreEntries_eq_mapIdx (counter : ℕ) (records : List Information) :
    coreEntries counter records =
      (coreRecords records).mapIdx fun i r =>
        ⟨counter + i, r.1, r.2.flatMap (·.processors)⟩ := by
  induction records generalizing counter with
  | nil => rfl
  | cons r records ih =>
      cases r with
      | processorCore efficiencyClass groupMask =>
          rw [coreEntries, ih (counter + 1)]
          simp [coreRecords, List.mapIdx_cons, Nat.add_comm, Nat.add_left_comm]
      | numaNode nodeNumber groupMask => exact ih counter
      | cache level groupMasks => exact ih counter
      | other => exact ih counter

theorem map_efficiencyClass_coreEntries (counter : ℕ)
    (records : List Information) :
    (coreEntries counter records).map (·.efficiencyClass) =
      efficiencyClasses records := by
  rw [coreEntries_eq_mapIdx, efficiencyClasses]
  apply List.ext_getElem?
  intro i
  simp [Function.comp_def]

/-! ## The map of tiers -/

/-- The second pass collects the classes of the core records. -/
theorem mem_effClasses_foldl_insertCore (scan : Scan)
    (records : List Information) (s : CoreScan) (c : ℕ) :
    c ∈ (records.foldl (insertCore scan) s).effClasses ↔
      c ∈ s.effClasses ∨ c ∈ efficiencyClasses records := by
  induction records generalizing s with
  | nil => simp [efficiencyClasses, coreRecords]
  | cons r records ih =>
      rw [List.foldl_cons, ih]
      cases r with
      | processorCore efficiencyClass groupMask =>
          simp only [insertCore, TreeSet.mem_insert,
            LawfulEqCmp.compare_eq_iff_eq, efficiencyClasses, coreRecords,
            List.filterMap_cons, List.map_cons, List.mem_cons]
          tauto
      | numaNode nodeNumber groupMask => rfl
      | cache level groupMasks => rfl
      | other => rfl

/-- Listed from the highest, the collected classes are the distinct classes of
the core records in descending order. -/
theorem reverse_toList_effClasses (records : List Information) :
    (records.foldl (insertCore (records.foldl scanRecord {}))
        {}).effClasses.toList.reverse =
      Rank.descending (efficiencyClasses records) := by
  apply Rank.eq_descending
  · rw [List.pairwise_reverse]
    exact TreeSet.ordered_toList.imp fun hlt => Nat.compare_eq_lt.mp hlt
  · intro c
    rw [List.mem_reverse, TreeSet.mem_toList, mem_effClasses_foldl_insertCore]
    simp

theorem tiers_eq_positions (records : List Information) :
    tiers records =
      Rank.positions (Rank.descending (efficiencyClasses records)) := by
  rw [tiers, effToTier, reverse_toList_effClasses]
  exact Rank.foldl_insert_size (Rank.nodup_descending _)

/-- The tier of a class is its rank. -/
theorem getD_tiers {records : List Information} {c : ℕ}
    (hc : c ∈ efficiencyClasses records) :
    (tiers records).getD c 0 = Rank.rank (efficiencyClasses records) c := by
  rw [TreeMap.getD_eq_getD_getElem?, tiers_eq_positions,
    Rank.getElem?_positions (Rank.nodup_descending _),
    if_pos (Rank.mem_descending_iff.mpr hc), Option.getD_some,
    Rank.idxOf_descending hc]

theorem size_tiers (records : List Information) :
    (tiers records).size =
      (Rank.descending (efficiencyClasses records)).length := by
  rw [tiers_eq_positions, Rank.size_positions (Rank.nodup_descending _)]

/-! ## The cores of the tree -/

/-- The core of the core record number `i`: its level counts the distinct higher
classes. -/
def coreOf (records : List Information) (i : ℕ)
    (r : ℕ × List GroupAffinity) : Core where
  coreId := i
  perfLevel := ((efficiencyClasses records).toFinset.filter (r.1 < ·)).card
  threads := threadsOf i r.2

theorem map_rankedCore_coreEntries (records : List Information) :
    (coreEntries 0 records).map (·.rankedCore records) =
      (coreRecords records).mapIdx (coreOf records) := by
  apply List.ext_getElem?
  intro i
  rw [coreEntries_eq_mapIdx, List.getElem?_map, List.getElem?_mapIdx,
    List.getElem?_mapIdx, Option.map_map]
  cases hr : (coreRecords records)[i]? with
  | none => rfl
  | some r =>
      have hclass : r.1 ∈ efficiencyClasses records :=
        List.mem_map_of_mem (List.mem_of_getElem? hr)
      rw [Option.map_some, Option.map_some, Function.comp_apply,
        CoreEntry.rankedCore, getD_tiers hclass, Nat.zero_add]
      rfl

/-- The tree lists the core of each record once. -/
theorem cores_buildTopoTree_perm (records : List Information) :
    (buildTopoTree (some records)).cores.Perm
      ((coreEntries 0 records).map (·.rankedCore records)) := by
  have hentries : ((coreEntries 0 records).map
      (·.rankedCore records)).Nodup := by
    apply (List.Nodup.of_map _ (nodup_coreId_coreEntries 0 records)).map_on
    exact fun e he d hd h => eq_of_rankedCore_eq he hd h
  have hkeyed : (buildTopoTree (some records)).keyedCores.Nodup :=
    (ordered_buildTopoTree records).nodup_keys.of_map _
  have hcores : (buildTopoTree (some records)).cores.Nodup := by
    rw [← TopologyTree.map_snd_keyedCores]
    apply hkeyed.map_on
    intro a ha b hb hcore
    obtain ⟨k, core⟩ := a
    obtain ⟨k', core'⟩ := b
    obtain rfl : core = core' := hcore
    obtain ⟨hholds, hid⟩ := TopologyTree.mem_keyedCores_iff.mp ha
    obtain ⟨hholds', hid'⟩ := TopologyTree.mem_keyedCores_iff.mp hb
    obtain ⟨e, he, hnode, hllc, rfl⟩ := holds_buildTopoTree_iff.mp hholds
    obtain ⟨d, hd, hnode', hllc', heq⟩ := holds_buildTopoTree_iff.mp hholds'
    obtain rfl := eq_of_rankedCore_eq hd he heq
    have hkey : k = k' := Prod.ext (hnode.symm.trans hnode')
      (Prod.ext (hllc.symm.trans hllc') (hid.symm.trans hid'))
    rw [hkey]
  rw [List.perm_ext_iff_of_nodup hcores hentries]
  intro core
  rw [TopologyTree.mem_cores_iff, List.mem_map]
  constructor
  · intro h
    obtain ⟨nodeId, llcId, hholds⟩ := h
    obtain ⟨e, he, -, -, hcore⟩ := holds_buildTopoTree_iff.mp hholds
    exact ⟨e, he, hcore⟩
  · intro h
    obtain ⟨e, he, hcore⟩ := h
    exact ⟨_, _, holds_buildTopoTree_iff.mpr ⟨e, he, rfl, rfl, hcore⟩⟩

/-- The tree holds the core records exactly once each, numbered in order, with
the processors of their masks as threads.  Tiers count the distinct higher
classes, and no tier is without a core. -/
theorem buildTopoTree_cores (records : List Information) :
    (buildTopoTree (some records)).cores.Perm
        ((coreRecords records).mapIdx (coreOf records)) ∧
      (buildTopoTree (some records)).perfLevelCount =
        (efficiencyClasses records).toFinset.card ∧
      ∀ level < (buildTopoTree (some records)).perfLevelCount,
        ∃ core ∈ (buildTopoTree (some records)).cores,
          core.perfLevel = level := by
  have hperm := cores_buildTopoTree_perm records
  have hcount : (buildTopoTree (some records)).perfLevelCount =
      (Rank.descending (efficiencyClasses records)).length := by
    rw [buildTopoTree_eq, size_tiers]
  refine ⟨?_, by rw [hcount, Rank.length_descending], ?_⟩
  · rwa [map_rankedCore_coreEntries] at hperm
  · intro level hlevel
    rw [hcount] at hlevel
    obtain ⟨c, hc, hrank⟩ := Rank.exists_rank_eq hlevel
    have hclass := hc
    rw [← map_efficiencyClass_coreEntries 0, List.mem_map] at hc
    obtain ⟨e, he, rfl⟩ := hc
    refine ⟨e.rankedCore records,
      hperm.mem_iff.mpr (List.mem_map_of_mem he), ?_⟩
    exact (getD_tiers hclass).trans hrank

end Windows
end BenchBox
