import BenchBox.Threading.Windows.Builder
import Mathlib.Data.List.Induction

/-!
# The tree of a list of records

The first pass leaves for each processor the last record that covers it, and the
second keeps every core record under a key of its own.
-/

namespace BenchBox
namespace Windows

open Std NestedMap

/-! ## What the first pass leaves -/

/-- One of the masks has the processor. -/
def Covers (groupMasks : List GroupAffinity) (p : Processor) : Prop :=
  p ∈ groupMasks.flatMap (·.processors)

instance (groupMasks : List GroupAffinity) (p : Processor) :
    Decidable (Covers groupMasks p) :=
  inferInstanceAs (Decidable (_ ∈ _))

/-- The NUMA records, as the node and its mask. -/
def numaRecords (records : List Information) : List (ℕ × List GroupAffinity) :=
  records.filterMap fun
    | .numaNode nodeNumber groupMask => some (nodeNumber, [groupMask])
    | _ => none

/-- The masks of the L3 cache records. -/
def l3Records (records : List Information) : List (List GroupAffinity) :=
  records.filterMap fun
    | .cache level groupMasks => if level = 3 then some groupMasks else none
    | _ => none

/-- The L3 records with their numbers. -/
def numberedL3 (records : List Information) : List (ℕ × List GroupAffinity) :=
  (l3Records records).zipIdx.map Prod.swap

/-- The label of the last of the labelled masks that have the processor. -/
def lastCovering (labelled : List (ℕ × List GroupAffinity)) (p : Processor) :
    Option ℕ :=
  (labelled.filter fun r => Covers r.2 p).getLast?.map (·.1)

theorem lastCovering_concat (labelled : List (ℕ × List GroupAffinity))
    (r : ℕ × List GroupAffinity) (p : Processor) :
    lastCovering (labelled ++ [r]) p =
      if Covers r.2 p then some r.1 else lastCovering labelled p := by
  rw [lastCovering, List.filter_append]
  by_cases hp : Covers r.2 p
  · simp [hp]
  · simp [hp, lastCovering]

theorem lastCovering_eq_none_iff {labelled : List (ℕ × List GroupAffinity)}
    {p : Processor} :
    lastCovering labelled p = none ↔ ∀ r ∈ labelled, ¬Covers r.2 p := by
  simp [lastCovering]

theorem exists_of_lastCovering_eq_some
    {labelled : List (ℕ × List GroupAffinity)} {p : Processor} {v : ℕ}
    (h : lastCovering labelled p = some v) :
    ∃ groupMasks, (v, groupMasks) ∈ labelled ∧ Covers groupMasks p := by
  rw [lastCovering, Option.map_eq_some_iff] at h
  obtain ⟨⟨v, groupMasks⟩, hlast, rfl⟩ := h
  have hmem := List.mem_filter.mp (List.mem_of_getLast? hlast)
  exact ⟨groupMasks, hmem.1, of_decide_eq_true hmem.2⟩

theorem entry_insert (m : ProcessorMap) (q p : Processor) (v : ℕ) :
    entry (modifyAt m q.1 ∅ fun row => row.insert q.2 v) p =
      if p = q then some v else entry m p := by
  obtain ⟨g, b⟩ := q
  obtain ⟨g', b'⟩ := p
  simp only [entry, getElem?_modifyAt, Prod.mk.injEq]
  by_cases hg : g' = g
  · subst hg
    by_cases hb : b' = b
    · simp [hb]
    · simp [TreeMap.getElem?_insert, getElem?_getD_empty, hb, Ne.symm hb]
  · simp [hg]

theorem entry_assign (v : ℕ) (m : ProcessorMap) (gm : GroupAffinity)
    (p : Processor) :
    entry (assign v m gm) p =
      if p ∈ gm.processors then some v else entry m p := by
  rw [assign]
  induction gm.processors generalizing m with
  | nil => simp
  | cons q processors ih =>
      rw [List.foldl_cons, ih, entry_insert]
      by_cases hp : p = q <;> by_cases hmem : p ∈ processors <;>
        simp [hp, hmem]

theorem entry_foldl_assign (v : ℕ) (m : ProcessorMap)
    (groupMasks : List GroupAffinity) (p : Processor) :
    entry (groupMasks.foldl (assign v) m) p =
      if Covers groupMasks p then some v else entry m p := by
  induction groupMasks generalizing m with
  | nil => simp [Covers]
  | cons gm groupMasks ih =>
      rw [List.foldl_cons, ih, entry_assign]
      by_cases hp : p ∈ gm.processors <;>
        by_cases hmem : Covers groupMasks p <;>
          simp_all [Covers]

/-- What the first pass has stored after the records read so far. -/
structure ScanInvariant (records : List Information) (s : Scan) : Prop where
  llcCounter : s.llcCounter = (l3Records records).length
  cpuToNuma : ∀ p, entry s.cpuToNuma p = lastCovering (numaRecords records) p
  cpuToLlc : ∀ p, entry s.cpuToLlc p = lastCovering (numberedL3 records) p

theorem scanInvariant_scanRecord {records : List Information} {s : Scan}
    (h : ScanInvariant records s) (r : Information) :
    ScanInvariant (records ++ [r]) (scanRecord s r) := by
  obtain ⟨hcounter, hnuma, hllc⟩ := h
  have hsame (hn : numaRecords (records ++ [r]) = numaRecords records)
      (hl : l3Records (records ++ [r]) = l3Records records) :
      ScanInvariant (records ++ [r]) s := by
    constructor
    · rw [hl, hcounter]
    · rw [hn]
      exact hnuma
    · rw [numberedL3, hl]
      exact hllc
  cases r with
  | numaNode nodeNumber groupMask =>
      have hn : numaRecords (records ++ [.numaNode nodeNumber groupMask]) =
          numaRecords records ++ [(nodeNumber, [groupMask])] := by
        simp [numaRecords]
      have hl : l3Records (records ++ [.numaNode nodeNumber groupMask]) =
          l3Records records := by
        simp [l3Records]
      constructor
      · rw [hl]
        exact hcounter
      · intro p
        rw [scanRecord, entry_assign, hn, lastCovering_concat, hnuma]
        simp [Covers]
      · rw [numberedL3, hl]
        exact hllc
  | cache level groupMasks =>
      have hn : numaRecords (records ++ [.cache level groupMasks]) =
          numaRecords records := by
        simp [numaRecords]
      rw [scanRecord]
      by_cases hlevel : level = 3
      · have hl : l3Records (records ++ [.cache level groupMasks]) =
            l3Records records ++ [groupMasks] := by
          simp [l3Records, hlevel]
        have hnumbered : numberedL3 (records ++ [.cache level groupMasks]) =
            numberedL3 records ++ [(s.llcCounter, groupMasks)] := by
          rw [numberedL3, hl, hcounter]
          simp [numberedL3, List.zipIdx_append]
        rw [if_pos hlevel]
        constructor
        · rw [hl, List.length_append, List.length_singleton, ← hcounter]
        · rw [hn]
          exact hnuma
        · intro p
          rw [entry_foldl_assign, hnumbered, lastCovering_concat, hllc]
      · rw [if_neg hlevel]
        exact hsame hn (by simp [l3Records, hlevel])
  | processorCore efficiencyClass groupMask =>
      exact hsame (by simp [numaRecords]) (by simp [l3Records])
  | other => exact hsame (by simp [numaRecords]) (by simp [l3Records])

theorem scanInvariant_scan (records : List Information) :
    ScanInvariant records (records.foldl scanRecord {}) := by
  induction records using List.reverseRecOn with
  | nil =>
      constructor
      · rfl
      · intro p
        simp [entry, numaRecords, lastCovering]
      · intro p
        simp [entry, numberedL3, l3Records, lastCovering]
  | append_singleton records r ih =>
      rw [List.foldl_append, List.foldl_cons, List.foldl_nil]
      exact scanInvariant_scanRecord ih r

/-! ## What the second pass keeps -/

/-- One core record with its number among them. -/
structure CoreEntry where
  coreId : ℕ
  efficiencyClass : ℕ
  processors : List Processor
deriving DecidableEq, Repr

/-- The core records, numbered from `counter`. -/
def coreEntries (counter : ℕ) : List Information → List CoreEntry
  | [] => []
  | .processorCore efficiencyClass groupMask :: records =>
      ⟨counter, efficiencyClass, groupMask.flatMap (·.processors)⟩ ::
        coreEntries (counter + 1) records
  | _ :: records => coreEntries counter records

namespace CoreEntry

/-- The core of a record, before classes are ranked. -/
def core (e : CoreEntry) : Core where
  coreId := e.coreId
  perfLevel := e.efficiencyClass
  threads := e.processors.mapIdx fun i p =>
    { threadIndex := i, coreId := e.coreId, osId := p.2, groupId := p.1 }

/-- The node of the last processor, zero if no NUMA record has it. -/
def nodeId (records : List Information) (e : CoreEntry) : ℕ :=
  (e.processors.getLast?.bind (lastCovering (numaRecords records))).getD 0

/-- The number of the last L3 record with the first processor, zero if there is
none. -/
def llcId (records : List Information) (e : CoreEntry) : ℕ :=
  (e.processors.head?.bind (lastCovering (numberedL3 records))).getD 0

/-- Where the map of cores keeps the record. -/
def key (records : List Information) (e : CoreEntry) : ℕ × ℕ × ℕ :=
  (e.nodeId records, e.llcId records, e.coreId)

end CoreEntry

theorem foldl_addThread (cpuToNuma : ProcessorMap) (e : CoreEntry) :
    e.processors.foldl (addThread cpuToNuma)
        ({ coreId := e.coreId, perfLevel := e.efficiencyClass }, 0) =
      (e.core, (e.processors.getLast?.map (read cpuToNuma)).getD 0) := by
  obtain ⟨coreId, efficiencyClass, processors⟩ := e
  dsimp only
  induction processors using List.reverseRecOn with
  | nil => rfl
  | append_singleton processors p ih =>
      rw [List.foldl_append, ih, List.foldl_cons, List.foldl_nil, addThread]
      simp [CoreEntry.core, List.mapIdx_append]

theorem nodeId_eq {records : List Information} {scan : Scan}
    (hscan : ScanInvariant records scan) (e : CoreEntry) :
    (e.processors.getLast?.map (read scan.cpuToNuma)).getD 0 =
      e.nodeId records := by
  rw [CoreEntry.nodeId]
  cases e.processors.getLast? with
  | none => rfl
  | some p => simp [read, hscan.cpuToNuma]

theorem readLlcId_threads {records : List Information} {scan : Scan}
    (hscan : ScanInvariant records scan) (e : CoreEntry) :
    readLlcId scan.cpuToLlc e.core.threads = e.llcId records := by
  rw [CoreEntry.llcId, CoreEntry.core]
  cases e.processors with
  | nil => rfl
  | cons p processors =>
      simp [List.mapIdx_cons, readLlcId, read, hscan.cpuToLlc]

/-- A round of the second pass keeps a core record under its key. -/
theorem insertCore_processorCore {records : List Information} {scan : Scan}
    (hscan : ScanInvariant records scan) (s : CoreScan) (efficiencyClass : ℕ)
    (groupMask : List GroupAffinity) :
    let e : CoreEntry := ⟨s.coreCounter, efficiencyClass,
      groupMask.flatMap (·.processors)⟩
    insertCore scan s (.processorCore efficiencyClass groupMask) =
      { topo := update s.topo (e.key records) {} fun _ => e.core
        effClasses := s.effClasses.insert efficiencyClass
        coreCounter := s.coreCounter + 1 } := by
  intro e
  have hfold : (groupMask.flatMap (·.processors)).foldl
      (addThread scan.cpuToNuma)
      ({ coreId := s.coreCounter, perfLevel := efficiencyClass }, 0) = _ :=
    foldl_addThread scan.cpuToNuma e
  rw [insertCore, hfold]
  dsimp only
  rw [nodeId_eq hscan, readLlcId_threads hscan]
  rfl

/-- The second pass updates the map once for each core record. -/
theorem topo_foldl_insertCore {records : List Information} {scan : Scan}
    (hscan : ScanInvariant records scan) (rest : List Information)
    (s : CoreScan) :
    (rest.foldl (insertCore scan) s).topo =
      (coreEntries s.coreCounter rest).foldl
        (fun m e => update m (e.key records) {} fun _ => e.core) s.topo := by
  induction rest generalizing s with
  | nil => rfl
  | cons r rest ih =>
      rw [List.foldl_cons, ih]
      cases r with
      | processorCore efficiencyClass groupMask =>
          rw [insertCore_processorCore hscan]
          rfl
      | numaNode nodeNumber groupMask => rfl
      | cache level groupMasks => rfl
      | other => rfl

theorem le_coreId_of_mem_coreEntries {counter : ℕ}
    {records : List Information} {e : CoreEntry}
    (he : e ∈ coreEntries counter records) : counter ≤ e.coreId := by
  induction records generalizing counter with
  | nil => exact absurd he List.not_mem_nil
  | cons r records ih =>
      cases r with
      | processorCore efficiencyClass groupMask =>
          rcases List.mem_cons.mp he with rfl | he
          · exact Nat.le_refl _
          · exact Nat.le_of_succ_le (ih he)
      | numaNode nodeNumber groupMask => exact ih he
      | cache level groupMasks => exact ih he
      | other => exact ih he

/-- The core records have distinct numbers. -/
theorem nodup_coreId_coreEntries (counter : ℕ) (records : List Information) :
    ((coreEntries counter records).map (·.coreId)).Nodup := by
  induction records generalizing counter with
  | nil => exact List.nodup_nil
  | cons r records ih =>
      cases r with
      | processorCore efficiencyClass groupMask =>
          rw [coreEntries, List.map_cons, List.nodup_cons]
          refine ⟨?_, ih (counter + 1)⟩
          intro hmem
          obtain ⟨e, he, heq⟩ := List.mem_map.mp hmem
          have hle := le_coreId_of_mem_coreEntries he
          dsimp only at heq
          omega
      | numaNode nodeNumber groupMask => exact ih counter
      | cache level groupMasks => exact ih counter
      | other => exact ih counter

/-- The map of cores before the classes are ranked. -/
def topoOf (records : List Information) : CoreMap :=
  collect (CoreEntry.key records) {} (fun e _ => e.core)
    (coreEntries 0 records)

/-- Rounds that overwrite the core leave the last one. -/
theorem foldl_core (es : List CoreEntry) (c : Core) :
    es.foldl (fun _ e => e.core) c = (es.getLast?.map (·.core)).getD c := by
  induction es using List.reverseRecOn with
  | nil => rfl
  | append_singleton es e ih => simp

/-- The map holds the core of each record under its key, and nothing else. -/
theorem lookup_topoOf_eq_some_iff {records : List Information}
    {k : ℕ × ℕ × ℕ} {core : Core} :
    lookup (topoOf records) k = some core ↔
      ∃ e ∈ coreEntries 0 records, e.key records = k ∧ e.core = core := by
  rw [topoOf, lookup_collect, foldl_core]
  constructor
  · intro h
    split at h
    next => exact absurd h (by simp)
    next hne =>
      have hlast := List.getLast?_eq_some_getLast hne
      obtain ⟨hmem, hkey⟩ := List.mem_filter.mp (List.getLast_mem hne)
      rw [hlast, Option.map_some, Option.getD_some, Option.some.injEq] at h
      exact ⟨_, hmem, of_decide_eq_true hkey, h⟩
  · intro hexists
    rcases hexists with ⟨e, he, rfl, rfl⟩
    have hne : (coreEntries 0 records).filter
        (fun d => d.key records = e.key records) ≠ [] :=
      List.ne_nil_of_mem (List.mem_filter.mpr ⟨he, decide_eq_true rfl⟩)
    obtain ⟨hmem, hkey⟩ := List.mem_filter.mp (List.getLast_mem hne)
    have hcoreId := congrArg (·.2.2) (of_decide_eq_true hkey)
    have hlast := List.inj_on_of_nodup_map (nodup_coreId_coreEntries 0 records)
      hmem he hcoreId
    rw [if_neg hne, List.getLast?_eq_some_getLast hne, hlast]
    rfl

/-! ## The tree -/

/-- The tiers of the efficiency classes of all core records. -/
def tiers (records : List Information) : TreeMap ℕ ℕ :=
  effToTier
    (records.foldl (insertCore (records.foldl scanRecord {})) {}).effClasses

/-- The core of a record as the tree holds it. -/
def CoreEntry.rankedCore (records : List Information) (e : CoreEntry) : Core :=
  { e.core with perfLevel := (tiers records).getD e.efficiencyClass 0 }

/-- The map of cores after the classes are ranked. -/
def rankedTopo (records : List Information) : CoreMap :=
  mapValues (fun c : Core =>
    { c with perfLevel := (tiers records).getD c.perfLevel 0 }) (topoOf records)

theorem buildTopoTree_eq (records : List Information) :
    buildTopoTree (some records) =
      ⟨flattenTopo (rankedTopo records), (tiers records).size⟩ := by
  rw [buildTopoTree, finishTree,
    topo_foldl_insertCore (scanInvariant_scan records)]
  rfl

theorem lookup_rankedTopo_eq_some_iff {records : List Information}
    {k : ℕ × ℕ × ℕ} {core : Core} :
    lookup (rankedTopo records) k = some core ↔
      ∃ e ∈ coreEntries 0 records, e.key records = k ∧
        e.rankedCore records = core := by
  rw [rankedTopo, lookup_mapValues, Option.map_eq_some_iff]
  constructor
  · intro h
    rcases h with ⟨c, hc, rfl⟩
    obtain ⟨e, he, hkey, rfl⟩ := lookup_topoOf_eq_some_iff.mp hc
    exact ⟨e, he, hkey, rfl⟩
  · intro h
    rcases h with ⟨e, he, hkey, rfl⟩
    exact ⟨e.core, lookup_topoOf_eq_some_iff.mpr ⟨e, he, hkey, rfl⟩, rfl⟩

/-- The tree holds exactly the cores of the core records. -/
theorem holds_buildTopoTree_iff {records : List Information}
    {nodeId llcId : ℕ} {core : Core} :
    (buildTopoTree (some records)).Holds nodeId llcId core ↔
      ∃ e ∈ coreEntries 0 records, e.nodeId records = nodeId ∧
        e.llcId records = llcId ∧ e.rankedCore records = core := by
  rw [buildTopoTree_eq, holds_flattenTopo_iff]
  constructor
  · intro h
    rcases h with ⟨coreId, hlookup⟩
    obtain ⟨e, he, hkey, hcore⟩ := lookup_rankedTopo_eq_some_iff.mp hlookup
    exact ⟨e, he, congrArg (·.1) hkey, congrArg (·.2.1) hkey, hcore⟩
  · intro h
    rcases h with ⟨e, he, rfl, rfl, hcore⟩
    exact ⟨e.coreId, lookup_rankedTopo_eq_some_iff.mpr ⟨e, he, rfl, hcore⟩⟩

theorem ordered_buildTopoTree (records : List Information) :
    (buildTopoTree (some records)).Ordered := by
  rw [buildTopoTree_eq]
  have hne : NoEmpty (rankedTopo records) :=
    noEmpty_mapValues _ (noEmpty_collect _ _ _ _)
  apply ordered_flattenTopo hne
  intro k core hlookup
  obtain ⟨e, -, rfl, rfl⟩ := lookup_rankedTopo_eq_some_iff.mp hlookup
  rfl

/-- The record of a core is determined by the core. -/
theorem eq_of_rankedCore_eq {records : List Information} {e d : CoreEntry}
    (he : e ∈ coreEntries 0 records) (hd : d ∈ coreEntries 0 records)
    (h : e.rankedCore records = d.rankedCore records) : e = d :=
  List.inj_on_of_nodup_map (nodup_coreId_coreEntries 0 records) he hd
    (congrArg Core.coreId h)

end Windows
end BenchBox
