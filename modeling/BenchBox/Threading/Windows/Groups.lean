import BenchBox.Threading.Windows.Tree

/-!
# Missing cache records on Windows

A processor without an L3 record gets the id zero, which is also the number of
the first L3 record; one with several gets the number of the last.
-/

namespace BenchBox
namespace Windows

/-- One L3 record has both processors, or none has either. -/
def SharesL3 (records : List Information) (p q : Processor) : Prop :=
  (∃ groupMasks ∈ l3Records records, Covers groupMasks p ∧ Covers groupMasks q) ∨
    ∀ groupMasks ∈ l3Records records,
      ¬Covers groupMasks p ∧ ¬Covers groupMasks q

/-- Cores of one node share an LLC group if their first threads share an L3. -/
def GroupsAsReported (records : List Information) (tree : TopologyTree) :
    Prop :=
  ∀ node ∈ tree.numaNodes,
    ∀ c, (∃ llc ∈ node.llcGroups, c ∈ llc.cores) →
    ∀ d, (∃ llc ∈ node.llcGroups, d ∈ llc.cores) →
    ∀ s t, c.threads.head? = some s → d.threads.head? = some t →
      ((∃ llc ∈ node.llcGroups, c ∈ llc.cores ∧ d ∈ llc.cores) ↔
        SharesL3 records (s.groupId, s.osId) (t.groupId, t.osId))

/-- For core records of one NUMA node: none whose first processor is outside
every L3 record goes with one whose last L3 record is the first, and no two that
share an L3 record have different last ones. -/
def DefaultsUnambiguous (records : List Information) : Prop :=
  ∀ e ∈ coreEntries 0 records, ∀ d ∈ coreEntries 0 records,
    e.nodeId records = d.nodeId records →
    ∀ p ∈ e.processors.head?, ∀ q ∈ d.processors.head?,
      ¬(lastCovering (numberedL3 records) p = none ∧
        lastCovering (numberedL3 records) q = some 0) ∧
      ¬((∃ groupMasks ∈ l3Records records,
          Covers groupMasks p ∧ Covers groupMasks q) ∧
        lastCovering (numberedL3 records) p ≠
          lastCovering (numberedL3 records) q)

instance (records : List Information) :
    Decidable (DefaultsUnambiguous records) :=
  inferInstanceAs (Decidable (∀ e ∈ coreEntries 0 records, _))

/-! ## The number of an L3 record -/

theorem mem_numberedL3_iff {records : List Information} {i : ℕ}
    {groupMasks : List GroupAffinity} :
    (i, groupMasks) ∈ numberedL3 records ↔
      (l3Records records)[i]? = some groupMasks := by
  simp only [numberedL3, List.mem_map, Prod.exists, Prod.swap_prod_mk,
    Prod.mk.injEq, List.mem_zipIdx_iff_getElem?]
  constructor
  · intro h
    rcases h with ⟨_, _, hget, rfl, rfl⟩
    exact hget
  · exact fun hget => ⟨_, _, hget, rfl, rfl⟩

/-- A processor has no L3 number if no L3 record has it. -/
theorem lastCovering_numberedL3_eq_none_iff {records : List Information}
    {p : Processor} :
    lastCovering (numberedL3 records) p = none ↔
      ∀ groupMasks ∈ l3Records records, ¬Covers groupMasks p := by
  rw [lastCovering_eq_none_iff]
  constructor
  · intro h groupMasks hmem
    obtain ⟨i, hget⟩ := List.mem_iff_getElem?.mp hmem
    exact h (i, groupMasks) (mem_numberedL3_iff.mpr hget)
  · rintro h ⟨i, groupMasks⟩ hmem
    exact h groupMasks
      (List.mem_of_getElem? (mem_numberedL3_iff.mp hmem))

/-- Processors with the same L3 number share that record. -/
theorem exists_covers_of_lastCovering_eq {records : List Information}
    {p q : Processor} {i : ℕ}
    (hp : lastCovering (numberedL3 records) p = some i)
    (hq : lastCovering (numberedL3 records) q = some i) :
    ∃ groupMasks ∈ l3Records records,
      Covers groupMasks p ∧ Covers groupMasks q := by
  obtain ⟨masks, hmem, hcovers⟩ := exists_of_lastCovering_eq_some hp
  obtain ⟨masks', hmem', hcovers'⟩ := exists_of_lastCovering_eq_some hq
  rw [mem_numberedL3_iff] at hmem hmem'
  obtain rfl : masks = masks' := Option.some.inj (hmem.symm.trans hmem')
  exact ⟨masks, List.mem_of_getElem? hmem, hcovers, hcovers'⟩

theorem not_exists_covers_of_eq_none {records : List Information}
    {p : Processor} (hp : lastCovering (numberedL3 records) p = none)
    (q : Processor) :
    ¬∃ groupMasks ∈ l3Records records,
      Covers groupMasks p ∧ Covers groupMasks q := by
  intro hshared
  rcases hshared with ⟨groupMasks, hmem, hcovers, -⟩
  exact lastCovering_numberedL3_eq_none_iff.mp hp groupMasks hmem hcovers

theorem exists_covers_comm {records : List Information} {p q : Processor} :
    (∃ groupMasks ∈ l3Records records,
        Covers groupMasks p ∧ Covers groupMasks q) ↔
      ∃ groupMasks ∈ l3Records records,
        Covers groupMasks q ∧ Covers groupMasks p := by
  simp only [and_comm (a := Covers _ p)]

/-- A processor outside every L3 shares with those that are outside too. -/
theorem sharesL3_iff_of_eq_none {records : List Information}
    {p q : Processor} (hp : lastCovering (numberedL3 records) p = none) :
    SharesL3 records p q ↔ lastCovering (numberedL3 records) q = none := by
  have hfree := lastCovering_numberedL3_eq_none_iff.mp hp
  rw [lastCovering_numberedL3_eq_none_iff]
  constructor
  · intro hshares
    rcases hshares with hshared | hneither
    · exact absurd hshared (not_exists_covers_of_eq_none hp q)
    · exact fun groupMasks hmem => (hneither groupMasks hmem).2
  · intro hfree'
    exact Or.inr fun groupMasks hmem =>
      ⟨hfree groupMasks hmem, hfree' groupMasks hmem⟩

/-- A processor in an L3 shares with those in one of its L3 records. -/
theorem sharesL3_iff_of_eq_some {records : List Information}
    {p q : Processor} {i : ℕ}
    (hp : lastCovering (numberedL3 records) p = some i) :
    SharesL3 records p q ↔
      ∃ groupMasks ∈ l3Records records,
        Covers groupMasks p ∧ Covers groupMasks q := by
  refine ⟨?_, Or.inl⟩
  intro hshares
  rcases hshares with hshared | hneither
  · exact hshared
  · have hnone := lastCovering_numberedL3_eq_none_iff.mpr
      fun groupMasks hmem => (hneither groupMasks hmem).1
    exact absurd (hp.symm.trans hnone) (by simp)

/-- Two processors get the same id exactly if they share an L3, provided they
are not confused. -/
theorem getD_lastCovering_eq_iff {records : List Information}
    {p q : Processor} :
    let l3 := lastCovering (numberedL3 records)
    ((l3 p).getD 0 = (l3 q).getD 0 ↔ SharesL3 records p q) ↔
      ¬(l3 p = none ∧ l3 q = some 0) ∧ ¬(l3 q = none ∧ l3 p = some 0) ∧
        ¬((∃ groupMasks ∈ l3Records records,
            Covers groupMasks p ∧ Covers groupMasks q) ∧ l3 p ≠ l3 q) := by
  intro l3
  cases hp : l3 p with
  | none =>
      have hapart := not_exists_covers_of_eq_none hp q
      rw [sharesL3_iff_of_eq_none hp]
      cases hq : l3 q with
      | none => simp [l3, hq, hapart]
      | some j => simp [l3, hq, hapart, eq_comm]
  | some i =>
      rw [sharesL3_iff_of_eq_some hp]
      cases hq : l3 q with
      | none =>
          have hapart := not_exists_covers_of_eq_none hq p
          rw [exists_covers_comm] at hapart
          simp [hapart]
      | some j =>
          have hsame : i = j → ∃ groupMasks ∈ l3Records records,
              Covers groupMasks p ∧ Covers groupMasks q := by
            rintro rfl
            exact exists_covers_of_lastCovering_eq hp hq
          simp only [Option.getD_some, reduceCtorEq, false_and, not_false_eq_true,
            true_and, ne_eq, Option.some.injEq]
          constructor
          · exact fun h hbad => hbad.2 (h.mpr hbad.1)
          · intro h
            exact ⟨hsame, fun hshare =>
              Decidable.byContradiction fun hne => h ⟨hshare, hne⟩⟩

/-! ## Cores of one node -/

theorem exists_of_threads_head? {records : List Information} {e : CoreEntry}
    {s : LogicalProcessor} (h : (e.rankedCore records).threads.head? = some s) :
    e.processors.head? = some (s.groupId, s.osId) := by
  rw [CoreEntry.rankedCore, CoreEntry.core] at h
  cases hprocessors : e.processors with
  | nil => simp [hprocessors] at h
  | cons p processors =>
      rw [hprocessors, List.mapIdx_cons, List.head?_cons,
        Option.some.injEq] at h
      rw [← h, List.head?_cons]

theorem threads_head?_of_processors {records : List Information}
    {e : CoreEntry} {p : Processor} (h : e.processors.head? = some p) :
    (e.rankedCore records).threads.head? =
      some { threadIndex := 0, coreId := e.coreId, osId := p.2,
             groupId := p.1 } := by
  rw [CoreEntry.rankedCore, CoreEntry.core]
  cases hprocessors : e.processors with
  | nil => simp [hprocessors] at h
  | cons q processors =>
      rw [hprocessors, List.head?_cons, Option.some.injEq] at h
      rw [h, List.mapIdx_cons, List.head?_cons]

theorem llcId_of_processors {records : List Information} {e : CoreEntry}
    {p : Processor} (h : e.processors.head? = some p) :
    e.llcId records = (lastCovering (numberedL3 records) p).getD 0 := by
  rw [CoreEntry.llcId, h]
  rfl

/-- A node of the tree holds the cores of its records. -/
theorem exists_llcGroup_iff {records : List Information} {node : NumaNode}
    (hnode : node ∈ (buildTopoTree (some records)).numaNodes) {c : Core} :
    (∃ llc ∈ node.llcGroups, c ∈ llc.cores) ↔
      ∃ e ∈ coreEntries 0 records, e.nodeId records = node.nodeId ∧
        e.rankedCore records = c := by
  constructor
  · intro h
    rcases h with ⟨llc, hllc, hc⟩
    obtain ⟨e, he, hid, -, hcore⟩ := holds_buildTopoTree_iff.mp
      ⟨node, hnode, rfl, llc, hllc, rfl, hc⟩
    exact ⟨e, he, hid, hcore⟩
  · intro h
    rcases h with ⟨e, he, hid, rfl⟩
    obtain ⟨node', hnode', hid', llc, hllc, -, hc⟩ :=
      holds_buildTopoTree_iff.mpr ⟨e, he, rfl, rfl, rfl⟩
    obtain rfl := (ordered_buildTopoTree records).eq_of_nodeId_eq hnode hnode'
      (hid.symm.trans hid'.symm)
    exact ⟨llc, hllc, hc⟩

/-- Cores of one node share an LLC group if they have the same LLC id. -/
theorem sameLlcGroup_iff {records : List Information} {node : NumaNode}
    (hnode : node ∈ (buildTopoTree (some records)).numaNodes)
    {e d : CoreEntry} (he : e ∈ coreEntries 0 records)
    (hd : d ∈ coreEntries 0 records) (heNode : e.nodeId records = node.nodeId)
    (hdNode : d.nodeId records = node.nodeId) :
    (∃ llc ∈ node.llcGroups, e.rankedCore records ∈ llc.cores ∧
        d.rankedCore records ∈ llc.cores) ↔
      e.llcId records = d.llcId records := by
  have hllcId {x : CoreEntry} (hx : x ∈ coreEntries 0 records)
      {llc : LlcGroup} (hllc : llc ∈ node.llcGroups)
      (hcore : x.rankedCore records ∈ llc.cores) :
      x.llcId records = llc.llcId := by
    obtain ⟨y, hy, -, hid, heq⟩ := holds_buildTopoTree_iff.mp
      ⟨node, hnode, rfl, llc, hllc, rfl, hcore⟩
    rw [← eq_of_rankedCore_eq hy hx heq, hid]
  constructor
  · intro h
    rcases h with ⟨llc, hllc, hcore, hcore'⟩
    rw [hllcId he hllc hcore, hllcId hd hllc hcore']
  · intro hid
    obtain ⟨llc, hllc, hcore⟩ :=
      (exists_llcGroup_iff hnode).mpr ⟨e, he, heNode, rfl⟩
    obtain ⟨llc', hllc', hcore'⟩ :=
      (exists_llcGroup_iff hnode).mpr ⟨d, hd, hdNode, rfl⟩
    have hids : llc.llcId = llc'.llcId := by
      rw [← hllcId he hllc hcore, hid, hllcId hd hllc' hcore']
    obtain rfl := (ordered_buildTopoTree records).eq_of_llcId_eq hnode hllc
      hllc' hids
    exact ⟨llc, hllc, hcore, hcore'⟩

/-- The tree groups cores as the records do exactly when no default is mistaken
for the number of a record. -/
theorem groupsAsReported_buildTopoTree_iff (records : List Information) :
    GroupsAsReported records (buildTopoTree (some records)) ↔
      DefaultsUnambiguous records := by
  constructor
  · intro h e he d hd hid p hp q hq
    obtain ⟨node, hnode, hnodeId, llc, hllc, -, hcore⟩ :=
      holds_buildTopoTree_iff.mpr ⟨e, he, rfl, rfl, rfl⟩
    have hiff := h node hnode _ ⟨llc, hllc, hcore⟩ _
      ((exists_llcGroup_iff hnode).mpr
        ⟨d, hd, hid.symm.trans hnodeId.symm, rfl⟩) _ _
      (threads_head?_of_processors hp) (threads_head?_of_processors hq)
    rw [sameLlcGroup_iff hnode he hd hnodeId.symm
      (hid.symm.trans hnodeId.symm), llcId_of_processors hp,
      llcId_of_processors hq] at hiff
    obtain ⟨hdefault, -, hlast⟩ := getD_lastCovering_eq_iff.mp hiff
    exact ⟨hdefault, hlast⟩
  · intro h node hnode c hc d hd s t hs ht
    obtain ⟨e, he, heNode, rfl⟩ := (exists_llcGroup_iff hnode).mp hc
    obtain ⟨f, hf, hfNode, rfl⟩ := (exists_llcGroup_iff hnode).mp hd
    have hp := exists_of_threads_head? hs
    have hq := exists_of_threads_head? ht
    rw [sameLlcGroup_iff hnode he hf heNode hfNode, llcId_of_processors hp,
      llcId_of_processors hq]
    obtain ⟨hdefault, hlast⟩ := h e he f hf (heNode.trans hfNode.symm) _ hp _ hq
    obtain ⟨hdefault', -⟩ := h f hf e he (hfNode.trans heNode.symm) _ hq _ hp
    exact getD_lastCovering_eq_iff.mpr ⟨hdefault, hdefault', hlast⟩

end Windows
end BenchBox
