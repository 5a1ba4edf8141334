import BenchBox.Support.Bytes
import BenchBox.Support.Framed
import BenchBox.Threading.Windows.Builder

/-!
# The buffer of records on Windows

`GetLogicalProcessorInformationEx` writes its records one after another into a
buffer of bytes, and both passes of the builder walk that buffer by the sizes of
the records.  They build the tree of the records that were written.
-/

namespace BenchBox
namespace Windows

open Bytes Framed

/-- How a record is read from the bytes behind `ptr`. -/
abbrev RecordFormat := Format (BitVec 8) Information

/-- `build_topo_tree` on the first `length` bytes of the buffer, without which the
call for them has failed.  A walk that has not ended after as many rounds as
there are bytes never ends, and there is no tree. -/
def buildTopoTreeFromBuffer (format : RecordFormat)
    (buffer : Option (List (BitVec 8))) : Option TopologyTree :=
  match buffer with
  | none => some {}
  | some buffer => do
      let scan ← walk format scanRecord buffer.length {} buffer
      let s ← walk format (insertCore scan) buffer.length {} buffer
      some (finishTree s)

/-- Both passes read the same records, and the tree is that of these records. -/
theorem buildTopoTreeFromBuffer_eq (format : RecordFormat)
    (buffer : List (BitVec 8)) :
    buildTopoTreeFromBuffer format (some buffer) =
      (records format buffer.length buffer).map fun rs =>
        buildTopoTree (some rs) := by
  rw [buildTopoTreeFromBuffer]
  simp only [walk_eq]
  cases records format buffer.length buffer with
  | none => rfl
  | some rs => rfl

/-- The builder makes the tree of the records of a buffer, whatever their sizes.
Both passes go on forever over a buffer in which another record follows whose
size is zero. -/
theorem buildTopoTreeFromBuffer_flatten {format : RecordFormat}
    {rs : List Information} {frames : List (List (BitVec 8))}
    (h : List.Forall₂ format.Encodes rs frames) :
    buildTopoTreeFromBuffer format (some frames.flatten) =
        some (buildTopoTree (some rs)) ∧
      ∀ rest, rest ≠ [] → format.size rest = 0 →
        ∀ (σ : Type) (f : σ → Information → σ) (s : σ) (rounds : ℕ),
          walk format f rounds s (frames.flatten ++ rest) = none := by
  refine ⟨?_, ?_⟩
  · rw [buildTopoTreeFromBuffer_eq, records_flatten h]
    rfl
  · intro rest hne hsize σ f s rounds
    rw [walk_eq, records_append_of_size_eq_zero h hne hsize]
    rfl

/-! ## The layout on x64 -/

/-- A field of `w` bits at an offset. -/
def field (w offset : ℕ) (bytes : List (BitVec 8)) : BitVec w :=
  toWord w ((bytes.drop offset).take (w / 8))

/-- A field does not depend on what follows the frame it is in. -/
theorem field_append {w offset : ℕ} {frame : List (BitVec 8)}
    (h : offset + w / 8 ≤ frame.length) (rest : List (BitVec 8)) :
    field w offset (frame ++ rest) = field w offset frame := by
  rw [field, field, List.drop_append_of_le_length (by omega),
    List.take_append_of_le_length (by rw [List.length_drop]; omega)]

/-- `GROUP_AFFINITY` at an offset. -/
def groupAffinityAt (bytes : List (BitVec 8)) (offset : ℕ) : GroupAffinity where
  mask := field 64 offset bytes
  group := (field 16 (offset + 8) bytes).toNat

/-- An array of `GROUP_AFFINITY`. -/
def groupMasksAt (bytes : List (BitVec 8)) (offset count : ℕ) :
    List GroupAffinity :=
  (List.range count).map fun i => groupAffinityAt bytes (offset + 16 * i)

/-- `SYSTEM_LOGICAL_PROCESSOR_INFORMATION_EX` as it is laid out on x64. -/
def x64Format : RecordFormat where
  size bytes := (field 32 4 bytes).toNat
  read bytes :=
    match (field 32 0 bytes).toNat with
    | 0 => .processorCore (field 8 9 bytes).toNat
        (groupMasksAt bytes 32 (field 16 30 bytes).toNat)
    | 1 => .numaNode (field 32 8 bytes).toNat (groupAffinityAt bytes 32)
    | 2 => .cache (field 8 8 bytes).toNat
        (groupMasksAt bytes 40 (field 16 38 bytes).toNat)
    | _ => .other

/-- A frame that states its own size and holds all that is read of it. -/
structure X64Frame (frame : List (BitVec 8)) : Prop where
  header : 8 ≤ frame.length
  size : (field 32 4 frame).toNat = frame.length
  processorCore : (field 32 0 frame).toNat = 0 →
    32 + 16 * (field 16 30 frame).toNat ≤ frame.length
  numaNode : (field 32 0 frame).toNat = 1 → 48 ≤ frame.length
  cache : (field 32 0 frame).toNat = 2 →
    40 + 16 * (field 16 38 frame).toNat ≤ frame.length

theorem groupAffinityAt_append {offset : ℕ} {frame : List (BitVec 8)}
    (h : offset + 16 ≤ frame.length) (rest : List (BitVec 8)) :
    groupAffinityAt (frame ++ rest) offset = groupAffinityAt frame offset := by
  rw [groupAffinityAt, groupAffinityAt, field_append (by omega),
    field_append (by omega)]

theorem groupMasksAt_append {offset count : ℕ} {frame : List (BitVec 8)}
    (h : offset + 16 * count ≤ frame.length) (rest : List (BitVec 8)) :
    groupMasksAt (frame ++ rest) offset count =
      groupMasksAt frame offset count := by
  apply List.map_congr_left
  intro i hi
  rw [List.mem_range] at hi
  exact groupAffinityAt_append (by omega) rest

/-- Whatever follows such a frame, it is read as the same record. -/
theorem X64Frame.encodes {frame : List (BitVec 8)} (h : X64Frame frame) :
    x64Format.Encodes (x64Format.read frame) frame := by
  have hheader := h.header
  refine ⟨List.ne_nil_of_length_pos (by omega), ?_, ?_⟩
  · intro rest
    show (field 32 4 (frame ++ rest)).toNat = frame.length
    rw [field_append (by omega), h.size]
  · intro rest
    simp only [x64Format]
    rw [field_append (by omega)]
    split
    · rename_i hkind
      have hmasks := h.processorCore hkind
      rw [field_append (by omega), field_append (by omega),
        groupMasksAt_append hmasks]
    · rename_i hkind
      have hlength := h.numaNode hkind
      rw [field_append (by omega), groupAffinityAt_append (by omega)]
    · rename_i hkind
      have hmasks := h.cache hkind
      rw [field_append (by omega), field_append (by omega),
        groupMasksAt_append hmasks]
    · rfl

/-- A NUMA node and a core with the same two processors, and the same with zero
bytes behind them. -/
theorem buildTopoTreeFromBuffer_flatten_pair :
    let node : List (BitVec 8) :=
      [1, 0, 0, 0, 48, 0, 0, 0, 3, 0, 0, 0] ++ List.replicate 18 0 ++
        [1, 0, 3, 0, 0, 0, 0, 0, 0, 0] ++ List.replicate 8 0
    let core : List (BitVec 8) :=
      [0, 0, 0, 0, 48, 0, 0, 0, 1, 2] ++ List.replicate 20 0 ++
        [1, 0, 3, 0, 0, 0, 0, 0, 0, 0] ++ List.replicate 8 0
    buildTopoTreeFromBuffer x64Format (some (node ++ core)) =
      some (buildTopoTree
        (some [.numaNode 3 ⟨3, 0⟩, .processorCore 2 [⟨3, 0⟩]])) ∧
      ∀ rounds, walk x64Format scanRecord rounds {}
        (node ++ core ++ List.replicate 8 0) = none := by
  intro node core
  have hnode : X64Frame node := by
    constructor <;> decide
  have hcore : X64Frame core := by
    constructor <;> decide
  have hnodeRead : x64Format.read node = .numaNode 3 ⟨3, 0⟩ := by decide
  have hcoreRead : x64Format.read core = .processorCore 2 [⟨3, 0⟩] := by decide
  obtain ⟨htree, hendless⟩ := buildTopoTreeFromBuffer_flatten
    (.cons hnode.encodes (.cons hcore.encodes .nil))
  rw [hnodeRead, hcoreRead, List.flatten_cons, List.flatten_singleton] at htree
  exact ⟨htree, hendless (List.replicate 8 0) (by decide) (by decide) Scan
    scanRecord {}⟩

end Windows
end BenchBox
