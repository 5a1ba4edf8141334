import BenchBox.Isa.Cpuid
import BenchBox.Support.Bytes

/-!
# The brand string

`get_cpu_brand_string` reads three extended leaves of four registers each, which
hold the bytes of a text, and gives the text back up to its first zero byte.
-/

namespace BenchBox

open Bytes

/-- The bytes of `eax`, `ebx`, `ecx` and `edx`, as they are copied. -/
def Regs.bytes (regs : Regs) : List (BitVec 8) :=
  ofWord 4 regs.eax ++ ofWord 4 regs.ebx ++ ofWord 4 regs.ecx ++
    ofWord 4 regs.edx

/-- `brand` before its last byte, once the three leaves are copied. -/
def brandBytes (cpu : Cpu) : List (BitVec 8) :=
  (cpu.cpuid 0x80000002 0).bytes ++ (cpu.cpuid 0x80000003 0).bytes ++
    (cpu.cpuid 0x80000004 0).bytes

/-- `get_cpu_brand_string`.  The bytes of `brand` are zero at first, and the last
one stays so. -/
def getCpuBrandString (cpu : Cpu) : List (BitVec 8) :=
  let maxExtId := (cpu.cpuid 0x80000000 0).eax
  let brand :=
    if maxExtId ≥ 0x80000004 then brandBytes cpu else List.replicate 48 0#8
  cString (brand ++ [0#8])

/-! ## Leaves that hold a text -/

/-- The registers that hold the first sixteen bytes of an array. -/
def Regs.ofBytes (bytes : List (BitVec 8)) : Regs where
  eax := toWord 32 (bytes.take 4)
  ebx := toWord 32 ((bytes.drop 4).take 4)
  ecx := toWord 32 ((bytes.drop 8).take 4)
  edx := toWord 32 ((bytes.drop 12).take 4)

/-- The leaves of a processor hold an array of 48 bytes. -/
structure Cpu.StoresBrand (cpu : Cpu) (bytes : List (BitVec 8)) : Prop where
  length : bytes.length = 48
  leaf : ∀ i < 3, cpu.cpuid (0x80000002 + BitVec.ofNat 32 i) 0 =
    Regs.ofBytes (bytes.drop (16 * i))

@[simp] theorem Regs.length_bytes (regs : Regs) : regs.bytes.length = 16 := by
  simp [Regs.bytes]

theorem ofWord_toWord_take {bytes : List (BitVec 8)} {k : ℕ}
    (h : k + 4 ≤ bytes.length) :
    ofWord 4 (toWord 32 ((bytes.drop k).take 4)) = (bytes.drop k).take 4 := by
  have hlength : ((bytes.drop k).take 4).length = 4 := by
    rw [List.length_take, List.length_drop]
    omega
  have hword : ofWord ((bytes.drop k).take 4).length
      (toWord 32 ((bytes.drop k).take 4)) = (bytes.drop k).take 4 :=
    ofWord_toWord (by omega)
  rwa [hlength] at hword

/-- The registers give the bytes back. -/
theorem Regs.bytes_ofBytes {bytes : List (BitVec 8)} (h : 16 ≤ bytes.length) :
    (Regs.ofBytes bytes).bytes = bytes.take 16 := by
  have hzero : ofWord 4 (toWord 32 (bytes.take 4)) = bytes.take 4 :=
    @ofWord_toWord_take bytes 0 (by omega)
  rw [Regs.bytes, Regs.ofBytes]
  dsimp only
  rw [hzero, ofWord_toWord_take (by omega), ofWord_toWord_take (by omega),
    ofWord_toWord_take (by omega), ← List.take_add, ← List.take_add,
    ← List.take_add]

/-- The registers are those that hold their bytes. -/
theorem Regs.ofBytes_bytes (regs : Regs) (rest : List (BitVec 8)) :
    Regs.ofBytes (regs.bytes ++ rest) = regs := by
  simp [Regs.ofBytes, Regs.bytes, List.append_assoc, List.drop_append,
    List.drop_of_length_le, toWord_ofWord]

/-- The leaves hold an array exactly if it is what is copied from them. -/
theorem Cpu.storesBrand_iff {cpu : Cpu} {bytes : List (BitVec 8)} :
    cpu.StoresBrand bytes ↔ brandBytes cpu = bytes := by
  constructor
  · intro h
    have hlength := h.length
    have hfirst : cpu.cpuid 0x80000002 0 = _ := h.leaf 0 (by decide)
    have hsecond : cpu.cpuid 0x80000003 0 = _ := h.leaf 1 (by decide)
    have hthird : cpu.cpuid 0x80000004 0 = _ := h.leaf 2 (by decide)
    rw [brandBytes, hfirst, hsecond, hthird,
      Regs.bytes_ofBytes (by rw [List.length_drop]; omega),
      Regs.bytes_ofBytes (by rw [List.length_drop]; omega),
      Regs.bytes_ofBytes (by rw [List.length_drop]; omega), List.drop_zero,
      ← List.take_add, ← List.take_add, List.take_of_length_le (by omega)]
  · rintro rfl
    refine ⟨by simp [brandBytes], ?_⟩
    intro i hi
    match i with
    | 0 =>
        rw [Nat.mul_zero, List.drop_zero, brandBytes, List.append_assoc]
        exact (Regs.ofBytes_bytes _ _).symm
    | 1 =>
        rw [brandBytes, List.append_assoc,
          List.drop_left' (Regs.length_bytes _)]
        exact (Regs.ofBytes_bytes _ _).symm
    | 2 =>
        have hlength : ((cpu.cpuid 0x80000002 0).bytes ++
            (cpu.cpuid 0x80000003 0).bytes).length = 32 := by
          rw [List.length_append, Regs.length_bytes, Regs.length_bytes]
        rw [brandBytes, List.drop_left' hlength, ← List.append_nil
          (cpu.cpuid 0x80000004 0).bytes]
        exact (Regs.ofBytes_bytes _ _).symm

/-- The function gives the text of the leaves back, whatever follows its zero
byte, and no text if there are no such leaves. -/
theorem getCpuBrandString_eq_iff (cpu : Cpu) (text : List (BitVec 8)) :
    getCpuBrandString cpu = text ↔
      if (cpu.cpuid 0x80000000 0).eax ≥ 0x80000004 then
        0#8 ∉ text ∧ ∃ rest, cpu.StoresBrand (text ++ rest) ∧
          ∀ b ∈ rest.head?, b = 0#8
      else text = [] := by
  simp only [getCpuBrandString]
  split
  · rw [cString_append_zero, cString_eq_iff]
    simp only [Cpu.storesBrand_iff]
  · rw [cString_append_zero, cString_replicate]
    exact eq_comm

end BenchBox
