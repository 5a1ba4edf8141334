import Mathlib.Data.Nat.Notation
import Mathlib.Tactic.ByContra

/-!
# CPUID

`get_cpu_supported_isas` on arbitrary contents of the CPUID leaves and of the
extended control register.  Registers are 32-bit words, which the code reads as
signed numbers where it compares them.
-/

namespace BenchBox

/-- `int32_t regs[4]`. -/
structure Regs where
  eax : BitVec 32
  ebx : BitVec 32
  ecx : BitVec 32
  edx : BitVec 32
deriving DecidableEq

/-- What `cpuid` answers to a leaf and a subleaf, and `xgetbv` to an index. -/
structure Cpu where
  cpuid : BitVec 32 → BitVec 32 → Regs
  xgetbv : BitVec 32 → BitVec 64

/-- `reg & (1 << i)` as a condition. -/
def bit (reg : BitVec 32) (i : ℕ) : Bool :=
  (reg &&& (1#32 <<< i)) != 0#32

/-- `avx10_vector_length_t`. -/
inductive Avx10VectorLength where
  | AVX_10_LENGTH_UNKNOWN
  | AVX_10_128
  | AVX_10_256
  | AVX_10_512
deriving DecidableEq

/-- `x86_extensions`. -/
structure X86Extensions where
  mmx : Bool := false
  sse : Bool := false
  sse2 : Bool := false
  sse3 : Bool := false
  ssse3 : Bool := false
  sse4_1 : Bool := false
  sse4_2 : Bool := false
  sse4a : Bool := false
  popcnt : Bool := false
  aes : Bool := false
  rdrand : Bool := false
  bmi1 : Bool := false
  bmi2 : Bool := false
  lm : Bool := false
  lzcnt : Bool := false
  xop : Bool := false
  avx : Bool := false
  avx2 : Bool := false
  fma : Bool := false
  avx512f : Bool := false
  avx512bw : Bool := false
  avx512vl : Bool := false
  avx512dq : Bool := false
  avx512ifma : Bool := false
  avx512pf : Bool := false
  avx512er : Bool := false
  avx512cd : Bool := false
  avx512vbmi : Bool := false
  avx512vbmi2 : Bool := false
  avx512vnni : Bool := false
  avx512bitalg : Bool := false
  avx512vpopcntdq : Bool := false
  gfni : Bool := false
  vaes : Bool := false
  vpclmulqdq : Bool := false
  avx_vnni : Bool := false
  avx_ifma : Bool := false
  sha : Bool := false
  movdiri : Bool := false
  movdir64b : Bool := false
  serialize : Bool := false
  tsxldtrk : Bool := false
  pku : Bool := false
  ospke : Bool := false
  rdpid : Bool := false
  waitpkg : Bool := false
  clwb : Bool := false
  clflushopt : Bool := false
  sgx : Bool := false
  avx512_4vnniw : Bool := false
  avx512_4fmaps : Bool := false
  avx512_vp2intersect : Bool := false
  amx_tile : Bool := false
  amx_int8 : Bool := false
  amx_bf16 : Bool := false
  amx_fp16 : Bool := false
  ibt : Bool := false
  shstk : Bool := false
  fsrm : Bool := false
  hreset : Bool := false
  uintr : Bool := false
  avx512_bf16 : Bool := false
  avx512_fp16 : Bool := false
  avx10 : Bool := false
  avx10Version : BitVec 32 := 0
  avx10VectorLength : Avx10VectorLength := .AVX_10_LENGTH_UNKNOWN
  apx : Bool := false

/-! ## Detection -/

/-- The flags of leaf 1. -/
def detectLeaf1 (r : Regs) : X86Extensions where
  mmx := bit r.edx 23
  sse := bit r.edx 25
  sse2 := bit r.edx 26
  sse3 := bit r.ecx 0
  ssse3 := bit r.ecx 9
  sse4_1 := bit r.ecx 19
  sse4_2 := bit r.ecx 20
  popcnt := bit r.ecx 23
  aes := bit r.ecx 25
  fma := bit r.ecx 12
  rdrand := bit r.ecx 30

/-- The flags of leaf 7, subleaf 0. -/
def detectLeaf7 (r : Regs) (avxEnabled avx512OsEnabled : Bool)
    (result : X86Extensions) : X86Extensions :=
  { result with
    bmi1 := bit r.ebx 3
    bmi2 := bit r.ebx 8
    avx2 := bit r.ebx 5 && avxEnabled
    avx512f := bit r.ebx 16 && avx512OsEnabled
    avx512dq := bit r.ebx 17 && avx512OsEnabled
    avx512ifma := bit r.ebx 21 && avx512OsEnabled
    avx512pf := bit r.ebx 26 && avx512OsEnabled
    avx512er := bit r.ebx 27 && avx512OsEnabled
    avx512cd := bit r.ebx 28 && avx512OsEnabled
    avx512bw := bit r.ebx 30 && avx512OsEnabled
    avx512vl := bit r.ebx 31 && avx512OsEnabled
    avx512vbmi := bit r.ecx 1 && avx512OsEnabled
    gfni := bit r.ecx 8 && avxEnabled
    vaes := bit r.ecx 9 && avxEnabled
    vpclmulqdq := bit r.ecx 10 && avxEnabled
    avx512vnni := bit r.ecx 11 && avx512OsEnabled
    avx512bitalg := bit r.ecx 12 && avx512OsEnabled
    avx512vpopcntdq := bit r.ecx 14 && avx512OsEnabled
    rdpid := bit r.ecx 22
    clflushopt := bit r.ecx 23
    clwb := bit r.ecx 24
    sha := bit r.ecx 29
    avx512vbmi2 := bit r.ecx 6 && avx512OsEnabled
    waitpkg := bit r.ecx 5
    movdiri := bit r.ecx 27
    movdir64b := bit r.ecx 28
    tsxldtrk := bit r.ecx 16
    pku := bit r.ecx 3
    ospke := bit r.ecx 4
    avx512_4vnniw := bit r.edx 2 && avx512OsEnabled
    avx512_4fmaps := bit r.edx 3 && avx512OsEnabled
    avx512_vp2intersect := bit r.edx 8 && avx512OsEnabled
    amx_tile := bit r.edx 24
    amx_int8 := bit r.edx 25
    amx_bf16 := bit r.edx 22
    amx_fp16 := bit r.edx 23
    ibt := bit r.edx 20
    shstk := bit r.edx 7
    fsrm := bit r.edx 4
    hreset := bit r.edx 22
    uintr := bit r.edx 5 }

/-- The flags of leaf 7, subleaf 1. -/
def detectLeaf7Sub1 (r : Regs) (avx512OsEnabled : Bool)
    (result : X86Extensions) : X86Extensions :=
  { result with
    avx512_bf16 := bit r.eax 5 && avx512OsEnabled
    avx512_fp16 := bit r.eax 23 && avx512OsEnabled
    serialize := bit r.ecx 14
    avx10 := bit r.edx 19 && avx512OsEnabled
    apx := bit r.edx 21 }

/-- The fields of leaf 0x24. -/
def detectLeaf24 (r : Regs) (result : X86Extensions) : X86Extensions :=
  { result with
    avx10Version := r.ebx &&& 0xFF#32
    avx10VectorLength :=
      if bit r.ebx 18 then .AVX_10_512
      else if bit r.ebx 17 then .AVX_10_256
      else if bit r.ebx 16 then .AVX_10_128
      else .AVX_10_LENGTH_UNKNOWN }

/-- The flags of leaf 0x80000001. -/
def detectExtended (r : Regs) (result : X86Extensions) : X86Extensions :=
  { result with
    lm := bit r.edx 29
    lzcnt := bit r.ecx 5
    sse4a := bit r.ecx 6
    xop := bit r.ecx 11 }

/-- Whether the state components of `mask` are enabled. -/
def osEnabled (cpu : Cpu) (mask : BitVec 64) : Bool :=
  let osxsave := bit (cpu.cpuid 1 0).ecx 27
  let avxHw := bit (cpu.cpuid 1 0).ecx 28
  if osxsave && avxHw then (cpu.xgetbv 0 &&& mask) == mask else false

/-- `get_cpu_supported_isas`. -/
def getCpuSupportedIsas (cpu : Cpu) : X86Extensions :=
  let maxBasic := (cpu.cpuid 0 0).eax
  let maxExt := (cpu.cpuid 0x80000000 0).eax
  let avxEnabled := osEnabled cpu 0x6
  let avx512OsEnabled := osEnabled cpu 0xE6
  -- without `osxsave` and `avx_hw` this is the default
  let result := { detectLeaf1 (cpu.cpuid 1 0) with avx := avxEnabled }
  let result :=
    if (7#32).sle maxBasic then
      let result := detectLeaf7Sub1 (cpu.cpuid 7 1) avx512OsEnabled
        (detectLeaf7 (cpu.cpuid 7 0) avxEnabled avx512OsEnabled result)
      if result.avx10 && (0x24#32).sle maxBasic then
        detectLeaf24 (cpu.cpuid 0x24 0) result
      else
        result
    else
      result
  if (0x80000001#32).sle maxExt then
    detectExtended (cpu.cpuid 0x80000001 0) result
  else
    result

/-! ## State components -/

theorem bit_eq_getLsbD (reg : BitVec 32) {i : ℕ} (hi : i < 32) :
    bit reg i = reg.getLsbD i := by
  have hmask : (1#32 <<< i) = BitVec.twoPow 32 i := (BitVec.twoPow_eq 32 i).symm
  have hone : (BitVec.twoPow 32 i).getLsbD i = true := by simp [hi]
  have hne : BitVec.twoPow 32 i ≠ 0#32 := by
    intro hzero
    rw [hzero] at hone
    simp at hone
  rw [bit, hmask, BitVec.and_twoPow]
  cases reg.getLsbD i with
  | true => simp [hne]
  | false => rfl

/-- A mask is contained in a word if all its bits are. -/
theorem and_eq_mask_iff {w : ℕ} (x mask : BitVec w) :
    x &&& mask = mask ↔ ∀ i, mask.getLsbD i = true → x.getLsbD i = true := by
  constructor
  · intro h i hi
    rw [← h, BitVec.getLsbD_and, Bool.and_eq_true] at hi
    exact hi.1
  · intro h
    apply BitVec.eq_of_getLsbD_eq
    intro i _
    rw [BitVec.getLsbD_and]
    cases hi : mask.getLsbD i with
    | true => rw [h i hi, Bool.and_true]
    | false => rw [Bool.and_false]

/-- The operating system enables the AVX registers: `OSXSAVE` is set, and bits 1
and 2 of `XCR0` are. -/
def AvxOsEnabled (cpu : Cpu) : Prop :=
  (cpu.cpuid 1 0).ecx.getLsbD 27 = true ∧
    (cpu.xgetbv 0).getLsbD 1 = true ∧ (cpu.xgetbv 0).getLsbD 2 = true

/-- The operating system enables the AVX-512 registers too: bits 5, 6 and 7 of
`XCR0` are set. -/
def Avx512OsEnabled (cpu : Cpu) : Prop :=
  (cpu.xgetbv 0).getLsbD 5 = true ∧ (cpu.xgetbv 0).getLsbD 6 = true ∧
    (cpu.xgetbv 0).getLsbD 7 = true

/-- An extension that needs the AVX registers is reported. -/
def X86Extensions.usesAvx (e : X86Extensions) : Bool :=
  e.avx || e.avx2 || e.fma || e.xop || e.vaes || e.vpclmulqdq || e.avx10

/-- An extension that needs the AVX-512 registers is reported. -/
def X86Extensions.usesAvx512 (e : X86Extensions) : Bool :=
  e.avx512f || e.avx512cd || e.avx512dq || e.avx512bw || e.avx512vl ||
    e.avx512ifma || e.avx512pf || e.avx512er || e.avx512vbmi ||
    e.avx512vbmi2 || e.avx512vnni || e.avx512bitalg || e.avx512vpopcntdq ||
    e.avx512_4vnniw || e.avx512_4fmaps || e.avx512_vp2intersect ||
    e.avx512_bf16 || e.avx512_fp16 || e.avx10

/-- A mask is enabled only under `OSXSAVE`, with all its bits set in `XCR0`. -/
theorem of_osEnabled {cpu : Cpu} {mask : BitVec 64}
    (h : osEnabled cpu mask = true) :
    (cpu.cpuid 1 0).ecx.getLsbD 27 = true ∧
      ∀ i, mask.getLsbD i = true → (cpu.xgetbv 0).getLsbD i = true := by
  simp only [osEnabled, bit_eq_getLsbD _ (by decide : 27 < 32)] at h
  split at h
  · rename_i hsave
    rw [Bool.and_eq_true] at hsave
    exact ⟨hsave.1, (and_eq_mask_iff _ _).mp (beq_iff_eq.mp h)⟩
  · contradiction

theorem avxOsEnabled_of_osEnabled {cpu : Cpu}
    (h : osEnabled cpu 0x6 = true) : AvxOsEnabled cpu := by
  obtain ⟨hsave, hmask⟩ := of_osEnabled h
  exact ⟨hsave, hmask 1 (by decide), hmask 2 (by decide)⟩

theorem avx512OsEnabled_of_osEnabled {cpu : Cpu}
    (h : osEnabled cpu 0xE6 = true) :
    AvxOsEnabled cpu ∧ Avx512OsEnabled cpu := by
  obtain ⟨hsave, hmask⟩ := of_osEnabled h
  refine ⟨⟨hsave, hmask 1 (by decide), hmask 2 (by decide)⟩, ?_⟩
  exact ⟨hmask 5 (by decide), hmask 6 (by decide), hmask 7 (by decide)⟩

/-- The AVX-512 components include the AVX components. -/
theorem osEnabled_of_avx512 {cpu : Cpu} (h : osEnabled cpu 0xE6 = true) :
    osEnabled cpu 0x6 = true := by
  simp only [osEnabled] at h ⊢
  split at h
  · rename_i hsave
    have hbits := (and_eq_mask_iff _ _).mp (beq_iff_eq.mp h)
    rw [if_pos hsave, beq_iff_eq, and_eq_mask_iff]
    intro i hi
    apply hbits
    -- every bit of 0x6 is a bit of 0xE6
    have hsplit : (0xE6 : BitVec 64) = 0x6 ||| 0xE0 := by decide
    rw [hsplit, BitVec.getLsbD_or, hi, Bool.true_or]
  · contradiction

/-! ## Gates -/

section Gates

variable (r : Regs) (e : X86Extensions)

/-- The extensions on the AVX registers whose detection asks the operating
system. -/
def X86Extensions.usesGatedAvx (e : X86Extensions) : Bool :=
  e.avx || e.avx2 || e.vaes || e.vpclmulqdq || e.avx10

theorem X86Extensions.usesAvx_eq :
    e.usesAvx = (e.usesGatedAvx || e.fma || e.xop) := by
  simp only [usesAvx, usesGatedAvx]
  grind

theorem usesAvx512_detectLeaf7 (avxEnabled : Bool)
    (h : e.usesAvx512 = false) :
    (detectLeaf7 r avxEnabled false e).usesAvx512 = false := by
  simp only [X86Extensions.usesAvx512, Bool.or_eq_false_iff] at h
  simp [X86Extensions.usesAvx512, detectLeaf7, h]

theorem usesGatedAvx_detectLeaf7 (avx512OsEnabled : Bool)
    (h : e.usesGatedAvx = false) :
    (detectLeaf7 r false avx512OsEnabled e).usesGatedAvx = false := by
  simp only [X86Extensions.usesGatedAvx, Bool.or_eq_false_iff] at h
  simp [X86Extensions.usesGatedAvx, detectLeaf7, h]

theorem usesAvx512_detectLeaf7Sub1 (h : e.usesAvx512 = false) :
    (detectLeaf7Sub1 r false e).usesAvx512 = false := by
  simp only [X86Extensions.usesAvx512, Bool.or_eq_false_iff] at h
  simp [X86Extensions.usesAvx512, detectLeaf7Sub1, h]

theorem usesGatedAvx_detectLeaf7Sub1 (h : e.usesGatedAvx = false) :
    (detectLeaf7Sub1 r false e).usesGatedAvx = false := by
  simp only [X86Extensions.usesGatedAvx, Bool.or_eq_false_iff] at h
  simp [X86Extensions.usesGatedAvx, detectLeaf7Sub1, h]

end Gates

section Detection

variable (cpu : Cpu)

/-- What holds after leaf 1 and is kept by every later leaf holds of the
result. -/
theorem getCpuSupportedIsas_induction {P : X86Extensions → Prop}
    (hleaf1 : P { detectLeaf1 (cpu.cpuid 1 0) with avx := osEnabled cpu 0x6 })
    (hleaf7 : ∀ r e, P e →
      P (detectLeaf7 r (osEnabled cpu 0x6) (osEnabled cpu 0xE6) e))
    (hsub1 : ∀ r e, P e → P (detectLeaf7Sub1 r (osEnabled cpu 0xE6) e))
    (hleaf24 : ∀ r e, P e → P (detectLeaf24 r e))
    (hextended : ∀ r e, P e → P (detectExtended r e)) :
    P (getCpuSupportedIsas cpu) := by
  have hbasic := hsub1 (cpu.cpuid 7 1) _ (hleaf7 (cpu.cpuid 7 0) _ hleaf1)
  simp only [getCpuSupportedIsas]
  split
  · apply hextended
    split
    · split
      · exact hleaf24 _ _ hbasic
      · exact hbasic
    · exact hleaf1
  · split
    · split
      · exact hleaf24 _ _ hbasic
      · exact hbasic
    · exact hleaf1

/-- No AVX-512 flag gets past its gate. -/
theorem osEnabled_of_usesAvx512
    (h : (getCpuSupportedIsas cpu).usesAvx512 = true) :
    osEnabled cpu 0xE6 = true := by
  by_contra hgate
  rw [Bool.not_eq_true] at hgate
  have hnone : (getCpuSupportedIsas cpu).usesAvx512 = false := by
    refine getCpuSupportedIsas_induction cpu
      (P := fun e => e.usesAvx512 = false) ?_ ?_ ?_ ?_ ?_
    · rfl
    · intro r e he
      rw [hgate]
      exact usesAvx512_detectLeaf7 r e _ he
    · intro r e he
      rw [hgate]
      exact usesAvx512_detectLeaf7Sub1 r e he
    · intro r e he
      exact he
    · intro r e he
      exact he
  rw [hnone] at h
  contradiction

/-- Nor does a gated flag on the AVX registers. -/
theorem osEnabled_of_usesGatedAvx
    (h : (getCpuSupportedIsas cpu).usesGatedAvx = true) :
    osEnabled cpu 0x6 = true := by
  by_contra hgate
  have hgate512 : osEnabled cpu 0xE6 = false := by
    rw [← Bool.not_eq_true]
    intro henabled
    exact hgate (osEnabled_of_avx512 henabled)
  rw [Bool.not_eq_true] at hgate
  have hnone : (getCpuSupportedIsas cpu).usesGatedAvx = false := by
    refine getCpuSupportedIsas_induction cpu
      (P := fun e => e.usesGatedAvx = false) ?_ ?_ ?_ ?_ ?_
    · rw [hgate]
      rfl
    · intro r e he
      rw [hgate]
      exact usesGatedAvx_detectLeaf7 r e _ he
    · intro r e he
      rw [hgate512]
      exact usesGatedAvx_detectLeaf7Sub1 r e he
    · intro r e he
      exact he
    · intro r e he
      exact he
  rw [hnone] at h
  contradiction

/-- `fma` is bit 12 of leaf 1, whatever the operating system enables. -/
theorem fma_getCpuSupportedIsas :
    (getCpuSupportedIsas cpu).fma = (cpu.cpuid 1 0).ecx.getLsbD 12 := by
  rw [← bit_eq_getLsbD _ (by decide : 12 < 32)]
  refine getCpuSupportedIsas_induction cpu
    (P := fun e => e.fma = bit (cpu.cpuid 1 0).ecx 12) rfl ?_ ?_ ?_ ?_
  all_goals
    intro r e he
    exact he

/-- `xop` is bit 11 of the extended leaf, whatever the operating system
enables. -/
theorem xop_getCpuSupportedIsas :
    (getCpuSupportedIsas cpu).xop =
      ((0x80000001#32).sle (cpu.cpuid 0x80000000 0).eax &&
        (cpu.cpuid 0x80000001 0).ecx.getLsbD 11) := by
  rw [← bit_eq_getLsbD _ (by decide : 11 < 32)]
  simp only [getCpuSupportedIsas]
  cases (0x80000001#32).sle (cpu.cpuid 0x80000000 0).eax with
  | true => rfl
  | false =>
    -- the earlier leaves leave the default
    split
    · contradiction
    · split
      · split
        all_goals rfl
      · rfl

/-- The processor has FMA or XOP, as far as the leaves that are read say. -/
def HasUngatedAvx (cpu : Cpu) : Prop :=
  (cpu.cpuid 1 0).ecx.getLsbD 12 = true ∨
    ((0x80000001#32).sle (cpu.cpuid 0x80000000 0).eax = true ∧
      (cpu.cpuid 0x80000001 0).ecx.getLsbD 11 = true)

/-- Only extensions whose registers the operating system enables are reported,
exactly if it enables the AVX registers of a processor with FMA or XOP. -/
theorem supportedIsas_osEnabled_iff :
    ((getCpuSupportedIsas cpu).usesAvx = true → AvxOsEnabled cpu) ∧
        ((getCpuSupportedIsas cpu).usesAvx512 = true →
          AvxOsEnabled cpu ∧ Avx512OsEnabled cpu) ↔
      (HasUngatedAvx cpu → AvxOsEnabled cpu) := by
  have hungated : HasUngatedAvx cpu ↔
      ((getCpuSupportedIsas cpu).fma || (getCpuSupportedIsas cpu).xop) =
        true := by
    rw [fma_getCpuSupportedIsas, xop_getCpuSupportedIsas, HasUngatedAvx,
      Bool.or_eq_true, Bool.and_eq_true]
  rw [hungated, X86Extensions.usesAvx_eq, Bool.or_assoc]
  constructor
  · rintro ⟨havx, -⟩ hreported
    apply havx
    rw [hreported, Bool.or_true]
  · intro hcondition
    refine ⟨?_, ?_⟩
    · rw [Bool.or_eq_true]
      rintro (hgated | hreported)
      · exact avxOsEnabled_of_osEnabled (osEnabled_of_usesGatedAvx cpu hgated)
      · exact hcondition hreported
    · intro h512
      exact avx512OsEnabled_of_osEnabled (osEnabled_of_usesAvx512 cpu h512)

end Detection

/-- A processor with AVX and FMA under an operating system that saves no AVX state. -/
theorem supportedIsas_fma_without_os :
    ∃ cpu : Cpu, (cpu.cpuid 1 0).ecx.getLsbD 27 = false ∧
      (getCpuSupportedIsas cpu).fma = true ∧
      ¬ (((getCpuSupportedIsas cpu).usesAvx = true → AvxOsEnabled cpu) ∧
        ((getCpuSupportedIsas cpu).usesAvx512 = true →
          AvxOsEnabled cpu ∧ Avx512OsEnabled cpu)) := by
  refine ⟨⟨fun leaf _ => ⟨0, 0, if leaf = 1 then 0x10001000 else 0, 0⟩,
    fun _ => 0⟩, by decide, by decide, ?_⟩
  rintro ⟨havx, -⟩
  have hsave := (havx (by decide)).1
  revert hsave
  decide

end BenchBox
