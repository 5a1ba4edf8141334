import BenchBox.Isa.Cpuid
import BenchBox.Parse
import BenchBox.Support.Words

/-!
# The list of instruction sets

`get_cpu_isa_string` appends the names of the supported extensions one by one,
with a space before each name but the first.
-/

namespace BenchBox

open Words

namespace IsaString

/-- The lambda `append`. -/
def append (result : StringView) (supported : Bool) (name : StringView) :
    StringView :=
  if supported then separate ' ' result ++ name else result

/-- A table of names, as texts. -/
def texts (table : List (Bool × String)) : List (Bool × StringView) :=
  table.map fun entry => (entry.1, entry.2.toList)

/-- One `append` for each entry. -/
def appendAll (result : StringView) (table : List (Bool × StringView)) :
    StringView :=
  table.foldl (fun result entry => append result entry.1 entry.2) result

/-- The names up to AVX2. -/
def leading (ext : X86Extensions) : List (Bool × StringView) :=
  texts [(ext.mmx, "MMX"), (ext.sse, "SSE"), (ext.sse2, "SSE2"),
    (ext.sse3, "SSE3"), (ext.ssse3, "SSSE3"), (ext.sse4_1, "SSE4.1"),
    (ext.sse4_2, "SSE4.2"), (ext.sse4a, "SSE4a"), (ext.popcnt, "POPCNT"),
    (ext.aes, "AES"), (ext.fma, "FMA"), (ext.rdrand, "RDRAND"),
    (ext.bmi1, "BMI1"), (ext.bmi2, "BMI2"), (ext.lzcnt, "LZCNT"),
    (ext.xop, "XOP"), (ext.avx, "AVX"), (ext.avx2, "AVX2")]

/-- The names that are left out where AVX10 is listed. -/
def avx512 (ext : X86Extensions) : List (Bool × StringView) :=
  texts [(ext.avx512f, "AVX512F"), (ext.avx512bw, "AVX512BW"),
    (ext.avx512vl, "AVX512VL"), (ext.avx512dq, "AVX512DQ"),
    (ext.avx512ifma, "AVX512IFMA"), (ext.avx512pf, "AVX512PF"),
    (ext.avx512er, "AVX512ER"), (ext.avx512cd, "AVX512CD"),
    (ext.avx512vbmi, "AVX512VBMI"), (ext.avx512vbmi2, "AVX512VBMI2"),
    (ext.avx512vnni, "AVX512VNNI"), (ext.avx512bitalg, "AVX512BITALG"),
    (ext.avx512vpopcntdq, "AVX512VPOPCNTDQ"), (ext.avx512_bf16, "AVX512_BF16"),
    (ext.avx512_fp16, "AVX512_FP16"), (ext.avx512_4vnniw, "AVX512_4VNNIW"),
    (ext.avx512_4fmaps, "AVX512_4FMAPS"),
    (ext.avx512_vp2intersect, "AVX512_VP2INTERSECT")]

/-- The names between the two places of APX. -/
def trailing (ext : X86Extensions) : List (Bool × StringView) :=
  texts [(ext.gfni, "GFNI"), (ext.vaes, "VAES"),
    (ext.vpclmulqdq, "VPCLMULQDQ"), (ext.sha, "SHA"), (ext.rdpid, "RDPID"),
    (ext.waitpkg, "WAITPKG"), (ext.movdiri, "MOVDIRI"),
    (ext.movdir64b, "MOVDIR64B"), (ext.serialize, "SERIALIZE"),
    (ext.tsxldtrk, "TSXLDTRK"), (ext.pku, "PKU"), (ext.ospke, "OSPKE"),
    (ext.sgx, "SGX"), (ext.clwb, "CLWB"), (ext.clflushopt, "CLFLUSHOPT"),
    (ext.amx_tile, "AMX_TILE"), (ext.amx_int8, "AMX_INT8"),
    (ext.amx_bf16, "AMX_BF16"), (ext.amx_fp16, "AMX_FP16"),
    (ext.ibt, "CET_IBT"), (ext.shstk, "CET_SHSTK"), (ext.fsrm, "FSRM"),
    (ext.hreset, "HRESET"), (ext.uintr, "UINTR")]

/-- `AVX10` with its version and its vector length. -/
def avx10Name (ext : X86Extensions) : StringView :=
  "AVX10".toList ++
    (if 0#32 < ext.avx10Version then
      '.' :: Nat.toDigits 10 ext.avx10Version.toNat
    else []) ++
    match ext.avx10VectorLength with
    | .AVX_10_LENGTH_UNKNOWN => []
    | .AVX_10_128 => '-' :: "128".toList
    | .AVX_10_256 => '-' :: "256".toList
    | .AVX_10_512 => '-' :: "512".toList

end IsaString

open IsaString

/-- The text that `get_cpu_isa_string` builds from the extensions. -/
def isaString (ext : X86Extensions) : StringView :=
  let result := appendAll [] (leading ext)
  let result :=
    if ext.avx10 then separate ' ' result ++ avx10Name ext
    else appendAll result (avx512 ext)
  let result := append result ext.apx "APX".toList
  let result := appendAll result (trailing ext)
  append result ext.apx "APX".toList

/-- `get_cpu_isa_string`. -/
def getCpuIsaString (cpu : Cpu) : StringView :=
  isaString (getCpuSupportedIsas cpu)

namespace IsaString

/-! ## Names -/

section Names

variable (ext : X86Extensions)

/-- AVX10, or the AVX-512 extensions. -/
def widest : List (Bool × StringView) :=
  if ext.avx10 then [(true, avx10Name ext)] else avx512 ext

/-- The extensions that have one place in the text. -/
def others : List (Bool × StringView) :=
  leading ext ++ widest ext ++ trailing ext

/-- The extensions in the order of the text. -/
def printed : List (Bool × StringView) :=
  leading ext ++ widest ext ++ [(ext.apx, "APX".toList)] ++ trailing ext ++
    [(ext.apx, "APX".toList)]

/-- The names of the supported ones. -/
def supportedNames : List StringView :=
  ((printed ext).filter Prod.fst).map Prod.snd

/-- The text is the result of one `append` for each place. -/
theorem isaString_eq_appendAll :
    isaString ext = appendAll [] (printed ext) := by
  have hwidest : ∀ result, appendAll result (widest ext) =
      if ext.avx10 then separate ' ' result ++ avx10Name ext
      else appendAll result (avx512 ext) := by
    intro result
    unfold widest
    split
    · rfl
    · rfl
  have happend : ∀ result table more,
      appendAll result (table ++ more) =
        appendAll (appendAll result table) more :=
    fun result table more => List.foldl_append
  rw [printed, happend, happend, happend, happend, hwidest]
  rfl

/-- The names of the fixed tables do not depend on what is supported. -/
theorem map_snd_tables :
    (leading ext).map Prod.snd = (leading {}).map Prod.snd ∧
      (avx512 ext).map Prod.snd = (avx512 {}).map Prod.snd ∧
      (trailing ext).map Prod.snd = (trailing {}).map Prod.snd :=
  ⟨rfl, rfl, rfl⟩

/-- The names that do not depend on the extensions. -/
def fixedNames : List StringView :=
  "APX".toList :: (leading {} ++ avx512 {} ++ trailing {}).map Prod.snd

theorem proper_fixedNames : Proper ' ' fixedNames := by
  unfold Proper
  decide +kernel

theorem nodup_fixedNames : fixedNames.Nodup := by
  decide +kernel

theorem not_prefix_fixedNames :
    ∀ name ∈ fixedNames, ¬"AVX10".toList <+: name := by
  decide +kernel

/-- A fixed name is not the one of AVX10. -/
theorem avx10Name_notMem : avx10Name ext ∉ fixedNames := by
  intro hmem
  apply not_prefix_fixedNames _ hmem
  rw [avx10Name, List.append_assoc]
  exact List.prefix_append _ _

theorem proper_avx10Name : avx10Name ext ≠ [] ∧ ' ' ∉ avx10Name ext := by
  have hversion : ' ' ∉ (if 0#32 < ext.avx10Version then
      '.' :: Nat.toDigits 10 ext.avx10Version.toNat else []) := by
    split
    · intro hmem
      rcases List.mem_cons.mp hmem with hdot | hdigit
      · exact absurd hdot (by decide)
      · have hisDigit := Nat.isDigit_of_mem_toDigits (by decide) (by decide)
          hdigit
        exact absurd hisDigit (by decide)
    · exact List.not_mem_nil
  constructor
  · exact List.append_ne_nil_of_left_ne_nil
      (List.append_ne_nil_of_left_ne_nil (by decide) _) _
  · rw [avx10Name, List.mem_append, List.mem_append]
    rintro ((hname | hmem) | hlength)
    · exact absurd hname (by decide)
    · exact hversion hmem
    · cases hcase : ext.avx10VectorLength
      all_goals
        rw [hcase] at hlength
        exact absurd hlength (by decide)

/-- APX and the names that have one place. -/
def placedNames : List StringView :=
  "APX".toList :: (others ext).map Prod.snd

/-- The placed names are fixed, up to the one of AVX10. -/
theorem placedNames_cases :
    placedNames ext = fixedNames ∨
      ∃ before after, placedNames ext = before ++ avx10Name ext :: after ∧
        (before ++ after).Sublist fixedNames := by
  obtain ⟨hleading, havx512, htrailing⟩ := map_snd_tables ext
  unfold placedNames others widest fixedNames
  rw [List.map_append, List.map_append, List.map_append, List.map_append,
    hleading, htrailing]
  split
  · right
    refine ⟨"APX".toList :: (leading {}).map Prod.snd,
      (trailing {}).map Prod.snd, ?_, ?_⟩
    · simp
    · exact ((List.sublist_append_left _ _).append_right _).cons_cons _
  · left
    rw [havx512]

theorem nodup_placedNames : (placedNames ext).Nodup := by
  rcases placedNames_cases ext with hfixed | ⟨before, after, hnames, hsub⟩
  · rw [hfixed]
    exact nodup_fixedNames
  · rw [hnames, List.perm_middle.nodup_iff, List.nodup_cons]
    exact ⟨fun hmem => avx10Name_notMem ext (hsub.subset hmem),
      nodup_fixedNames.sublist hsub⟩

theorem proper_placedNames : Proper ' ' (placedNames ext) := by
  rcases placedNames_cases ext with hfixed | ⟨before, after, hnames, hsub⟩
  · rw [hfixed]
    exact proper_fixedNames
  · intro name hname
    rw [hnames, List.mem_append, List.mem_cons] at hname
    rcases hname with hbefore | rfl | hafter
    · exact proper_fixedNames name
        (hsub.subset (List.mem_append_left after hbefore))
    · exact proper_avx10Name ext
    · exact proper_fixedNames name
        (hsub.subset (List.mem_append_right before hafter))

theorem proper_printed : Proper ' ' ((printed ext).map Prod.snd) := by
  intro name hname
  apply proper_placedNames ext
  simp only [printed, placedNames, others, List.map_append, List.mem_append,
    List.map_cons, List.map_nil, List.mem_cons, List.not_mem_nil,
    or_false] at hname ⊢
  tauto

theorem proper_supportedNames : Proper ' ' (supportedNames ext) := by
  intro name hname
  apply proper_printed ext
  exact (List.filter_sublist.map Prod.snd).subset hname

/-! ## The text -/

/-- The text is the names of the supported extensions, separated by spaces. -/
theorem isaString_eq_join :
    isaString ext = join ' ' (supportedNames ext) := by
  have hfold : appendAll (join ' ' []) (printed ext) =
      join ' ' ([] ++ supportedNames ext) :=
    foldl_separate_append (proper_printed ext) (List.forall_mem_nil _)
  rw [join_nil, List.nil_append] at hfold
  rw [isaString_eq_appendAll, hfold]

/-- The text consists of names separated by single spaces: those of the supported
extensions, each of them once. -/
def ListsSupported (text : StringView) : Prop :=
  ∃ names, text = join ' ' names ∧ Proper ' ' names ∧ names.Nodup ∧
    ∀ name, name ∈ names ↔ (true, name) ∈ printed ext

theorem mem_supportedNames_iff {name : StringView} :
    name ∈ supportedNames ext ↔ (true, name) ∈ printed ext := by
  simp [supportedNames]

/-- Without APX every supported name has one place. -/
theorem nodup_supportedNames (hapx : ext.apx = false) :
    (supportedNames ext).Nodup := by
  have hnames : supportedNames ext =
      ((others ext).filter Prod.fst).map Prod.snd := by
    simp [supportedNames, printed, others, hapx, List.filter_append]
  rw [hnames]
  exact (List.nodup_cons.mp (nodup_placedNames ext)).2.sublist
    (List.filter_sublist.map Prod.snd)

/-- With APX its name has two. -/
theorem not_nodup_supportedNames (hapx : ext.apx = true) :
    ¬(supportedNames ext).Nodup := by
  have hnames : supportedNames ext =
      ((leading ext ++ widest ext).filter Prod.fst).map Prod.snd ++
        "APX".toList :: ((trailing ext).filter Prod.fst).map Prod.snd ++
          ["APX".toList] := by
    simp [supportedNames, printed, hapx, List.filter_append]
  rw [hnames, List.nodup_append]
  rintro ⟨-, -, hdisjoint⟩
  exact hdisjoint _ (by simp) _ List.mem_cons_self rfl

/-- The text lists the supported extensions once each, exactly if APX is not
among them. -/
theorem isaString_listsSupported_iff :
    ListsSupported ext (isaString ext) ↔ ext.apx = false := by
  rw [isaString_eq_join]
  constructor
  · rintro ⟨names, htext, hproper, hnodup, -⟩
    have hnames : supportedNames ext = names :=
      eq_of_join_eq (proper_supportedNames ext) hproper htext
    rw [← Bool.not_eq_true]
    intro hapx
    apply not_nodup_supportedNames ext hapx
    rw [hnames]
    exact hnodup
  · intro hapx
    exact ⟨supportedNames ext, rfl, proper_supportedNames ext,
      nodup_supportedNames ext hapx, fun name => mem_supportedNames_iff ext⟩

end Names

/-- With nothing but APX the text is its name twice. -/
theorem isaString_apx :
    isaString { apx := true } = "APX APX".toList ∧
      ¬ListsSupported { apx := true } (isaString { apx := true }) := by
  have htext : isaString { apx := true } = "APX APX".toList := by decide
  refine ⟨htext, ?_⟩
  rintro ⟨names, hjoin, hproper, hnodup, -⟩
  have hnames : ["APX".toList, "APX".toList] = names := by
    refine eq_of_join_eq ?_ hproper (htext.symm.trans hjoin)
    unfold Proper
    decide
  rw [← hnames] at hnodup
  revert hnodup
  decide

end IsaString

end BenchBox
