import BenchBox.Isa.IsaString
import BenchBox.Support.Padding
import Mathlib.Data.List.Nodup

/-!
# Reading the list of instruction sets

The text of `get_cpu_isa_string` gives back every flag that it is built from, and
the version and the vector length of AVX10.  So what it names is what the
operating system enables, where the detection asks for that.
-/

namespace BenchBox

open Words

namespace IsaString

/-! ## The names of a text -/

/-- The version and the vector length in the name of AVX10. -/
def readAvx10 (name : StringView) : Option (ℕ × Avx10VectorLength) :=
  if "AVX10".toList <+: name then
    match (name.drop 5).splitOn '-' with
    | [version] =>
        some (Nat.ofDigitChars 10 (version.drop 1) 0, .AVX_10_LENGTH_UNKNOWN)
    | [version, length] =>
        some (Nat.ofDigitChars 10 (version.drop 1) 0,
          if length = "128".toList then .AVX_10_128
          else if length = "256".toList then .AVX_10_256
          else .AVX_10_512)
    | _ => none
  else
    none

/-- The names give the extensions back, and there are no others. -/
structure Reads (names : List StringView) (ext : X86Extensions) : Prop where
  /-- Below AVX-512 a name is there exactly if its flag is set. -/
  narrow : ∀ b name,
    (b, name) ∈ leading ext ++ trailing ext ++ [(ext.apx, "APX".toList)] →
      (name ∈ names ↔ b = true)
  /-- So are the names of AVX-512, unless AVX10 replaces them. -/
  wide : ∀ b name, (b, name) ∈ avx512 ext →
    (name ∈ names ↔ b = true ∧ ext.avx10 = false)
  avx10 : names.filterMap readAvx10 =
    if ext.avx10 then [(ext.avx10Version.toNat, ext.avx10VectorLength)] else []
  only : ∀ name ∈ names,
    (true, name) ∈ leading ext ++ trailing ext ++ [(ext.apx, "APX".toList)] ∨
      (ext.avx10 = false ∧ (true, name) ∈ avx512 ext) ∨
      (ext.avx10 = true ∧ name = avx10Name ext)
  /-- Each name is there once, but for the one of APX. -/
  once : ∀ name ∈ names,
    names.count name = if name = "APX".toList then 2 else 1

section Reading

variable (ext : X86Extensions)

theorem tokens_isaString : tokens ' ' (isaString ext) = supportedNames ext := by
  rw [isaString_eq_join, tokens_join (proper_supportedNames ext)]

theorem mem_printed_iff {b : Bool} {name : StringView} :
    (b, name) ∈ printed ext ↔
      (b, name) ∈ (ext.apx, "APX".toList) :: others ext := by
  simp only [printed, others, List.mem_append, List.mem_cons,
    List.not_mem_nil, or_false]
  tauto

/-- APX is printed twice. -/
theorem printed_perm :
    (printed ext).Perm
      ((ext.apx, "APX".toList) :: (ext.apx, "APX".toList) :: others ext) := by
  rw [List.perm_iff_count]
  intro row
  simp only [printed, others, List.count_append, List.count_cons,
    List.count_nil]
  omega

theorem count_supportedNames {name : StringView}
    (h : name ∈ supportedNames ext) :
    (supportedNames ext).count name = if name = "APX".toList then 2 else 1 := by
  have hperm : (supportedNames ext).Perm
      ((((ext.apx, "APX".toList) :: (ext.apx, "APX".toList) ::
        others ext).filter Prod.fst).map Prod.snd) :=
    ((printed_perm ext).filter _).map _
  have hplaced : "APX".toList ∉ (others ext).map Prod.snd ∧
      ((others ext).map Prod.snd).Nodup :=
    List.nodup_cons.mp (nodup_placedNames ext)
  have hsub : (((others ext).filter Prod.fst).map Prod.snd).Sublist
      ((others ext).map Prod.snd) := List.filter_sublist.map Prod.snd
  rw [hperm.mem_iff] at h
  rw [hperm.count_eq]
  generalize "APX".toList = apxName at *
  have hapart : apxName ∉ ((others ext).filter Prod.fst).map Prod.snd :=
    fun hmem => hplaced.1 (hsub.subset hmem)
  have honce := hplaced.2.sublist hsub
  cases happ : ext.apx with
  | false =>
      simp only [happ, List.filter_cons_of_neg, Bool.false_eq_true,
        not_false_eq_true] at h ⊢
      rw [if_neg (ne_of_mem_of_not_mem h hapart)]
      exact List.count_eq_one_of_mem honce h
  | true =>
      simp only [happ, List.filter_cons_of_pos, List.map_cons,
        List.mem_cons] at h ⊢
      by_cases hname : name = apxName
      · rw [hname, List.count_cons_self, List.count_cons_self,
          List.count_eq_zero.mpr hapart, if_pos rfl]
      · have hmem : name ∈ ((others ext).filter Prod.fst).map Prod.snd := by
          tauto
        rw [List.count_cons_of_ne (Ne.symm hname),
          List.count_cons_of_ne (Ne.symm hname),
          List.count_eq_one_of_mem honce hmem, if_neg hname]

/-- Nothing but the tables and the name of AVX10 is printed. -/
theorem cases_of_mem_supportedNames {name : StringView}
    (h : name ∈ supportedNames ext) :
    (true, name) ∈ leading ext ++ trailing ext ++ [(ext.apx, "APX".toList)] ∨
      (ext.avx10 = false ∧ (true, name) ∈ avx512 ext) ∨
      (ext.avx10 = true ∧ name = avx10Name ext) := by
  rw [mem_supportedNames_iff, mem_printed_iff, others, widest] at h
  cases havx10 : ext.avx10 with
  | false =>
      simp only [havx10, Bool.false_eq_true, if_false, List.mem_cons,
        List.mem_append] at h
      simp only [List.mem_append, List.mem_singleton]
      tauto
  | true =>
      simp only [havx10, if_true, List.mem_cons, List.mem_append,
        List.not_mem_nil, or_false] at h
      simp only [List.mem_append, List.mem_singleton]
      rcases h with happ | (hleading | hname) | htrailing
      · exact .inl (.inr happ)
      · exact .inl (.inl (.inl hleading))
      · exact .inr (.inr ⟨trivial, congrArg Prod.snd hname⟩)
      · exact .inl (.inl (.inr htrailing))

/-- A name has one flag. -/
theorem eq_of_mem_printed {b c : Bool} {name : StringView}
    (hb : (b, name) ∈ printed ext) (hc : (c, name) ∈ printed ext) : b = c := by
  rw [mem_printed_iff] at hb hc
  have hnodup : (((ext.apx, "APX".toList) :: others ext).map Prod.snd).Nodup :=
    nodup_placedNames ext
  exact congrArg Prod.fst (List.inj_on_of_nodup_map hnodup hb hc rfl)

theorem mem_supportedNames_of_mem_printed {b : Bool} {name : StringView}
    (h : (b, name) ∈ printed ext) :
    name ∈ supportedNames ext ↔ b = true := by
  rw [mem_supportedNames_iff]
  constructor
  · exact fun htrue => eq_of_mem_printed ext h htrue
  · rintro rfl
    exact h

/-- AVX10 takes the place of the names of AVX-512. -/
theorem notMem_placedNames_of_avx10 (havx10 : ext.avx10 = true) :
    ∀ name ∈ (avx512 ext).map Prod.snd, name ∉ placedNames ext := by
  obtain ⟨hleading, havx512, htrailing⟩ := map_snd_tables ext
  have hapart : ∀ name ∈ (avx512 {}).map Prod.snd, name ∈ fixedNames ∧
      name ∉ "APX".toList ::
        ((leading {}).map Prod.snd ++ (trailing {}).map Prod.snd) := by
    decide +kernel
  intro name hname hplaced
  rw [havx512] at hname
  obtain ⟨hfixed, hother⟩ := hapart name hname
  rw [placedNames, others, widest, if_pos havx10, List.map_append,
    List.map_append, hleading, htrailing] at hplaced
  simp only [List.map_cons, List.map_nil, List.mem_cons, List.mem_append,
    List.not_mem_nil, or_false] at hplaced hother
  rcases hplaced with happ | (hmem | havx) | hmem
  · exact hother (.inl happ)
  · exact hother (.inr (.inl hmem))
  · exact avx10Name_notMem ext (havx ▸ hfixed)
  · exact hother (.inr (.inr hmem))

/-- The version part of the name of AVX10 is read back. -/
theorem readVersion (version : BitVec 32) :
    let text := if 0#32 < version then
      '.' :: Nat.toDigits 10 version.toNat else []
    '-' ∉ text ∧ Nat.ofDigitChars 10 (text.drop 1) 0 = version.toNat := by
  intro text
  by_cases hpos : 0#32 < version
  · have htext : text = '.' :: Nat.toDigits 10 version.toNat := if_pos hpos
    rw [htext, List.drop_one, List.tail_cons, Nat.ofDigitChars_ten_toDigits,
      List.mem_cons, not_or]
    refine ⟨⟨by decide, ?_⟩, rfl⟩
    intro hdigit
    exact absurd (Nat.isDigit_of_mem_toDigits (by decide) (by decide) hdigit)
      (by decide)
  · have htext : text = [] := if_neg hpos
    have hzero : version.toNat = 0 := by
      rw [BitVec.lt_def] at hpos
      simpa using hpos
    rw [htext, hzero]
    exact ⟨List.not_mem_nil, rfl⟩

/-- The name of AVX10 is read back. -/
theorem readAvx10_avx10Name :
    readAvx10 (avx10Name ext) =
      some (ext.avx10Version.toNat, ext.avx10VectorLength) := by
  obtain ⟨hdash, hversion⟩ := readVersion ext.avx10Version
  rw [readAvx10, avx10Name, List.append_assoc,
    if_pos (List.prefix_append _ _), List.drop_left' (by rfl)]
  generalize (if 0#32 < ext.avx10Version then
    '.' :: Nat.toDigits 10 ext.avx10Version.toNat else []) = version at *
  have hsplit {length : StringView} (hlength : '-' ∉ length) :
      (version ++ '-' :: length).splitOn '-' = [version, length] := by
    rw [List.splitOn_append_cons_self_of_not_mem hdash,
      List.splitOn_eq_singleton hlength]
  cases ext.avx10VectorLength with
  | AVX_10_LENGTH_UNKNOWN =>
      dsimp only
      rw [List.append_nil, List.splitOn_eq_singleton hdash]
      exact congrArg (fun n => some (n, _)) hversion
  | AVX_10_128 =>
      dsimp only
      rw [hsplit (by decide)]
      exact congrArg (fun n => some (n, _)) hversion
  | AVX_10_256 =>
      dsimp only
      rw [hsplit (by decide)]
      exact congrArg (fun n => some (n, _)) hversion
  | AVX_10_512 =>
      dsimp only
      rw [hsplit (by decide)]
      exact congrArg (fun n => some (n, _)) hversion

/-- No other name is read as the one of AVX10. -/
theorem filterMap_readAvx10_of_fixed {table : List (Bool × StringView)}
    (h : ∀ name ∈ table.map Prod.snd, name ∈ fixedNames) :
    ((table.filter Prod.fst).map Prod.snd).filterMap readAvx10 = [] := by
  rw [List.filterMap_eq_nil_iff]
  intro name hname
  apply if_neg
  exact not_prefix_fixedNames name
    (h name ((List.filter_sublist.map Prod.snd).subset hname))

theorem filterMap_readAvx10_supportedNames :
    (supportedNames ext).filterMap readAvx10 =
      if ext.avx10 then [(ext.avx10Version.toNat, ext.avx10VectorLength)]
      else [] := by
  obtain ⟨hleading, havx512, htrailing⟩ := map_snd_tables ext
  have hfixed : (∀ name ∈ (leading {}).map Prod.snd, name ∈ fixedNames) ∧
      (∀ name ∈ (avx512 {}).map Prod.snd, name ∈ fixedNames) ∧
      (∀ name ∈ (trailing {}).map Prod.snd, name ∈ fixedNames) ∧
      "APX".toList ∈ fixedNames := by
    decide +kernel
  obtain ⟨hleadingFixed, havx512Fixed, htrailingFixed, hapxFixed⟩ := hfixed
  rw [← hleading] at hleadingFixed
  rw [← havx512] at havx512Fixed
  rw [← htrailing] at htrailingFixed
  have hwidest : (((widest ext).filter Prod.fst).map Prod.snd).filterMap
      readAvx10 = if ext.avx10 then
        [(ext.avx10Version.toNat, ext.avx10VectorLength)] else [] := by
    rw [widest]
    split
    · exact congrArg Option.toList (readAvx10_avx10Name ext)
    · exact filterMap_readAvx10_of_fixed havx512Fixed
  have hapx : (([(ext.apx, "APX".toList)].filter Prod.fst).map
      Prod.snd).filterMap readAvx10 = [] :=
    filterMap_readAvx10_of_fixed (List.forall_mem_singleton.mpr hapxFixed)
  simp only [supportedNames, printed, List.filter_append, List.map_append,
    List.filterMap_append, filterMap_readAvx10_of_fixed hleadingFixed, hwidest,
    hapx, filterMap_readAvx10_of_fixed htrailingFixed, List.append_nil,
    List.nil_append]

/-- The text gives the extensions back. -/
theorem reads_isaString : Reads (tokens ' ' (isaString ext)) ext := by
  rw [tokens_isaString]
  refine ⟨?_, ?_, filterMap_readAvx10_supportedNames ext,
    fun _ => cases_of_mem_supportedNames ext,
    fun _ => count_supportedNames ext⟩
  · intro b name hrow
    apply mem_supportedNames_of_mem_printed
    simp only [printed, List.mem_append] at hrow ⊢
    tauto
  · intro b name hrow
    cases havx10 : ext.avx10 with
    | false =>
        have hprinted : (b, name) ∈ printed ext := by
          rw [printed, widest, havx10, if_neg Bool.false_ne_true]
          simp only [List.mem_append]
          exact .inl (.inl (.inl (.inr hrow)))
        simpa using mem_supportedNames_of_mem_printed ext hprinted
    | true =>
        have hname := List.mem_map_of_mem (f := Prod.snd) hrow
        have hplaced := notMem_placedNames_of_avx10 ext havx10 name hname
        refine iff_of_false ?_ (by simp)
        intro hmem
        rw [mem_supportedNames_iff, mem_printed_iff] at hmem
        exact hplaced (List.mem_map_of_mem (f := Prod.snd) hmem)

end Reading

/-! ## The text of a processor -/

theorem usesAvx512_of_mem_avx512 {ext : X86Extensions} {name : StringView}
    (h : (true, name) ∈ avx512 ext) : ext.usesAvx512 = true := by
  have hany : (avx512 ext).any Prod.fst = true :=
    List.any_eq_true.mpr ⟨_, h, rfl⟩
  simp only [avx512, texts, List.map_cons, List.map_nil, List.any_cons,
    List.any_nil] at hany
  rw [X86Extensions.usesAvx512]
  grind

/-- A name of AVX-512 or AVX10 stands for a flag on the AVX-512 registers. -/
theorem usesAvx512_of_mem_supportedNames {ext : X86Extensions}
    {name : StringView} (h : name ∈ supportedNames ext)
    (hwide : "AVX512".toList <+: name ∨ "AVX10".toList <+: name) :
    ext.usesAvx512 = true := by
  obtain ⟨hleading, -, htrailing⟩ := map_snd_tables ext
  have hother : ∀ name ∈ "APX".toList ::
      ((leading {}).map Prod.snd ++ (trailing {}).map Prod.snd),
      ¬("AVX512".toList <+: name ∨ "AVX10".toList <+: name) := by
    decide +kernel
  rw [← hleading, ← htrailing] at hother
  rw [mem_supportedNames_iff, mem_printed_iff, others] at h
  have hwidest : (true, name) ∈ widest ext := by
    by_contra hnot
    apply hother name _ hwide
    simp only [List.mem_cons, List.mem_append, hnot, or_false,
      Prod.mk.injEq] at h ⊢
    rcases h with ⟨-, happ⟩ | hmem | hmem
    · exact .inl happ
    · exact .inr (.inl (List.mem_map_of_mem hmem))
    · exact .inr (.inr (List.mem_map_of_mem hmem))
  rw [widest] at hwidest
  split at hwidest
  · rename_i havx10
    rw [X86Extensions.usesAvx512, havx10, Bool.or_true]
  · exact usesAvx512_of_mem_avx512 hwidest

/-- What the text of a processor names, its operating system enables. -/
theorem osEnabled_of_mem_getCpuIsaString (cpu : Cpu) (name : StringView)
    (h : name ∈ tokens ' ' (getCpuIsaString cpu)) :
    (("AVX512".toList <+: name ∨ "AVX10".toList <+: name) →
      AvxOsEnabled cpu ∧ Avx512OsEnabled cpu) ∧
    (name ∈ ["AVX".toList, "AVX2".toList, "VAES".toList, "VPCLMULQDQ".toList] →
      AvxOsEnabled cpu) := by
  rw [getCpuIsaString, tokens_isaString] at h
  refine ⟨?_, ?_⟩
  · intro hwide
    exact avx512OsEnabled_of_osEnabled (osEnabled_of_usesAvx512 cpu
      (usesAvx512_of_mem_supportedNames h hwide))
  · intro hname
    apply avxOsEnabled_of_osEnabled
    apply osEnabled_of_usesGatedAvx
    have hflag {b : Bool} (hrow : (b, name) ∈
        leading (getCpuSupportedIsas cpu) ++
          trailing (getCpuSupportedIsas cpu)) : b = true := by
      refine (mem_supportedNames_of_mem_printed _ ?_).mp h
      simp only [printed, List.mem_append] at hrow ⊢
      tauto
    simp only [List.mem_cons, List.not_mem_nil, or_false] at hname
    rw [X86Extensions.usesGatedAvx]
    rcases hname with rfl | rfl | rfl | rfl
    · rw [hflag (b := (getCpuSupportedIsas cpu).avx) (by simp [leading, texts])]
      rfl
    · rw [hflag (b := (getCpuSupportedIsas cpu).avx2)
        (by simp [leading, texts])]
      simp
    · rw [hflag (b := (getCpuSupportedIsas cpu).vaes)
        (by simp [trailing, texts])]
      simp
    · rw [hflag (b := (getCpuSupportedIsas cpu).vpclmulqdq)
        (by simp [trailing, texts])]
      simp

/-- A processor with AVX-512 and all its registers enabled. -/
theorem osEnabled_of_mem_getCpuIsaString_avx512f :
    let cpu : Cpu :=
      { cpuid := fun leaf _ =>
          if leaf = 0 then ⟨7, 0, 0, 0⟩
          else if leaf = 1 then ⟨0, 0, 0x18000000, 0⟩
          else if leaf = 7 then ⟨0, 0x10000, 0, 0⟩
          else ⟨0, 0, 0, 0⟩
        xgetbv := fun _ => 0xE7 }
    "AVX512F".toList ∈ tokens ' ' (getCpuIsaString cpu) ∧
      AvxOsEnabled cpu ∧ Avx512OsEnabled cpu := by
  intro cpu
  have hmem : "AVX512F".toList ∈ tokens ' ' (getCpuIsaString cpu) := by
    decide +kernel
  exact ⟨hmem, (osEnabled_of_mem_getCpuIsaString cpu _ hmem).1
    (.inl (by decide))⟩

end IsaString

end BenchBox
