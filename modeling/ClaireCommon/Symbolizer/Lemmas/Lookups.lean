import ClaireCommon.Symbolizer.Lemmas.SectionsInside

/-!
This module contains when all lookups in a file that `ElfFile::Init` accepts stay inside the file.
-/

namespace Claire

open Traced Bytes

-- No lookup divides by zero, loops forever or reads outside the file before one of the checks stops it.
structure LookupsInside (env : Env) (block : Block) (address : Nat) (name : CString) : Prop where
  sectionByName : Inside env block (ElfFile.getSectionByName env (.ofBlock env block) name)
  sectionBody : ∀ ptr,
    (ElfFile.getSectionByName env (.ofBlock env block) name).result = .ok (some ptr) →
      Inside env block (ElfFile.getSectionBody env (.ofBlock env block) ptr)
  definitionByAddress :
    Inside env block (ElfFile.getDefinitionByAddress env (.ofBlock env block) address)
  symbolByName : Inside env block (ElfFile.getSymbolByName env (.ofBlock env block) name)

namespace ElfContent

variable {env : Env} {block : Block} {base : Nat}

theorem passes_of_init (hinit : (ElfFile.init env (.ofBlock env block)).result = .ok base)
    : (of env block).Passes Ehdr.sizeof 0 := by
  unfold ElfFile.init at hinit
  have ⟨header, hheader, _⟩ := bind_eq_ok.mp hinit
  exact (at_eq_ok.mp hheader).1

-- A build without DCHECKs finds out with `e_shstrndx`, which is the last field.
theorem inFile_of_inside_getSectionByName {name : CString}
    (hinit : (ElfFile.init env (.ofBlock env block)).result = .ok base)
    (h : Inside env block (ElfFile.getSectionByName env (.ofBlock env block) name))
    : (of env block).InFile Ehdr.sizeof 0 := by
  unfold ElfFile.getSectionByName ElfFile.getElfHeader at h
  rw [inside_at_bind] at h
  have hrest := h (passes_of_init hinit)
  have hshstrndx := (inside_field (by decide)).mp (inside_bind.mp hrest).1
  unfold InFile Ehdr.sizeof at *
  omega

theorem lookupsInside_iff (hinit : (ElfFile.init env (.ofBlock env block)).result = .ok base)
    : (∀ address < 2 ^ 64, ∀ name, LookupsInside env block address name)
        ↔ (of env block).Readable := by
  constructor
  . intro h
    have hlookups name := h 0 (by decide) name
    have hheader := inFile_of_inside_getSectionByName hinit (hlookups ⟨[], by decide⟩).sectionByName
    constructor
    . exact hheader
    . rw [← inside_getSection_iff hheader]
      intro name
      rw [inside_getSection_iff_body]
      exact ⟨(hlookups name).sectionByName, (hlookups name).sectionBody⟩
    . rw [← inside_getDefinitionByAddress_iff hheader]
      intro address haddress
      exact (h address haddress ⟨[], by decide⟩).definitionByAddress
    . rw [← inside_getSymbolByName_iff hheader]
      intro name
      exact (hlookups name).symbolByName
  . intro h address haddress name
    have hsection := (inside_getSection_iff h.header).mpr h.sectionNames name
    rw [inside_getSection_iff_body] at hsection
    constructor
    . exact hsection.1
    . exact hsection.2
    . exact (inside_getDefinitionByAddress_iff h.header).mpr h.definitions address haddress
    . exact (inside_getSymbolByName_iff h.header).mpr h.names name

/-! A file with one segment and one section, which is a table of one symbol. -/

def symbolFile (entsize : Nat) : List UInt8 :=
  [0x7f, 0x45, 0x4c, 0x46, 2, 1, 1] ++ List.replicate 9 0
    ++ toLittleEndian 2 ET_DYN ++ [0x3e, 0] ++ toLittleEndian 4 EV_CURRENT ++ List.replicate 8 0
    ++ toLittleEndian 8 64 ++ toLittleEndian 8 120 ++ List.replicate 6 0
    ++ toLittleEndian 2 Phdr.sizeof ++ toLittleEndian 2 1
    ++ toLittleEndian 2 Shdr.sizeof ++ toLittleEndian 2 1 ++ toLittleEndian 2 SHN_UNDEF
    ++ toLittleEndian 4 PT_LOAD ++ List.replicate 52 0
    ++ List.replicate 4 0 ++ toLittleEndian 4 SHT_DYNSYM ++ List.replicate 16 0
    ++ toLittleEndian 8 184 ++ toLittleEndian 8 24 ++ List.replicate 16 0 ++ toLittleEndian 8 entsize
    ++ List.replicate 24 0

theorem length_symbolFile (entsize : Nat) : (symbolFile entsize).length = 208 := by
  unfold symbolFile
  simp only [List.length_append, List.length_replicate, length_toLittleEndian]
  rfl

def symbolEnv (entsize : Nat) : Env :=
  .ofSection .debugInfo (symbolFile entsize)
    (Nat.lt_of_le_of_lt (Nat.le_of_eq (length_symbolFile entsize)) (by decide))

theorem symbolFile_readable : (of (symbolEnv 24) .debugInfo).Readable := by
  have hin (n offset : Nat) (h : offset + n ≤ 208) : (of (symbolEnv 24) .debugInfo).InFile n offset :=
    Nat.le_trans h (Nat.le_of_eq (length_symbolFile 24).symm)
  have hshnum : (of (symbolEnv 24) .debugInfo).shnum = 1 := by decide +kernel
  have hheader : (of (symbolEnv 24) .debugInfo).header 0 = 120 := by decide +kernel
  have hsections : ∀ i < (of (symbolEnv 24) .debugInfo).shnum,
      (of (symbolEnv 24) .debugInfo).header i = 120 := by
    intro i hi
    rw [hshnum, Nat.lt_one_iff] at hi
    rw [hi, hheader]
  constructor
  . exact hin _ _ (by decide)
  . intro hndx
    exact absurd (by decide +kernel) hndx
  . intro _ i hi _
    rw [hsections i hi]
    have hoffset : (of (symbolEnv 24) .debugInfo).shOffset 120 = 184 := by decide +kernel
    have hsymbols : (of (symbolEnv 24) .debugInfo).shSize 120
        / (of (symbolEnv 24) .debugInfo).shEntsize 120 = 1 := by decide +kernel
    refine ⟨hin _ _ (by decide), fun _ => ⟨hin _ _ (by decide), fun _ => ?_⟩⟩
    refine ⟨hin _ _ (by decide), hin _ _ (by decide), by decide +kernel, ?_⟩
    rw [hoffset, hsymbols]
    intro k hk _
    rw [Nat.lt_one_iff.mp hk]
    exact ⟨hin _ _ (by decide), fun _ => ⟨hin _ _ (by decide), fun _ => hin _ _ (by decide)⟩⟩
  . intro _ i hi _
    rw [hsections i hi]
    refine ⟨hin _ _ (by decide), ?_⟩
    intro hlink
    exact absurd (by decide +kernel) hlink

theorem lookupsInside_symbolFile
    : (ElfFile.init (symbolEnv 24) (.ofBlock (symbolEnv 24) .debugInfo)).result = .ok 0
        ∧ ∀ address < 2 ^ 64, ∀ name, LookupsInside (symbolEnv 24) .debugInfo address name := by
  have hinit : (ElfFile.init (symbolEnv 24) (.ofBlock (symbolEnv 24) .debugInfo)).result = .ok 0 := by
    decide +kernel
  exact ⟨hinit, (lookupsInside_iff hinit).mpr symbolFile_readable⟩

-- `sh_size / sh_entsize` with an entry size of zero
theorem not_lookupsInside_entsize
    : (ElfFile.init (symbolEnv 0) (.ofBlock (symbolEnv 0) .debugInfo)).result = .ok 0
        ∧ (ElfFile.getDefinitionByAddress (symbolEnv 0) (.ofBlock (symbolEnv 0) .debugInfo) 0).result
          = .error .divisionByZero
        ∧ ∀ name, ¬LookupsInside (symbolEnv 0) .debugInfo 0 name := by
  have hdivides : (ElfFile.getDefinitionByAddress (symbolEnv 0)
      (.ofBlock (symbolEnv 0) .debugInfo) 0).result = .error .divisionByZero := by
    decide +kernel
  refine ⟨by decide +kernel, hdivides, ?_⟩
  intro name h
  exact absurd (h.definitionByAddress.stops _ hdivides) (by decide)

end ElfContent
end Claire
