import ClaireCommon.Symbolizer.Lemmas.Elf
import ClaireCommon.Symbolizer.SymbolTable

/-!
This module contains which symbols `ElfFile::GetSymbolByName` finds: those of the `SHT_DYNSYM` tables,
a `SHT_SYMTAB` table is skipped.
-/

namespace Claire

open Bytes Traced

variable {env : Env} {elf : ElfFile} {image : SymbolImage} {p ptr sym : Ptr} {name : CString}

namespace SymbolEntry.IsAt

variable {entry : SymbolEntry} (h : entry.IsAt env p)

include h

theorem name_eq : (Sym.name env p).result = .ok entry.name := Env.field_of_isField h.name

theorem shndx_eq : (Sym.shndx env p).result = .ok entry.shndx := Env.field_of_isField h.shndx

end SymbolEntry.IsAt

namespace ElfFile

open SymbolImage StringTable

variable {i : Nat} {header : SectionHeader}

structure HasHeader (env : Env) (image : SymbolImage) (i : Nat) (header : SectionHeader) (ptr : Ptr)
    : Prop where
  isAt : header.IsAt env ptr
  link : (Shdr.link env ptr).result = .ok (image.tables i).link
  entsize : (Shdr.entsize env ptr).result = .ok (image.tables i).entsize
  mapped : ptr.offset + Shdr.sizeof ≤ (env.mapped ptr.block).length

theorem hasHeader_of_isImage (h : image.IsImage env elf) (hi : image.sections[i]? = some header)
    : HasHeader env image i header (elf.file.add (image.shoff + i * Shdr.sizeof)) := by
  have ⟨hlt, _⟩ := List.getElem?_eq_some_iff.mp hi
  have hend := end_le h.toIsImage hlt
  have hmapped := h.mapped
  refine ⟨h.sections i header hi, ?_, ?_, ?_⟩
  . exact Env.field_of_isField (h.links i hlt)
  . exact Env.field_of_isField (h.entsizes i hlt)
  . rw [Ptr.block_add, Ptr.offset_add]
    omega

theorem skipsByAddress_eq (hsection : HasHeader env image i header ptr)
    : (skipsByAddress env ptr).result
        = .ok (header.type ≠ SHT_DYNSYM && header.type ≠ SHT_SYMTAB) := by
  have ⟨bytes, hbytes⟩ := Env.exists_holds hsection.mapped
  unfold skipsByAddress
  rw [result_bind_of_ok (Env.peekMany_eq_ok.mpr hbytes), result_bind_of_ok hsection.isAt.type_eq]
  rfl

theorem skipsByName_eq (hsection : HasHeader env image i header ptr)
    : (skipsByName env ptr).result
        = .ok (decide ((image.tables i).link = SHN_UNDEF ∨ header.type ≠ SHT_DYNSYM)) := by
  unfold skipsByName
  rw [result_bind_of_ok hsection.link]
  split
  next hlink => simp [hlink]
  next hlink =>
    rw [result_bind_of_ok hsection.isAt.type_eq]
    simp [hlink]

theorem getLinkedString_eq (h : image.IsImage env elf)
    (hstrings : image.HasSymbols env elf i header) (hlink : (image.tables i).link ≠ SHN_UNDEF)
    {entry : SymbolEntry} (hentry : entry ∈ (image.tables i).symbols)
    : ∃ stringTable symName, (getSectionByIndex env elf (image.tables i).link).result = .ok stringTable
        ∧ (getString env elf stringTable entry.name).result = .ok symName
        ∧ ∀ name : CString, Dwarf.Terminated env symName name.bytes
            ↔ IsNameAt (image.strings (image.tables i).link) name entry.name := by
  have ⟨table, htable, hstringTable, hnames⟩ := hstrings.strings hlink
  have ⟨hlt, _⟩ := List.getElem?_eq_some_iff.mp htable
  have hat := h.sections _ table htable
  have hname := hnames entry hentry
  exact ⟨_, _, getSectionByIndex_eq h.toIsImage hlt, getString_eq hstringTable hat hname,
    fun name => terminated_iff_isNameAt hstringTable hname⟩

theorem ne_zero_of_isNameAt {table : List UInt8} (htable : WellFormed table) (hname : name.bytes ≠ [])
    {offset : Nat} (h : IsNameAt table name offset) : offset ≠ 0 := by
  intro hzero
  have ⟨rest, hrest⟩ := h
  rw [hzero, List.drop_zero] at hrest
  have hfirst := htable.first
  rw [hrest] at hfirst
  cases hbytes : name.bytes with
  | nil => contradiction
  | cons byte bytes =>
    rw [hbytes] at hfirst
    have hzero : byte = 0 := by simpa using hfirst
    apply name.nonzero
    rw [hbytes, hzero]
    exact List.mem_cons_self

theorem isNamed_spec (h : image.IsImage env elf) (hsection : HasHeader env image i header ptr)
    (hsymbols : image.HasSymbols env elf i header) (hlink : (image.tables i).link ≠ SHN_UNDEF)
    (hname : name.bytes ≠ []) {entry : SymbolEntry} (hentry : entry ∈ (image.tables i).symbols)
    (hat : entry.IsAt env sym)
    : ∃ found, (isNamed env elf name ptr sym).result = .ok found
        ∧ (found = true ↔ entry.shndx ≠ SHN_UNDEF
          ∧ IsNameAt (image.strings (image.tables i).link) name entry.name) := by
  have ⟨stringTable, symName, hindex, hstring, hnamed⟩ := getLinkedString_eq h hsymbols hlink hentry
  have ⟨table, htable, hstringTable, hnames⟩ := hsymbols.strings hlink
  unfold isNamed
  rw [result_bind_of_ok hat.shndx_eq]
  split
  next hdefined =>
    rw [result_bind_of_ok hat.name_eq]
    split
    next hne =>
      have ⟨text, htext⟩ := exists_isNameAt hstringTable.wellFormed (hnames entry hentry)
      have hstrcmp := Env.strcmp_of_terminated ((hnamed text).mpr htext) name
      rw [result_bind_of_ok hsection.link, result_bind_of_ok hindex, result_bind_of_ok hstring,
        result_bind_of_ok hstrcmp]
      refine ⟨_, rfl, ?_⟩
      simp only [hdefined, ne_eq, not_false_eq_true, true_and, ← hnamed name, Bool.not_eq_eq_eq_not,
        Bool.not_true, decide_eq_false_iff_not, not_not]
      constructor
      . intro heq
        rw [← heq]
        exact (hnamed text).mpr htext
      . intro hterminated
        exact Dwarf.terminated_unique ((hnamed text).mpr htext) hterminated
    next hzero =>
      refine ⟨false, rfl, ?_⟩
      simp only [Bool.false_eq_true, false_iff]
      intro ⟨_, hnameAt⟩
      exact hzero (ne_zero_of_isNameAt hstringTable.wellFormed hname hnameAt)
  next hundefined =>
    refine ⟨false, rfl, ?_⟩
    simp only [Bool.false_eq_true, false_iff]
    intro ⟨hdefined, _⟩
    exact hundefined hdefined

def HasSymbolName (env : Env) (elf : ElfFile) (symbol : Symbol) (name : CString) : Prop :=
  ∃ q, (getSymbolName env elf symbol).result = .ok (some q) ∧ Dwarf.Terminated env q name.bytes

theorem hasSymbolName_of_isNameAt (h : image.IsImage env elf)
    (hsection : HasHeader env image i header ptr) (hsymbols : image.HasSymbols env elf i header)
    (hlink : (image.tables i).link ≠ SHN_UNDEF) (hname : name.bytes ≠ []) {entry : SymbolEntry}
    (hentry : entry ∈ (image.tables i).symbols) (hat : entry.IsAt env sym)
    (hnameAt : IsNameAt (image.strings (image.tables i).link) name entry.name)
    : HasSymbolName env elf ⟨some ptr, some sym⟩ name := by
  have ⟨stringTable, symName, hindex, hstring, hnamed⟩ := getLinkedString_eq h hsymbols hlink hentry
  have ⟨table, htable, hstringTable, _⟩ := hsymbols.strings hlink
  have hne := ne_zero_of_isNameAt hstringTable.wellFormed hname hnameAt
  refine ⟨symName, ?_, (hnamed name).mpr hnameAt⟩
  unfold getSymbolName
  dsimp only
  rw [result_bind_of_ok hat.name_eq, if_neg hne, result_bind_of_ok hsection.link, if_neg hlink,
    result_bind_of_ok hindex, result_bind_of_ok hstring]
  rfl

theorem findSymbol_spec (hlt : elf.length < 2 ^ 64) (hsection : HasHeader env image i header ptr)
    (hsymbols : image.HasSymbols env elf i header) {isMatch : Ptr → Reader Bool}
    {P : SymbolEntry → Prop} {Q : Symbol → Prop}
    (hmatch : ∀ entry ∈ (image.tables i).symbols, ∀ sym, entry.IsAt env sym →
      ∃ found, (isMatch sym).result = .ok found ∧ (found = true ↔ P entry)
        ∧ (found = true → Q ⟨some ptr, some sym⟩))
    : ∃ r, (findSymbol env elf isMatch ptr).result = .ok r
        ∧ (r.isSome ↔ ∃ entry ∈ (image.tables i).symbols, P entry)
        ∧ ∀ symbol, r = some symbol → Q symbol := by
  have hroom : header.offset + Sym.sizeof ≤ elf.length := by
    have hbounds := hsymbols.inBounds
    have hle := Nat.mul_le_mul_right Sym.sizeof hsymbols.nonempty
    rw [hsymbols.size] at hbounds
    omega
  have hcount : header.size / (image.tables i).entsize = (image.tables i).symbols.length := by
    rw [hsymbols.size, hsymbols.entsize, Nat.mul_div_cancel _ (by decide)]
  unfold findSymbol
  rw [result_bind_of_ok hsection.isAt.offset_eq, result_bind_of_ok (at_eq hroom hlt),
    result_bind_of_ok hsection.isAt.size_eq, result_bind_of_ok hsection.entsize, hcount,
    if_neg (by rw [hsymbols.entsize]; decide)]
  have hscan := @scan_spec _ _ _ _ (·.add Sym.sizeof)
    (fun sym => do
      let found ← isMatch sym
      return if found then some ⟨some ptr, some sym⟩ else none)
    (image.tables i).symbols.length (elf.file.add header.offset)
    (fun k => ∃ entry, (image.tables i).symbols[k]? = some entry ∧ P entry) Q (by
      intro k hk
      have hentry := List.getElem?_eq_getElem hk
      have hat := hsymbols.symbols k _ hentry
      rw [← Ptr.add_add] at hat
      rw [Ptr.iterate_add]
      have ⟨found, hfound, hP, hQ⟩ := hmatch _ (List.getElem_mem hk) _ hat
      refine ⟨_, result_bind_of_ok hfound _, ?_, ?_⟩
      . rw [hentry]
        cases found <;> simp [← hP]
      . intro symbol hsymbol
        cases found with
        | true =>
          have heq := Option.some.inj hsymbol
          rw [← heq]
          exact hQ rfl
        | false => contradiction)
  have ⟨r, hr, hsome, hresult⟩ := hscan
  refine ⟨r, hr, ?_, hresult⟩
  rw [hsome]
  constructor
  . intro ⟨k, _, entry, hentry, hP⟩
    exact ⟨entry, List.mem_of_getElem? hentry, hP⟩
  . intro ⟨entry, hmem, hP⟩
    have ⟨k, hk⟩ := List.mem_iff_getElem?.mp hmem
    have ⟨hlt, _⟩ := List.getElem?_eq_some_iff.mp hk
    exact ⟨k, hlt, entry, hk, hP⟩

theorem symbolIn_spec (h : image.IsImage env elf) (hname : name.bytes ≠ [])
    (hi : image.sections[i]? = some header)
    : ∃ r, (symbolIn env elf name (elf.file.add (image.shoff + i * Shdr.sizeof))).result = .ok r
        ∧ (r.isSome ↔ header.type = SHT_DYNSYM ∧ (image.tables i).link ≠ SHN_UNDEF
          ∧ ∃ entry ∈ (image.tables i).symbols, entry.shndx ≠ SHN_UNDEF
            ∧ IsNameAt (image.strings (image.tables i).link) name entry.name)
        ∧ ∀ symbol, r = some symbol → symbol ≠ ⟨none, none⟩ ∧ HasSymbolName env elf symbol name := by
  have hsection := hasHeader_of_isImage h hi
  unfold symbolIn
  rw [result_bind_of_ok (skipsByName_eq hsection)]
  by_cases hskips : (image.tables i).link = SHN_UNDEF ∨ header.type ≠ SHT_DYNSYM
  . rw [decide_eq_true hskips, if_pos rfl]
    refine ⟨none, rfl, ?_, by simp⟩
    simp only [Option.isSome_none, Bool.false_eq_true, false_iff]
    intro ⟨htype, hlink, _⟩
    cases hskips with
    | inl hundef => exact hlink hundef
    | inr hother => exact hother htype
  . have ⟨hlink, htype⟩ := not_or.mp hskips
    have htype := not_not.mp htype
    rw [decide_eq_false hskips, if_neg (by decide)]
    have hsymbols := h.hasSymbols i header hi (Or.inl htype)
    have ⟨r, hr, hsome, hresult⟩ := @findSymbol_spec _ _ _ _ _ _ h.length_lt hsection hsymbols
      (isNamed env elf name (elf.file.add (image.shoff + i * Shdr.sizeof)))
      (fun entry => entry.shndx ≠ SHN_UNDEF
        ∧ IsNameAt (image.strings (image.tables i).link) name entry.name)
      (fun symbol => symbol ≠ ⟨none, none⟩ ∧ HasSymbolName env elf symbol name) (by
        intro entry hentry sym hat
        have ⟨found, hfound, hiff⟩ := isNamed_spec h hsection hsymbols hlink hname hentry hat
        refine ⟨found, hfound, hiff, ?_⟩
        intro htrue
        have ⟨_, hnameAt⟩ := hiff.mp htrue
        exact ⟨by simp, hasSymbolName_of_isNameAt h hsection hsymbols hlink hname hentry hat hnameAt⟩)
    refine ⟨r, hr, ?_, hresult⟩
    rw [hsome]
    simp [htype, hlink]

theorem shoff_end_le (h : image.IsImage env elf) : image.shoff + Shdr.sizeof ≤ elf.length := by
  cases hsections : image.sections with
  | nil =>
    rw [h.noSections hsections, Nat.zero_add]
    exact h.hasHeader
  | cons header sections =>
    have hend := end_le h.toIsImage (i := 0) (by simp [hsections])
    omega

theorem getSymbolByName_spec (h : image.IsImage env elf) (hname : name.bytes ≠ [])
    : ∃ symbol, (getSymbolByName env elf name).result = .ok symbol
        ∧ (symbol ≠ ⟨none, none⟩ ↔ image.Defines SHT_DYNSYM name)
        ∧ (symbol ≠ ⟨none, none⟩ → HasSymbolName env elf symbol name) := by
  have hscan := @scan_spec _ _ _ _ (·.add Shdr.sizeof) (symbolIn env elf name)
    image.sections.length (elf.file.add image.shoff)
    (fun i => ∃ header, image.sections[i]? = some header ∧ header.type = SHT_DYNSYM
      ∧ (image.tables i).link ≠ SHN_UNDEF
      ∧ ∃ entry ∈ (image.tables i).symbols, entry.shndx ≠ SHN_UNDEF
        ∧ IsNameAt (image.strings (image.tables i).link) name entry.name)
    (fun symbol => symbol ≠ ⟨none, none⟩ ∧ HasSymbolName env elf symbol name) (by
      intro i hi
      have hsection := List.getElem?_eq_getElem hi
      have ⟨r, hr, hsome, hresult⟩ := symbolIn_spec h hname hsection
      rw [Ptr.iterate_add, Ptr.add_add]
      refine ⟨r, hr, ?_, hresult⟩
      rw [hsome, hsection]
      simp)
  have ⟨r, hr, hsome, hresult⟩ := hscan
  have hdefines : r.isSome ↔ image.Defines SHT_DYNSYM name := by
    rw [hsome]
    constructor
    . intro ⟨i, _, header, hheader⟩
      exact ⟨i, header, hheader⟩
    . intro ⟨i, header, hi, hheader⟩
      have ⟨hlt, _⟩ := List.getElem?_eq_some_iff.mp hi
      exact ⟨i, hlt, header, hi, hheader⟩
  unfold getSymbolByName findInSections
  rw [result_bind_of_ok (getElfHeader_eq h.toIsImage), result_bind_of_ok (shoff_eq h.toIsImage),
    result_bind_of_ok (at_eq (shoff_end_le h) h.length_lt), result_bind_of_ok (shnum_eq h.toIsImage),
    result_bind_of_ok hr]
  refine ⟨_, rfl, ?_, ?_⟩
  . rw [← hdefines]
    cases r with
    | none => simp
    | some symbol => simpa using (hresult symbol rfl).1
  . intro hne
    cases r with
    | none => exact absurd rfl hne
    | some symbol => exact (hresult symbol rfl).2

structure FindsDefined (env : Env) (elf : ElfFile) (image : SymbolImage) (name : CString) : Prop where
  found : ∃ symbol, (getSymbolByName env elf name).result = .ok symbol
    ∧ (symbol ≠ ⟨none, none⟩ ↔ image.Defines SHT_DYNSYM name ∨ image.Defines SHT_SYMTAB name)
    ∧ (symbol ≠ ⟨none, none⟩ → HasSymbolName env elf symbol name)

-- Of the tables with a string table, both lookups skip the same.
structure SearchesAll (env : Env) (elf : ElfFile) (image : SymbolImage) (name : CString)
    : Prop extends FindsDefined env elf image name where
  tables : ∀ i < image.sections.length, (image.tables i).link ≠ SHN_UNDEF →
    (skipsByName env (elf.file.add (image.shoff + i * Shdr.sizeof))).result
      = (skipsByAddress env (elf.file.add (image.shoff + i * Shdr.sizeof))).result

theorem findsDefined_iff (h : image.IsImage env elf) (hname : name.bytes ≠ [])
    : FindsDefined env elf image name
        ↔ (image.Defines SHT_SYMTAB name → image.Defines SHT_DYNSYM name) := by
  have ⟨symbol, hsymbol, hfound, hresult⟩ := getSymbolByName_spec h hname
  constructor
  . intro ⟨symbol', hsymbol', hfound', _⟩ hsymtab
    rw [hsymbol] at hsymbol'
    injection hsymbol' with heq
    subst heq
    exact hfound.mp (hfound'.mpr (Or.inr hsymtab))
  . intro himp
    refine ⟨symbol, hsymbol, ?_, hresult⟩
    rw [hfound]
    constructor
    . intro hdynsym
      exact Or.inl hdynsym
    . intro hdefines
      cases hdefines with
      | inl hdynsym => exact hdynsym
      | inr hsymtab => exact himp hsymtab

theorem searchesAll_iff (h : image.IsImage env elf) (hname : name.bytes ≠ [])
    : (SearchesAll env elf image name ↔ ∀ i (header : SectionHeader),
          image.sections[i]? = some header → header.type = SHT_SYMTAB →
            (image.tables i).link = SHN_UNDEF)
        ∧ (FindsDefined env elf image name
          ↔ (image.Defines SHT_SYMTAB name → image.Defines SHT_DYNSYM name)) := by
  have hfinds := findsDefined_iff h hname
  refine ⟨?_, hfinds⟩
  constructor
  . intro hsearches i header hi htype
    by_contra hlink
    have ⟨hlt, _⟩ := List.getElem?_eq_some_iff.mp hi
    have hsection := hasHeader_of_isImage h hi
    have hsame := hsearches.tables i hlt hlink
    rw [skipsByName_eq hsection, skipsByAddress_eq hsection, htype] at hsame
    simp [hlink, SHT_SYMTAB, SHT_DYNSYM] at hsame
  . intro hunlinked
    refine ⟨hfinds.mpr ?_, ?_⟩
    . intro ⟨i, header, hi, htype, hlink, _⟩
      exact absurd (hunlinked i header hi htype) hlink
    . intro i hlt hlink
      have hi := List.getElem?_eq_getElem hlt
      have hsection := hasHeader_of_isImage h hi
      have htype := mt (hunlinked i _ hi) hlink
      rw [skipsByName_eq hsection, skipsByAddress_eq hsection]
      simp [hlink, htype]

/-! A file with a function `f` in its only symbol table, a `SHT_SYMTAB`. -/

def functionName : CString := ⟨[0x66], by decide⟩

def symtabImage : SymbolImage where
  shoff := 120
  shstrndx := 0
  sections := [⟨0, 0, 0, 0⟩, ⟨0, SHT_SYMTAB, 72, 48⟩, ⟨0, SHT_STRTAB, 64, 3⟩]
  names := []
  tables
    | 1 => ⟨2, Sym.sizeof, [⟨0, 0, 0, 0, 0⟩, ⟨1, STT_FUNC, 1, 16, 4⟩]⟩
    | _ => ⟨0, 0, []⟩
  strings _ := [0, 0x66, 0]

def encodeSymbol (entry : SymbolEntry) : List UInt8 :=
  toLittleEndian 4 entry.name ++ toLittleEndian 1 entry.info ++ [0] ++ toLittleEndian 2 entry.shndx
    ++ toLittleEndian 8 entry.value ++ toLittleEndian 8 entry.size

def encodeTable (header : SectionHeader) (table : SymbolTable) : List UInt8 :=
  toLittleEndian 4 header.name ++ toLittleEndian 4 header.type ++ List.replicate 16 0
    ++ toLittleEndian 8 header.offset ++ toLittleEndian 8 header.size ++ toLittleEndian 4 table.link
    ++ List.replicate 12 0 ++ toLittleEndian 8 table.entsize

def symtabFile : List UInt8 :=
  [0x7f, 0x45, 0x4c, 0x46, 2, 1, 1] ++ List.replicate 33 0 ++ toLittleEndian 8 120
    ++ List.replicate 12 0 ++ toLittleEndian 2 3 ++ toLittleEndian 2 0
    ++ symtabImage.strings 2 ++ List.replicate 5 0
    ++ (symtabImage.tables 1).symbols.flatMap encodeSymbol
    ++ symtabImage.sections.zipIdx.flatMap fun (header, i) => encodeTable header (symtabImage.tables i)

def symtabEnv : Env := .ofSection .debugInfo symtabFile (by decide +kernel)

def symtabElf : ElfFile := ⟨⟨.debugInfo, 0⟩, 312⟩

theorem symtabImage_hasSymbols
    : symtabImage.HasSymbols symtabEnv symtabElf 1 ⟨0, SHT_SYMTAB, 72, 48⟩ := by
  refine ⟨rfl, rfl, by decide, by decide, ?_, ?_⟩
  . intro k entry hk
    match k with
    | 0 | 1 =>
      injection hk with hk
      subst hk
      decide +kernel
    | k + 2 => contradiction
  . intro _
    refine ⟨⟨0, SHT_STRTAB, 64, 3⟩, rfl, ?_, by decide⟩
    exact ⟨rfl, rfl, by decide, by decide +kernel, by decide, by decide⟩

theorem symtabImage_isImage : symtabImage.IsImage symtabEnv symtabElf where
  hasHeader := by decide
  length_lt := by decide
  shoff := by decide +kernel
  shnum := by decide +kernel
  shstrndx := by decide +kernel
  inBounds := by decide
  sections := by
    intro i header hi
    match i with
    | 0 | 1 | 2 =>
      injection hi with hi
      subst hi
      decide +kernel
    | i + 3 => contradiction
  names := by
    intro h
    contradiction
  mapped := by decide +kernel
  noSections := by
    intro h
    contradiction
  links := by decide +kernel
  entsizes := by decide +kernel
  hasSymbols := by
    intro i header hi htype
    match i with
    | 1 =>
      injection hi with hi
      subst hi
      exact symtabImage_hasSymbols
    | 0 | 2 =>
      injection hi with hi
      subst hi
      cases htype <;> contradiction
    | i + 3 => contradiction

theorem searchesAll_iff_symtab
    : (SearchesAll symtabEnv symtabElf symtabImage functionName ↔ ∀ i (header : SectionHeader),
          symtabImage.sections[i]? = some header → header.type = SHT_SYMTAB →
            (symtabImage.tables i).link = SHN_UNDEF)
        ∧ (FindsDefined symtabEnv symtabElf symtabImage functionName
          ↔ (symtabImage.Defines SHT_SYMTAB functionName →
            symtabImage.Defines SHT_DYNSYM functionName)) :=
  searchesAll_iff symtabImage_isImage (by decide)

theorem not_searchesAll_symtab
    : symtabImage.IsImage symtabEnv symtabElf
        ∧ ¬FindsDefined symtabEnv symtabElf symtabImage functionName
        ∧ ¬SearchesAll symtabEnv symtabElf symtabImage functionName := by
  have hfinds : ¬FindsDefined symtabEnv symtabElf symtabImage functionName := by
    rw [findsDefined_iff symtabImage_isImage (by decide)]
    intro himp
    have ⟨i, header, hi, htype, _⟩ := himp ⟨1, _, rfl, rfl, by decide, ⟨1, STT_FUNC, 1, 16, 4⟩,
      List.mem_cons_of_mem _ List.mem_cons_self, by decide, [], rfl⟩
    match i with
    | 0 | 1 | 2 =>
      injection hi with hi
      subst hi
      contradiction
    | i + 3 => contradiction
  exact ⟨symtabImage_isImage, hfinds, fun hsearches => hfinds hsearches.toFindsDefined⟩

end ElfFile
end Claire
