import ClaireCommon.Symbolizer.Lemmas.Definitions
import ClaireCommon.Symbolizer.Lemmas.Location
import ClaireCommon.Symbolizer.Lemmas.MapsText

/-!
This module contains what `Symbolizer::Symbolize` says about an address, from the text of
`/proc/self/maps` to the symbol tables and the debug information of the file, with any files that
earlier calls have left in the cache.
-/

namespace Claire
namespace Symbolizer

open Traced SymbolImage StringTable

variable {open_ : List UInt8 → Mapped} {files files' : Files} {data : List UInt8} {address : Nat}

-- A file of the cache is the one that would be opened.
def Files.Holds (open_ : List UInt8 → Mapped) (files : Files) : Prop :=
  ∀ name file, files.lookup name = some file → file.toMapped = open_ name
    ∧ (ElfFile.init (open_ name).env (open_ name).elf).result = .ok file.base

theorem Files.Holds.cons (h : files.Holds open_) {name : List UInt8} {base : Nat}
    (hinit : (ElfFile.init (open_ name).env (open_ name).elf).result = .ok base)
    : Files.Holds open_ ((name, ⟨open_ name, base⟩) :: files) := by
  intro name' file hlookup
  rw [List.lookup_cons] at hlookup
  split at hlookup
  . next heq =>
    injection hlookup with hfile
    rw [beq_iff_eq.mp heq, ← hfile]
    exact ⟨rfl, hinit⟩
  . exact h name' file hlookup

-- The names that `GetFile` leaves out, `[stack]` and `/lib/x (deleted)` among them
def IsSpecial (name : List UInt8) : Prop := name.head? = some 0x5b ∨ name.getLast? = some 0x29

theorem getFile_of_special {name : List UInt8} (h : IsSpecial name)
    : (getFile open_ files name).result = .ok (none, files) := by
  unfold getFile
  cases name with
  | nil => simp [IsSpecial] at h
  | cons c name =>
    unfold IsSpecial at h
    rw [List.head?_cons, List.getLast?_cons] at h ⊢
    dsimp only
    rw [if_pos (by simpa using h)]
    rfl

theorem getFile_of_holds (h : files.Holds open_) {name : List UInt8} (hne : name ≠ [])
    (hspecial : ¬IsSpecial name) {base : Nat}
    (hinit : (ElfFile.init (open_ name).env (open_ name).elf).result = .ok base)
    : ∃ files', (getFile open_ files name).result = .ok (some ⟨open_ name, base⟩, files') := by
  unfold getFile
  cases name with
  | nil => contradiction
  | cons c name =>
    unfold IsSpecial at hspecial
    rw [List.head?_cons, List.getLast?_cons] at hspecial ⊢
    dsimp only
    rw [if_neg (by simpa using hspecial)]
    split
    . next file hlookup =>
      have ⟨hmapped, hbase⟩ := h _ file hlookup
      rw [hinit] at hbase
      injection hbase with hbase
      rw [hbase, ← hmapped]
      exact ⟨files, rfl⟩
    . rw [result_bind_of_ok hinit]
      exact ⟨_, rfl⟩

theorem holds_of_getFile (h : files.Holds open_) {name : List UInt8} {file : Option OpenFile}
    (hget : (getFile open_ files name).result = .ok (file, files')) : files'.Holds open_ := by
  unfold getFile at hget
  split at hget
  . split at hget
    . injection hget with heq
      injection heq with _ hfiles
      exact hfiles ▸ h
    . split at hget
      . injection hget with heq
        injection heq with _ hfiles
        exact hfiles ▸ h
      . have ⟨base, hinit, heq⟩ := bind_eq_ok.mp hget
        injection heq with heq
        injection heq with _ hfiles
        exact hfiles ▸ h.cons hinit
  . contradiction

theorem holds_of_symbolize (h : files.Holds open_) {result : Result}
    (hsymbolize : (symbolize open_ files data address).result = .ok (result, files'))
    : files'.Holds open_ := by
  unfold symbolize at hsymbolize
  have ⟨foundFile, _, hrest⟩ := bind_eq_ok.mp hsymbolize
  cases foundFile with
  | none =>
    injection hrest with heq
    injection heq with _ hfiles
    exact hfiles ▸ h
  | some foundFile =>
    have ⟨⟨file, files''⟩, hget, hrest⟩ := bind_eq_ok.mp hrest
    have hholds := holds_of_getFile h hget
    cases file with
    | none =>
      injection hrest with heq
      injection heq with _ hfiles
      exact hfiles ▸ hholds
    | some file =>
      have ⟨_, _, heq⟩ := bind_eq_ok.mp hrest
      injection heq with heq
      injection heq with _ hfiles
      exact hfiles ▸ hholds

inductive Files.Reachable (open_ : List UInt8 → Mapped) : Files → Prop
  | empty : Reachable open_ []
  | call {files files' : Files} {data : List UInt8} {address : Nat} {result : Result}
      (h : Reachable open_ files)
      (hcall : (symbolize open_ files data address).result = .ok (result, files'))
      : Reachable open_ files'

theorem Files.Reachable.holds (h : files.Reachable open_) : files.Holds open_ := by
  induction h with
  | empty =>
    intro name file hlookup
    contradiction
  | call _ hcall ih => exact holds_of_symbolize ih hcall

-- The first section with the name, which the table stores first where the header points to.
structure SectionNamed (image : Image) (name : CString) (section_ : SectionHeader) : Prop where
  stored : IsFirstString image.names name section_.name
  found : image.sections.find? (·.name = section_.name) = some section_

structure DebugHeaders where
  info : SectionHeader
  abbrev_ : SectionHeader
  aranges : SectionHeader
  line : SectionHeader
  strings : SectionHeader

namespace DebugHeaders

variable (headers : DebugHeaders)

structure Named (image : Image) : Prop where
  shstrndx : image.shstrndx ≠ SHN_UNDEF
  info : SectionNamed image Dwarf.debugInfo headers.info
  abbrev_ : SectionNamed image Dwarf.debugAbbrev headers.abbrev_
  aranges : SectionNamed image Dwarf.debugAranges headers.aranges
  line : SectionNamed image Dwarf.debugLine headers.line
  strings : SectionNamed image Dwarf.debugStr headers.strings

def sections (elf : ElfFile) : Dwarf.Sections where
  info := ⟨elf.file.add headers.info.offset, headers.info.size⟩
  abbrev_ := ⟨elf.file.add headers.abbrev_.offset, headers.abbrev_.size⟩
  aranges := ⟨elf.file.add headers.aranges.offset, headers.aranges.size⟩
  line := ⟨elf.file.add headers.line.offset, headers.line.size⟩
  strings := ⟨elf.file.add headers.strings.offset, headers.strings.size⟩

end DebugHeaders

theorem getSection_of_named {env : Env} {elf : ElfFile} {image : Image} (h : image.IsImage env elf)
    (hndx : image.shstrndx ≠ SHN_UNDEF) {name : CString} {section_ : SectionHeader}
    (hnamed : SectionNamed image name section_)
    : (Dwarf.getSection env elf name).result = .ok (some ⟨elf.file.add section_.offset, section_.size⟩) := by
  have ⟨hname, before, after, hsections, hbefore⟩ := List.find?_eq_some_iff_append.mp hnamed.found
  have hindex : image.sections.findIdx? (·.name = section_.name) = some before.length := by
    rw [hsections, List.findIdx?_append, List.findIdx?_eq_none_iff.mpr (by simpa using hbefore),
      List.findIdx?_cons, hname]
    simp
  have hsection : image.sections[before.length]? = some section_ := by
    rw [hsections, List.getElem?_append_right (Nat.le_refl _), Nat.sub_self, List.getElem?_cons_zero]
  have hat := h.sections _ _ hsection
  have hfound := ElfFile.getSectionByName_of_first h hndx hnamed.stored
  rw [hindex] at hfound
  unfold Dwarf.getSection
  rw [result_bind_of_ok hfound]
  dsimp only [Option.map_some]
  unfold ElfFile.getSectionBody
  rw [bind_bind, result_bind_of_ok hat.offset_eq, bind_bind, result_bind_of_ok hat.size_eq]
  rfl

theorem DebugHeaders.Named.init_eq {env : Env} {elf : ElfFile} {image : Image} {headers : DebugHeaders}
    (hnamed : headers.Named image) (h : image.IsImage env elf)
    : (Dwarf.init env elf).result = .ok (some (headers.sections elf)) := by
  unfold Dwarf.init
  rw [result_bind_of_ok (getSection_of_named h hnamed.shstrndx hnamed.info)]
  dsimp only
  rw [result_bind_of_ok (getSection_of_named h hnamed.shstrndx hnamed.abbrev_)]
  dsimp only
  rw [result_bind_of_ok (getSection_of_named h hnamed.shstrndx hnamed.aranges)]
  dsimp only
  rw [result_bind_of_ok (getSection_of_named h hnamed.shstrndx hnamed.line)]
  dsimp only
  rw [result_bind_of_ok (getSection_of_named h hnamed.shstrndx hnamed.strings)]
  dsimp only
  rw [result_bind_of_ok (getSection_of_named h hnamed.shstrndx hnamed.strings)]
  rfl

-- The debug information of the file describes the address with a unit and, where there is one, a row.
structure DescribesAddress (debug : Env) (address : Nat) (unit : Dwarf.CompileUnit)
    (place : Option Dwarf.Place) : Prop where
  ranges : ∃ sets before set after,
    (debug.mapping .debugAranges).content = Dwarf.AddressRangeSet.encodeAll sets
      ∧ Dwarf.ShowsAddress sets address ∧ Dwarf.IsFirst sets before set after address
      ∧ Dwarf.UnitAt debug set.debugInfoOffset unit
  places : unit.Places debug address place

theorem findLocation_of_describes {file : OpenFile} {image : Image}
    (himage : image.IsImage file.env file.elf)
    {headers : DebugHeaders} (hheaders : headers.Named image) {unit : Dwarf.CompileUnit}
    {place : Option Dwarf.Place}
    (h : DescribesAddress (debugEnv file.env (headers.sections file.elf)) address unit place)
    : ∃ info, (findLocation file address).result = .ok info
        ∧ Dwarf.Located (debugEnv file.env (headers.sections file.elf)) unit place info := by
  have ⟨sets, before, set, after, hcontent, hshows, hfirst, hunit⟩ := h.ranges
  have hselect := @Dwarf.selectSet_eq _ address sets hcontent
  rw [Dwarf.find?_eq_some_of_showsAddress hshows hfirst] at hselect
  have ⟨info, hinfo, hlocated⟩ := Dwarf.describeUnit_located hunit h.places
  refine ⟨info, ?_, hlocated⟩
  unfold findLocation
  rw [result_bind_of_ok (hheaders.init_eq himage)]
  dsimp only
  rw [Dwarf.findAddress_eq, bind_bind, result_bind_of_ok hselect]
  dsimp only
  rw [result_bind_of_ok hinfo]
  rfl

-- `Symbolize` returns `true` with the text that the string table has for the entry, if it has one.
structure Names (env : Env) (image : SymbolImage) (i k : Nat) (result : Result) : Prop where
  found : result.found = true
  unnamed : ∀ entry, (image.tables i).symbols[k]? = some entry →
    (entry.name = 0 ∨ (image.tables i).link = SHN_UNDEF) → result.symbolName = none
  named : ∀ entry, (image.tables i).symbols[k]? = some entry → entry.name ≠ 0 →
    (image.tables i).link ≠ SHN_UNDEF → ∃ name q, result.symbolName = some q
      ∧ Dwarf.Terminated env q name.bytes
      ∧ IsNameAt (image.strings (image.tables i).link) name entry.name

theorem symbolizeIn_of_not_locatesAt {file : OpenFile} {image : SymbolImage}
    (himage : image.IsImage file.env file.elf) (h : ∀ i k, ¬image.LocatesAt address i k)
    : (symbolizeIn file address).result = .ok .none := by
  unfold symbolizeIn
  rw [result_bind_of_ok (ElfFile.getDefinitionByAddress_of_none himage h)]
  rfl

theorem getSymbolName_names {file : OpenFile} {image : SymbolImage}
    (himage : image.IsImage file.env file.elf) {i k : Nat} {header : SectionHeader}
    (hi : image.sections[i]? = some header) (htype : IsSymbolTable header.type) {entry : SymbolEntry}
    (hentry : (image.tables i).symbols[k]? = some entry)
    : ∃ name, (ElfFile.getSymbolName file.env file.elf (ElfFile.symbolAt file.elf image header i k)).result
          = .ok name
        ∧ ∀ info, Names file.env image i k ⟨true, name, info⟩ := by
  have ⟨hunnamed, hnamed⟩ := ElfFile.getSymbolName_symbolAt himage hi htype hentry
  by_cases hzero : entry.name = 0 ∨ (image.tables i).link = SHN_UNDEF
  . refine ⟨none, hunnamed hzero, fun _ => ⟨rfl, fun _ _ _ => rfl, ?_⟩⟩
    intro entry' hentry' hne hlink
    rw [hentry] at hentry'
    injection hentry' with heq
    subst heq
    exact absurd hzero (not_or.mpr ⟨hne, hlink⟩)
  . have ⟨hne, hlink⟩ := not_or.mp hzero
    have ⟨_, _, hstrings, hnames⟩ := (himage.hasSymbols i header hi htype).strings hlink
    have ⟨text, htext⟩ := exists_isNameAt hstrings.wellFormed (hnames entry (List.mem_of_getElem? hentry))
    have ⟨q, hq, hterminated⟩ := (hnamed hne hlink text).mpr htext
    refine ⟨some q, hq, fun _ => ⟨rfl, ?_, ?_⟩⟩
    . intro entry' hentry' hzero'
      rw [hentry] at hentry'
      injection hentry' with heq
      subst heq
      exact absurd hzero' hzero
    . intro entry' hentry' _ _
      rw [hentry] at hentry'
      injection hentry' with heq
      subst heq
      exact ⟨text, q, rfl, hterminated, htext⟩

theorem symbolizeIn_of_isFirst {file : OpenFile} {image : SymbolImage}
    (himage : image.IsImage file.env file.elf) {i k : Nat} (h : image.IsFirstDefinition address i k)
    {info : Dwarf.LocationInfo} (hinfo : (findLocation file address).result = .ok info)
    : ∃ result, (symbolizeIn file address).result = .ok result ∧ Names file.env image i k result
        ∧ result.location = info := by
  have ⟨header, hi, htype, entry, hentry, _⟩ := h.locates
  have ⟨name, hname, hnames⟩ := getSymbolName_names himage hi htype hentry
  refine ⟨⟨true, name, info⟩, ?_, hnames info, rfl⟩
  unfold symbolizeIn
  rw [result_bind_of_ok (ElfFile.getDefinitionByAddress_of_isFirst himage hi h)]
  have hfirst : ¬(ElfFile.symbolAt file.elf image header i k).first.isNone = true := Bool.false_ne_true
  rw [if_neg hfirst, result_bind_of_ok hname, result_bind_of_ok hinfo]
  rfl

-- One of the five sections that `Dwarf::Init` looks for is missing.
def LacksDebugSection (image : Image) : Prop :=
  ∃ name ∈ [Dwarf.debugInfo, Dwarf.debugAbbrev, Dwarf.debugAranges, Dwarf.debugLine, Dwarf.debugStr],
    ¬image.Finds name

theorem findLocation_of_lacks {file : OpenFile} {image : Image} (himage : image.IsImage file.env file.elf)
    (h : LacksDebugSection image) : (findLocation file address).result = .ok .empty := by
  have ⟨sections, hinit, hiff⟩ := Dwarf.init_isSome_iff himage
  have ⟨name, hname, hnot⟩ := h
  cases sections with
  | none =>
    unfold findLocation
    rw [result_bind_of_ok hinit]
    rfl
  | some sections => exact absurd (hiff.mp rfl name hname) hnot

structure Symbolizes (open_ : List UInt8 → Mapped) (files : Files) (lines : List MapsLine) (address : Nat)
    : Prop where
  unmapped : (∀ line ∈ lines, ¬line.entry.Maps address) →
    (symbolize open_ files (mapsText lines) address).result = .ok (.none, files)
  special : ∀ line, lines.find? (·.entry.Maps address) = some line → IsSpecial line.entry.name →
    (symbolize open_ files (mapsText lines) address).result = .ok (.none, files)
  unnamed : ∀ line, lines.find? (·.entry.Maps address) = some line → line.entry.name = [] →
    (symbolize open_ files (mapsText lines) address).result = .error .fault
  -- The address in the file is the one before the relocation.
  defined : ∀ line file base image original, lines.find? (·.entry.Maps address) = some line →
    line.entry.name ≠ [] → ¬IsSpecial line.entry.name → file = open_ line.entry.name →
    (ElfFile.init file.env file.elf).result = .ok base → image.IsImage file.env file.elf →
    original = (address - line.entry.begin_ + base) % 2 ^ 64 →
    ((∀ i k, ¬image.LocatesAt original i k) →
        ∃ files', (symbolize open_ files (mapsText lines) address).result = .ok (.none, files'))
      ∧ ∀ i k, image.IsFirstDefinition original i k →
        (LacksDebugSection image.toImage →
          ∃ result files', (symbolize open_ files (mapsText lines) address).result = .ok (result, files')
            ∧ Names file.env image i k result ∧ result.location = .empty)
        ∧ ∀ (headers : DebugHeaders) unit place, headers.Named image.toImage →
          DescribesAddress (debugEnv file.env (headers.sections file.elf)) original unit place →
          ∃ result files', (symbolize open_ files (mapsText lines) address).result = .ok (result, files')
            ∧ Names file.env image i k result
            ∧ Dwarf.Located (debugEnv file.env (headers.sections file.elf)) unit place result.location

theorem symbolizes_of_reachable (hfiles : files.Reachable open_) (lines : List MapsLine) (address : Nat)
    : Symbolizes open_ files lines address := by
  have hfind := findFile_mapsText lines address
  constructor
  . intro hnone
    rw [List.find?_eq_none.mpr (by simpa using hnone)] at hfind
    unfold symbolize
    rw [result_bind_of_ok hfind]
    rfl
  . intro line hline hspecial
    rw [hline] at hfind
    unfold symbolize
    rw [result_bind_of_ok hfind]
    dsimp only [Option.map_some, MapsEntry.file]
    rw [result_bind_of_ok (getFile_of_special hspecial)]
    rfl
  . intro line hline hunnamed
    rw [hline] at hfind
    unfold symbolize
    rw [result_bind_of_ok hfind]
    dsimp only [Option.map_some, MapsEntry.file]
    rw [hunnamed, result_bind]
    rfl
  . intro line file base image original hline hne hspecial hfile hinit himage horiginal
    subst hfile
    have ⟨files', hget⟩ := getFile_of_holds hfiles.holds hne hspecial hinit
    rw [hline] at hfind
    unfold symbolize
    rw [result_bind_of_ok hfind]
    dsimp only [Option.map_some, MapsEntry.file]
    rw [result_bind_of_ok hget]
    dsimp only
    rw [← horiginal]
    constructor
    . intro hnot
      have hnone := @symbolizeIn_of_not_locatesAt original ⟨open_ line.entry.name, base⟩ image himage hnot
      exact ⟨files', by rw [result_bind_of_ok hnone]; rfl⟩
    . intro i k hfirst
      have hfound {info : Dwarf.LocationInfo}
          (hinfo : (findLocation ⟨open_ line.entry.name, base⟩ original).result = .ok info) :=
        symbolizeIn_of_isFirst himage hfirst hinfo
      constructor
      . intro hlacks
        have ⟨result, hresult, hnames, hlocation⟩ := hfound (findLocation_of_lacks himage.toIsImage hlacks)
        exact ⟨result, files', by rw [result_bind_of_ok hresult]; rfl, hnames, hlocation⟩
      . intro headers unit place hheaders hdescribes
        have ⟨info, hinfo, hlocated⟩ := @findLocation_of_describes original
          ⟨open_ line.entry.name, base⟩ image.toImage himage.toIsImage headers hheaders unit place hdescribes
        have ⟨result, hresult, hnames, hlocation⟩ := hfound hinfo
        exact ⟨result, files', by rw [result_bind_of_ok hresult]; rfl, hnames, hlocation ▸ hlocated⟩

/-! A file with a function `f` and the debug information of `Dwarf.locatedEnv`, loaded at `0x400000`. -/

def loadedImage : SymbolImage where
  shoff := 410
  shstrndx := 3
  sections := [⟨0, 0, 0, 0⟩, ⟨0, SHT_SYMTAB, 120, 48⟩, ⟨0, SHT_STRTAB, 168, 3⟩, ⟨0, SHT_STRTAB, 171, 65⟩,
    ⟨1, 1, 236, 63⟩, ⟨13, 1, 299, 12⟩, ⟨27, 1, 311, 48⟩, ⟨42, 1, 359, 51⟩, ⟨54, 1, 410, 0⟩]
  names := encodeAll [ElfFile.null, Dwarf.debugInfo, Dwarf.debugAbbrev, Dwarf.debugAranges,
    Dwarf.debugLine, Dwarf.debugStr]
  tables
    | 1 => ⟨2, Sym.sizeof, [⟨0, 0, 0, 0, 0⟩, ⟨1, STT_FUNC, 1, 0x10, 8⟩]⟩
    | _ => ⟨0, 0, []⟩
  strings _ := [0, 0x66, 0]

def loadedHead : List UInt8 :=
  [0x7f, 0x45, 0x4c, 0x46, 2, 1, 1] ++ List.replicate 9 0 ++ Bytes.toLittleEndian 2 ET_DYN ++ [0x3e, 0]
    ++ Bytes.toLittleEndian 4 EV_CURRENT ++ List.replicate 8 0 ++ Bytes.toLittleEndian 8 64
    ++ Bytes.toLittleEndian 8 410 ++ List.replicate 6 0 ++ Bytes.toLittleEndian 2 Phdr.sizeof
    ++ Bytes.toLittleEndian 2 1 ++ Bytes.toLittleEndian 2 Shdr.sizeof ++ Bytes.toLittleEndian 2 9
    ++ Bytes.toLittleEndian 2 3
    ++ Bytes.toLittleEndian 4 PT_LOAD ++ List.replicate 12 0 ++ Bytes.toLittleEndian 8 0x10
    ++ List.replicate 32 0

def loadedTable (x : SectionHeader × Nat) : List UInt8 := ElfFile.encodeTable x.1 (loadedImage.tables x.2)

def loadedTables : List UInt8 := loadedImage.sections.zipIdx.flatMap loadedTable

def loadedFile : List UInt8 :=
  loadedHead ++ ((loadedImage.tables 1).symbols.flatMap ElfFile.encodeSymbol ++ (loadedImage.strings 2
    ++ (loadedImage.names ++ ((Dwarf.locatedEnv.mapping .debugInfo).content
    ++ ((Dwarf.locatedEnv.mapping .debugAbbrev).content ++ ((Dwarf.locatedEnv.mapping .debugAranges).content
    ++ ((Dwarf.locatedEnv.mapping .debugLine).content ++ loadedTables)))))))

def loaded : Mapped where
  env := .ofSection .debugInfo loadedFile (by decide +kernel)
  elf := ⟨⟨.debugInfo, 0⟩, 986⟩

theorem loaded_holds : loaded.env.Holds ⟨.debugInfo, 168⟩ (loadedImage.strings 2)
    ∧ loaded.env.Holds ⟨.debugInfo, 171⟩ loadedImage.names
    ∧ loaded.env.Holds ⟨.debugInfo, 410⟩ loadedTables := by
  have hmapped : loaded.env.mapped .debugInfo = [] ++ loadedFile ++ [] := rfl
  have hfile := Env.holds_of_mapped hmapped
  unfold loadedFile at hfile
  simp only [Env.holds_append] at hfile
  have ⟨_, _, hstrings, hnames, _, _, _, _, htables⟩ := hfile
  exact ⟨hstrings, hnames, htables⟩

theorem holds_flatMap {α : Type} {env : Env} {p : Ptr} {l : List α} {encode : α → List UInt8} {n i : Nat}
    {a : α} (h : env.Holds p (l.flatMap encode)) (hlength : ∀ a, (encode a).length = n) (hi : l[i]? = some a)
    : env.Holds (p.add (i * n)) (encode a) := by
  induction l generalizing p i with
  | nil => contradiction
  | cons b l ih =>
    rw [List.flatMap_cons, Env.holds_append, hlength] at h
    cases i with
    | zero =>
      injection hi with hb
      rw [Nat.zero_mul, ← hb]
      exact h.1
    | succ i =>
      have := ih h.2 hi
      rw [Ptr.add_add, Nat.add_comm, ← Nat.succ_mul] at this
      exact this

theorem isAt_of_encodeTable {env : Env} {p : Ptr} {header : SectionHeader} {table : SymbolTable}
    (h : env.Holds p (ElfFile.encodeTable header table))
    (hlt : header.name < 2 ^ 32 ∧ header.type < 2 ^ 32 ∧ header.offset < 2 ^ 64 ∧ header.size < 2 ^ 64
      ∧ table.link < 2 ^ 32 ∧ table.entsize < 2 ^ 64)
    : header.IsAt env p ∧ IsField env 4 (p.add 40) table.link
        ∧ IsField env 8 (p.add 56) table.entsize := by
  unfold ElfFile.encodeTable at h
  simp only [Env.holds_append, Bytes.length_toLittleEndian, List.length_append, List.length_replicate,
    Nat.reduceAdd] at h
  have ⟨⟨⟨⟨⟨⟨⟨hname, htype⟩, _⟩, hoffset⟩, hsize⟩, hlink⟩, _⟩, hentsize⟩ := h
  exact ⟨⟨⟨hlt.1, hname⟩, ⟨hlt.2.1, htype⟩, ⟨hlt.2.2.1, hoffset⟩, ⟨hlt.2.2.2.1, hsize⟩⟩,
    ⟨hlt.2.2.2.2.1, hlink⟩, ⟨hlt.2.2.2.2.2, hentsize⟩⟩

theorem loaded_isAt {i : Nat} {header : SectionHeader} (hi : loadedImage.sections[i]? = some header)
    : header.IsAt loaded.env (loaded.elf.file.add (410 + i * Shdr.sizeof))
        ∧ IsField loaded.env 4 ((loaded.elf.file.add (410 + i * Shdr.sizeof)).add 40)
          (loadedImage.tables i).link
        ∧ IsField loaded.env 8 ((loaded.elf.file.add (410 + i * Shdr.sizeof)).add 56)
          (loadedImage.tables i).entsize := by
  have hi' : loadedImage.sections.zipIdx[i]? = some (header, i) := by
    rw [List.getElem?_zipIdx, hi]
    simp
  have hlength (x : SectionHeader × Nat) : (loadedTable x).length = Shdr.sizeof := by
    simp [loadedTable, ElfFile.encodeTable]
    rfl
  have hholds := @holds_flatMap _ _ _ _ loadedTable _ _ _ loaded_holds.2.2 hlength hi'
  rw [← Ptr.add_add]
  apply isAt_of_encodeTable hholds
  have hall : ∀ x ∈ loadedImage.sections.zipIdx, x.1.name < 2 ^ 32 ∧ x.1.type < 2 ^ 32
      ∧ x.1.offset < 2 ^ 64 ∧ x.1.size < 2 ^ 64 ∧ (loadedImage.tables x.2).link < 2 ^ 32
      ∧ (loadedImage.tables x.2).entsize < 2 ^ 64 := by decide
  exact hall _ (List.mem_of_getElem? hi')

theorem loadedImage_isImage : loadedImage.IsImage loaded.env loaded.elf where
  hasHeader := by decide
  length_lt := by decide
  shoff := by decide +kernel
  shnum := by decide +kernel
  shstrndx := by decide +kernel
  inBounds := by decide
  sections i header hi := (loaded_isAt hi).1
  names _ := ⟨⟨0, SHT_STRTAB, 171, 65⟩, rfl, rfl, rfl, by decide, loaded_holds.2.1,
    by constructor <;> decide, by decide⟩
  mapped := by decide +kernel
  noSections := by
    intro h
    contradiction
  links i hi := (loaded_isAt (List.getElem?_eq_getElem hi)).2.1
  entsizes i hi := (loaded_isAt (List.getElem?_eq_getElem hi)).2.2
  hasSymbols := by
    intro i header hi htype
    match i with
    | 1 =>
      injection hi with hi
      subst hi
      refine ⟨rfl, rfl, by decide, by decide, ?_, fun _ => ⟨⟨0, SHT_STRTAB, 168, 3⟩, rfl, ?_, by decide⟩⟩
      . intro k entry hk
        match k with
        | 0 | 1 =>
          injection hk with hk
          subst hk
          decide +kernel
        | k + 2 => contradiction
      . exact ⟨rfl, rfl, by decide, loaded_holds.1, by constructor <;> decide⟩
    | 0 | 2 | 3 | 4 | 5 | 6 | 7 | 8 =>
      injection hi with hi
      subst hi
      cases htype <;> contradiction
    | i + 9 => contradiction

theorem loadedImage_isFirst : loadedImage.IsFirstDefinition 0x15 1 1 := by
  refine ⟨⟨_, rfl, Or.inr rfl, _, rfl, by decide⟩, ?_⟩
  intro i k ⟨header, hi, htype, entry, hentry, hlocates⟩
  match i with
  | 1 =>
    match k with
    | 0 =>
      injection hentry with hentry
      subst hentry
      exact absurd hlocates.defined (by decide)
    | k + 1 => exact Or.inr ⟨rfl, Nat.succ_le_succ (Nat.zero_le k)⟩
  | 0 =>
    injection hi with hi
    subst hi
    cases htype <;> contradiction
  | i + 2 => exact Or.inl (by omega)

def loadedHeaders : DebugHeaders :=
  ⟨⟨1, 1, 236, 63⟩, ⟨13, 1, 299, 12⟩, ⟨27, 1, 311, 48⟩, ⟨42, 1, 359, 51⟩, ⟨54, 1, 410, 0⟩⟩

theorem loadedHeaders_named : loadedHeaders.Named loadedImage.toImage where
  shstrndx := by decide
  info := ⟨⟨[⟨[], by decide⟩], _, rfl, by decide, rfl⟩, rfl⟩
  abbrev_ := ⟨⟨[⟨[], by decide⟩, Dwarf.debugInfo], _, rfl, by decide, rfl⟩, rfl⟩
  aranges := ⟨⟨[⟨[], by decide⟩, Dwarf.debugInfo, Dwarf.debugAbbrev], _, rfl, by decide, rfl⟩, rfl⟩
  line := ⟨⟨[⟨[], by decide⟩, Dwarf.debugInfo, Dwarf.debugAbbrev, Dwarf.debugAranges], _,
    rfl, by decide, rfl⟩, rfl⟩
  strings := ⟨⟨[⟨[], by decide⟩, Dwarf.debugInfo, Dwarf.debugAbbrev, Dwarf.debugAranges, Dwarf.debugLine], _,
    rfl, by decide, rfl⟩, rfl⟩

theorem loaded_describes : DescribesAddress (debugEnv loaded.env (loadedHeaders.sections loaded.elf)) 0x15
    Dwarf.locatedUnit (some ⟨[0x64], [0x66], 5⟩) where
  ranges := ⟨[Dwarf.locatedSet], [], Dwarf.locatedSet, [], by decide +kernel, Dwarf.locatedSet_shows,
    Dwarf.locatedSet_isFirst, Dwarf.locatedUnit_at (by decide +kernel) (by decide +kernel)⟩
  places := Dwarf.locatedUnit_places (by decide +kernel)

-- `400000-401000 r-xp 0 8:1 42 /f`
def loadedLine : MapsLine where
  entry := ⟨0x400000, 0x401000, 0, [0x2f, 0x66]⟩
  begin_ := [0x34, 0x30, 0x30, 0x30, 0x30, 0x30]
  end_ := [0x34, 0x30, 0x31, 0x30, 0x30, 0x30]
  permissions := [0x72, 0x2d, 0x78, 0x70]
  offset := [0x30]
  device := ([0x38], [0x31])
  inode := [0x34, 0x32]
  gap _ := [0x20]
  nameGap := [0x20]
  isHex_begin := ⟨.of_all (by decide) (by decide), by decide, by decide⟩
  isHex_end := ⟨.of_all (by decide) (by decide), by decide, by decide⟩
  isHex_offset := ⟨.of_all (by decide) (by decide), by decide, by decide⟩
  isPart_permissions := .of_all (by decide) (by decide)
  isPart_device := ⟨.of_all (by decide) (by decide), .of_all (by decide) (by decide)⟩
  isPart_inode := .of_all (by decide) (by decide)
  isPart_gap _ := .of_all (by decide) (by decide)
  isBlank_nameGap := List.all_eq_true.mp (by decide)
  name_start := fun c hc => by rw [← Option.mem_some_iff.mp hc]; rfl
  name_gap := by decide
  name_newline := by decide

theorem symbolizes_of_reachable_loaded
    : ∃ result files', (symbolize (fun _ => loaded) [] (mapsText [loadedLine]) 0x400005).result
          = .ok (result, files')
        ∧ result.found = true
        ∧ Dwarf.Located (debugEnv loaded.env (loadedHeaders.sections loaded.elf)) Dwarf.locatedUnit
          (some ⟨[0x64], [0x66], 5⟩) result.location := by
  have hsymbolizes := @symbolizes_of_reachable (fun _ => loaded) [] .empty [loadedLine] 0x400005
  have hinit : (ElfFile.init loaded.env loaded.elf).result = .ok 0x10 := by decide +kernel
  have ⟨_, hdefined⟩ := hsymbolizes.defined loadedLine loaded 0x10 loadedImage 0x15 rfl (by decide)
    (by simp [IsSpecial, loadedLine]) rfl hinit loadedImage_isImage (by decide)
  have ⟨_, hdescribed⟩ := hdefined 1 1 loadedImage_isFirst
  have ⟨result, files', hresult, hnames, hlocated⟩ := hdescribed loadedHeaders _ _ loadedHeaders_named
    loaded_describes
  exact ⟨result, files', hresult, hnames.found, hlocated⟩

end Symbolizer
end Claire
