import ClaireCommon.Symbolizer.Impl.Symbols
import ClaireCommon.Symbolizer.SectionTable

/-!
This module contains the symbol tables of a well formed 64 bit ELF file, with the string tables that
are linked to them.
-/

namespace Claire

open Bytes

structure SymbolEntry where
  name : Nat
  info : Nat
  shndx : Nat
  value : Nat
  size : Nat

structure SymbolEntry.IsAt (env : Env) (entry : SymbolEntry) (p : Ptr) : Prop where
  name : IsField env 4 p entry.name
  info : IsField env 1 (p.add 4) entry.info
  shndx : IsField env 2 (p.add 6) entry.shndx
  value : IsField env 8 (p.add 8) entry.value
  size : IsField env 8 (p.add 16) entry.size

instance {env : Env} {entry : SymbolEntry} {p : Ptr} : Decidable (entry.IsAt env p) :=
  decidable_of_iff (IsField env 4 p entry.name ∧ IsField env 1 (p.add 4) entry.info
      ∧ IsField env 2 (p.add 6) entry.shndx ∧ IsField env 8 (p.add 8) entry.value
      ∧ IsField env 8 (p.add 16) entry.size)
    ⟨fun ⟨hname, hinfo, hshndx, hvalue, hsize⟩ => ⟨hname, hinfo, hshndx, hvalue, hsize⟩,
      fun h => ⟨h.name, h.info, h.shndx, h.value, h.size⟩⟩

-- A defined object or function lies at the address, its end is an address too.
structure SymbolEntry.Locates (entry : SymbolEntry) (address : Nat) : Prop where
  type : entry.info % 16 = STT_OBJECT ∨ entry.info % 16 = STT_FUNC
  defined : entry.shndx ≠ SHN_UNDEF
  value_le : entry.value ≤ address
  lt_end : address < entry.value + entry.size
  end_lt : entry.value + entry.size < 2 ^ 64

instance {entry : SymbolEntry} {address : Nat} : Decidable (entry.Locates address) :=
  decidable_of_iff ((entry.info % 16 = STT_OBJECT ∨ entry.info % 16 = STT_FUNC)
      ∧ entry.shndx ≠ SHN_UNDEF ∧ entry.value ≤ address ∧ address < entry.value + entry.size
      ∧ entry.value + entry.size < 2 ^ 64)
    ⟨fun ⟨htype, hdefined, hvalue, hlt, hend⟩ => ⟨htype, hdefined, hvalue, hlt, hend⟩,
      fun h => ⟨h.type, h.defined, h.value_le, h.lt_end, h.end_lt⟩⟩

structure SymbolTable where
  link : Nat
  entsize : Nat
  symbols : List SymbolEntry

structure SymbolImage extends Image where
  tables : Nat → SymbolTable
  strings : Nat → List UInt8

namespace SymbolImage

def IsSymbolTable (type : Nat) : Prop := type = SHT_DYNSYM ∨ type = SHT_SYMTAB

-- The first entry of a symbol table is always there.
structure HasSymbols (env : Env) (elf : ElfFile) (image : SymbolImage) (i : Nat)
    (header : SectionHeader) : Prop where
  entsize : (image.tables i).entsize = Sym.sizeof
  size : header.size = (image.tables i).symbols.length * Sym.sizeof
  nonempty : 0 < (image.tables i).symbols.length
  inBounds : header.offset + header.size ≤ elf.length
  symbols : ∀ k (entry : SymbolEntry), (image.tables i).symbols[k]? = some entry →
    entry.IsAt env (elf.file.add (header.offset + k * Sym.sizeof))
  strings : (image.tables i).link ≠ SHN_UNDEF →
    ∃ header, image.sections[(image.tables i).link]? = some header
      ∧ header.IsStringTable env elf (image.strings (image.tables i).link)
      ∧ ∀ entry ∈ (image.tables i).symbols,
        entry.name < (image.strings (image.tables i).link).length

structure IsImage (env : Env) (elf : ElfFile) (image : SymbolImage)
    : Prop extends image.toImage.IsImage env elf where
  mapped : elf.file.offset + elf.length ≤ (env.mapped elf.file.block).length
  noSections : image.sections = [] → image.shoff = 0
  links : ∀ i < image.sections.length,
    IsField env 4 ((elf.file.add (image.shoff + i * Shdr.sizeof)).add 40) (image.tables i).link
  entsizes : ∀ i < image.sections.length,
    IsField env 8 ((elf.file.add (image.shoff + i * Shdr.sizeof)).add 56) (image.tables i).entsize
  hasSymbols : ∀ i (header : SectionHeader), image.sections[i]? = some header →
    IsSymbolTable header.type → image.HasSymbols env elf i header

-- A table of the type, with a string table linked to it, has a defined symbol with the name.
def Defines (image : SymbolImage) (type : Nat) (name : CString) : Prop :=
  ∃ i header, image.sections[i]? = some header ∧ header.type = type
    ∧ (image.tables i).link ≠ SHN_UNDEF
    ∧ ∃ entry ∈ (image.tables i).symbols, entry.shndx ≠ SHN_UNDEF
      ∧ StringTable.IsNameAt (image.strings (image.tables i).link) name entry.name

def LocatesAt (image : SymbolImage) (address i k : Nat) : Prop :=
  ∃ header, image.sections[i]? = some header ∧ IsSymbolTable header.type
    ∧ ∃ entry, (image.tables i).symbols[k]? = some entry ∧ entry.Locates address

structure IsFirstDefinition (image : SymbolImage) (address i k : Nat) : Prop where
  locates : image.LocatesAt address i k
  first : ∀ i' k', image.LocatesAt address i' k' → i < i' ∨ i = i' ∧ k ≤ k'

end SymbolImage
end Claire
