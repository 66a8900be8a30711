import ClaireCommon.Symbolizer.Impl.Elf
import ClaireCommon.Symbolizer.Lemmas.Read

/-!
This module contains the section headers of a well formed 64 bit ELF file and its string table with the
names of the sections. A name is any part of the table up to a NUL, also where a longer string ends
with it.
-/

namespace Claire

open Bytes

structure IsField (env : Env) (n : Nat) (p : Ptr) (value : Nat) : Prop where
  lt : value < 256 ^ n
  holds : env.Holds p (toLittleEndian n value)

instance {env : Env} {n : Nat} {p : Ptr} {value : Nat} : Decidable (IsField env n p value) :=
  decidable_of_iff (value < 256 ^ n ∧ env.Holds p (toLittleEndian n value))
    ⟨fun h => ⟨h.1, h.2⟩, fun h => ⟨h.lt, h.holds⟩⟩

structure SectionHeader where
  name : Nat
  type : Nat
  offset : Nat
  size : Nat
  deriving DecidableEq

structure SectionHeader.IsAt (env : Env) (section_ : SectionHeader) (p : Ptr) : Prop where
  name : IsField env 4 p section_.name
  type : IsField env 4 (p.add 4) section_.type
  offset : IsField env 8 (p.add 24) section_.offset
  size : IsField env 8 (p.add 32) section_.size

instance {env : Env} {section_ : SectionHeader} {p : Ptr} : Decidable (section_.IsAt env p) :=
  decidable_of_iff (IsField env 4 p section_.name ∧ IsField env 4 (p.add 4) section_.type
      ∧ IsField env 8 (p.add 24) section_.offset ∧ IsField env 8 (p.add 32) section_.size)
    ⟨fun ⟨hname, htype, hoffset, hsize⟩ => ⟨hname, htype, hoffset, hsize⟩,
      fun h => ⟨h.name, h.type, h.offset, h.size⟩⟩

namespace StringTable

def encodeAll (strings : List CString) : List UInt8 :=
  strings.flatMap fun s => s.bytes ++ [0]

structure WellFormed (table : List UInt8) : Prop where
  first : table.head? = some 0
  last : table.getLast? = some 0

def IsNameAt (table : List UInt8) (name : CString) (offset : Nat) : Prop :=
  ∃ rest, table.drop offset = name.bytes ++ [0] ++ rest

-- The name is stored as a string of its own, `offset` is where it is stored first.
def IsFirstString (table : List UInt8) (name : CString) (offset : Nat) : Prop :=
  ∃ before rest, table = encodeAll before ++ (name.bytes ++ [0]) ++ rest ∧ name ∉ before
    ∧ (encodeAll before).length = offset

end StringTable

structure SectionHeader.IsStringTable (env : Env) (elf : ElfFile) (header : SectionHeader)
    (table : List UInt8) : Prop where
  type : header.type = SHT_STRTAB
  size : header.size = table.length
  inBounds : header.offset + header.size ≤ elf.length
  holds : env.Holds (elf.file.add header.offset) table
  wellFormed : StringTable.WellFormed table

structure Image where
  shoff : Nat
  shstrndx : Nat
  sections : List SectionHeader
  -- The section name string table, where there is one
  names : List UInt8

namespace Image

structure HasNames (env : Env) (elf : ElfFile) (image : Image) (header : SectionHeader) : Prop where
  found : image.sections[image.shstrndx]? = some header
  type : header.type = SHT_STRTAB
  size : header.size = image.names.length
  inBounds : header.offset + header.size ≤ elf.length
  holds : env.Holds (elf.file.add header.offset) image.names
  wellFormed : StringTable.WellFormed image.names
  names : ∀ section_ ∈ image.sections, section_.name < image.names.length

theorem HasNames.isStringTable {env : Env} {elf : ElfFile} {image : Image} {header : SectionHeader}
    (h : image.HasNames env elf header) : header.IsStringTable env elf image.names :=
  ⟨h.type, h.size, h.inBounds, h.holds, h.wellFormed⟩

structure IsImage (env : Env) (elf : ElfFile) (image : Image) : Prop where
  hasHeader : Ehdr.sizeof ≤ elf.length
  length_lt : elf.length < 2 ^ 64
  shoff : IsField env 8 (elf.file.add 40) image.shoff
  shnum : IsField env 2 (elf.file.add 60) image.sections.length
  shstrndx : IsField env 2 (elf.file.add 62) image.shstrndx
  inBounds : image.shoff + image.sections.length * Shdr.sizeof ≤ elf.length
  sections : ∀ i (section_ : SectionHeader), image.sections[i]? = some section_ →
    section_.IsAt env (elf.file.add (image.shoff + i * Shdr.sizeof))
  names : image.shstrndx ≠ SHN_UNDEF → ∃ header, image.HasNames env elf header

def IsSection (elf : ElfFile) (image : Image) (ptr : Ptr) : Prop :=
  ∃ i < image.sections.length, ptr = elf.file.add (image.shoff + i * Shdr.sizeof)

def IsNamed (image : Image) (name : CString) (section_ : SectionHeader) : Prop :=
  image.shstrndx ≠ SHN_UNDEF ∧ StringTable.IsNameAt image.names name section_.name

-- A section has the name from where the table stores it first.
def Finds (image : Image) (name : CString) : Prop :=
  image.shstrndx ≠ SHN_UNDEF
    ∧ ∃ section_ ∈ image.sections, StringTable.IsFirstString image.names name section_.name

-- A section has the name, but none has it from there.
def Hides (image : Image) (name : CString) : Prop :=
  (∃ section_ ∈ image.sections, image.IsNamed name section_) ∧ ¬image.Finds name

end Image
end Claire
