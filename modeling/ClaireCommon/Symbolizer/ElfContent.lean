import ClaireCommon.Symbolizer.Impl.Symbols
import ClaireCommon.Symbolizer.SymbolTable

/-!
This module contains what the bytes of a file say as a 64 bit ELF file, and which of them have to lie
in the file for a lookup to stay inside. A lookup ends early where one of the DCHECKs stops it, which
the predicates `…Stop` describe; a build with `ndebug` has none of them.
-/

namespace Claire

structure ElfContent where
  ndebug : Bool
  bytes : List UInt8

namespace ElfContent

def of (env : Env) (block : Block) : ElfContent := ⟨env.ndebug, (env.mapping block).content⟩

variable (file : ElfContent)

def InFile (n offset : Nat) : Prop := offset + n ≤ file.bytes.length

def field (n offset : Nat) : Nat := Bytes.littleEndian ((file.bytes.drop offset).take n)

-- The check of `At`, the sum wraps around
def Passes (n offset : Nat) : Prop :=
  file.ndebug = true ∨ (offset + n) % 2 ^ 64 ≤ file.bytes.length

def shoff : Nat := file.field 8 40
def shnum : Nat := file.field 2 60
def shstrndx : Nat := file.field 2 62

-- The loops step from header to header, `GetSectionByIndex` computes the offset.
def header (i : Nat) : Nat := file.shoff + i * Shdr.sizeof
def indexed (i : Nat) : Nat := (file.shoff + i * Shdr.sizeof) % 2 ^ 64

def shName (h : Nat) : Nat := file.field 4 h
def shType (h : Nat) : Nat := file.field 4 (h + 4)
def shOffset (h : Nat) : Nat := file.field 8 (h + 24)
def shSize (h : Nat) : Nat := file.field 8 (h + 32)
def shLink (h : Nat) : Nat := file.field 4 (h + 40)
def shEntsize (h : Nat) : Nat := file.field 8 (h + 56)

def IndexPasses (i : Nat) : Prop :=
  (file.ndebug = true ∨ i < file.shnum) ∧ file.Passes Shdr.sizeof (file.indexed i)

-- `readable` has to hold of the headers, up to the first at which the loop ends.
def SectionsReadable (readable stops : Nat → Prop) : Prop :=
  file.Passes Shdr.sizeof file.shoff → ∀ i < file.shnum, (∀ j < i, ¬stops (file.header j)) →
    readable (file.header i)

def ValidateReadable (t : Nat) : Prop :=
  (file.ndebug = false → file.InFile 4 (t + 4))
    ∧ (file.ndebug = true ∨ file.shType t = SHT_STRTAB → file.InFile 8 (t + 24)
      ∧ (file.ndebug = false → file.InFile 8 (t + 32)
        ∧ (file.shSize t ≠ 0 → file.InFile 1 (file.shOffset t)
          ∧ (file.bytes[file.shOffset t]? = some 0 →
            file.InFile 1 (file.shOffset t + (file.shSize t - 1))))))

def ValidPasses (t : Nat) : Prop :=
  file.ndebug = true ∨ file.shType t = SHT_STRTAB
    ∧ (file.shSize t = 0 ∨ file.bytes[file.shOffset t]? = some 0
      ∧ file.bytes[file.shOffset t + (file.shSize t - 1)]? = some 0)

def StringPasses (t offset : Nat) : Prop :=
  file.ValidPasses t ∧ (file.ndebug = true ∨ offset < file.shSize t)

-- `ends` has to hold of where the string is.
def StringReadable (ends : Nat → Prop) (t offset : Nat) : Prop :=
  file.ValidateReadable t ∧ (file.StringPasses t offset → ends (file.shOffset t + offset))

def Terminated (offset : Nat) : Prop := 0 ∈ file.bytes.drop offset

def stName (s : Nat) : Nat := file.field 4 s
def stInfo (s : Nat) : Nat := file.field 1 (s + 4)
def stShndx (s : Nat) : Nat := file.field 2 (s + 6)
def stValue (s : Nat) : Nat := file.field 8 (s + 8)

-- `sh_size / sh_entsize` entries from `sh_offset` on, up to the first at which the loop ends
def TableReadable (readable stops : Nat → Prop) (h : Nat) : Prop :=
  file.InFile 8 (h + 24) ∧ (file.Passes Sym.sizeof (file.shOffset h) →
    file.InFile 8 (h + 32) ∧ file.InFile 8 (h + 56) ∧ file.shEntsize h ≠ 0
      ∧ ∀ k < file.shSize h / file.shEntsize h,
        (∀ l < k, ¬stops (file.shOffset h + l * Sym.sizeof)) →
          readable (file.shOffset h + k * Sym.sizeof))

def TableStops (stops : Nat → Prop) (h : Nat) : Prop :=
  ¬file.Passes Sym.sizeof (file.shOffset h)
    ∨ ∃ k < file.shSize h / file.shEntsize h, stops (file.shOffset h + k * Sym.sizeof)

-- `GetDefinitionByAddress`
def DefinitionReadable (s : Nat) : Prop :=
  file.InFile 1 (s + 4) ∧ (file.stInfo s % 16 = STT_OBJECT ∨ file.stInfo s % 16 = STT_FUNC →
    file.InFile 2 (s + 6) ∧ (file.stShndx s ≠ SHN_UNDEF → file.InFile Sym.sizeof s))

def DefinitionsReadable (h : Nat) : Prop :=
  file.InFile Shdr.sizeof h ∧ (SymbolImage.IsSymbolTable (file.shType h) →
    file.TableReadable file.DefinitionReadable (fun _ => False) h)

def DefinitionsStop (h : Nat) : Prop :=
  SymbolImage.IsSymbolTable (file.shType h) ∧ file.TableStops (fun _ => False) h

-- `GetSymbolByName`, `link` is that of the table
def NameReadable (ends : Nat → Prop) (link s : Nat) : Prop :=
  file.InFile 2 (s + 6) ∧ (file.stShndx s ≠ SHN_UNDEF → file.InFile 4 s ∧ (file.stName s ≠ 0 →
    file.IndexPasses link → file.StringReadable ends (file.indexed link) (file.stName s)))

def NameStops (link s : Nat) : Prop :=
  file.stShndx s ≠ SHN_UNDEF ∧ file.stName s ≠ 0
    ∧ ¬(file.IndexPasses link ∧ file.StringPasses (file.indexed link) (file.stName s))

def NamesReadable (ends : Nat → Prop) (h : Nat) : Prop :=
  file.InFile 4 (h + 40) ∧ (file.shLink h ≠ SHN_UNDEF → file.InFile 4 (h + 4)
    ∧ (file.shType h = SHT_DYNSYM → file.TableReadable (file.NameReadable ends (file.shLink h))
      (file.NameStops (file.shLink h)) h))

def NamesStop (h : Nat) : Prop :=
  file.shLink h ≠ SHN_UNDEF ∧ file.shType h = SHT_DYNSYM
    ∧ file.TableStops (file.NameStops (file.shLink h)) h

def table (t : Nat) : List UInt8 := (file.bytes.drop (file.shOffset t)).take (file.shSize t)

-- The string table ends with a NUL in the file. What is looked for has its name at `offset`.
def SectionNamesReadable : Prop :=
  file.shstrndx ≠ SHN_UNDEF → file.IndexPasses file.shstrndx →
    file.ValidateReadable (file.indexed file.shstrndx)
      ∧ (file.ValidPasses (file.indexed file.shstrndx) →
        file.InFile 8 (file.indexed file.shstrndx + 32)
          ∧ (file.shSize (file.indexed file.shstrndx) = 0
            ∨ (file.table (file.indexed file.shstrndx)).length
                = file.shSize (file.indexed file.shstrndx)
              ∧ (file.table (file.indexed file.shstrndx)).getLast? = some 0)
          ∧ ∀ name offset,
            StringTable.IsFirstString (file.table (file.indexed file.shstrndx)) name offset →
              file.SectionsReadable
                (fun h => file.InFile 4 h
                  ∧ (file.shName h = offset → file.InFile 8 (h + 24) ∧ file.InFile 8 (h + 32)))
                (fun h => file.shName h = offset))

structure Readable : Prop where
  header : file.InFile Ehdr.sizeof 0
  sectionNames : file.SectionNamesReadable
  definitions : file.SectionsReadable file.DefinitionsReadable file.DefinitionsStop
  names : file.SectionsReadable (file.NamesReadable file.Terminated) file.NamesStop

end ElfContent
end Claire
