import ClaireCommon.Strings.Impl.CString
import ClaireCommon.Symbolizer.Impl.Read

/-!
This module contains the reader for the section headers of a 64 bit ELF file, and how the sections
that `Dwarf` uses are found with it. Headers are not copied: a header is a pointer into the file, and
its fields are read where the source reads them.
-/

namespace Claire

def SHN_UNDEF : Nat := 0
def SHT_STRTAB : Nat := 3

namespace Env

variable (env : Env)

-- The condition is not evaluated in a build with `ndebug`.
def dcheckRead (condition : Reader Bool) : Reader PUnit :=
  if env.ndebug then
    pure ⟨⟩
  else do
    let holds ← condition
    Reader.check holds

def field (n : Nat) (p : Ptr) : Reader Nat := do
  let bytes ← env.peekMany p n
  return Bytes.littleEndian bytes

-- Whether the string at `p` differs
def strcmp (p : Ptr) : List UInt8 → Reader Bool
  | [] => do
    let byte ← env.peek p
    return byte ≠ 0
  | c :: name => do
    let byte ← env.peek p
    if byte = c then strcmp (p.add 1) name else return true

def strlen (p : Ptr) : Reader Nat := do
  match ← env.memchr p 0 ((env.mapped p.block).length + 1) with
  | some q => return StringPiece.distance p q
  | none => Traced.stop .stuck

end Env

namespace Ehdr

def sizeof : Nat := 64

variable (env : Env) (header : Ptr)

def shoff : Reader Nat := env.field 8 (header.add 40)
def shnum : Reader Nat := env.field 2 (header.add 60)
def shstrndx : Reader Nat := env.field 2 (header.add 62)

end Ehdr

namespace Shdr

def sizeof : Nat := 64

variable (env : Env) (section_ : Ptr)

def name : Reader Nat := env.field 4 section_
def type : Reader Nat := env.field 4 (section_.add 4)
def offset : Reader Nat := env.field 8 (section_.add 24)
def size : Reader Nat := env.field 8 (section_.add 32)

end Shdr

structure ElfFile where
  file : Ptr
  length : Nat

namespace ElfFile

variable (env : Env) (elf : ElfFile)

-- `At<T>`, `n` is `sizeof(T)`.
def at_ (n offset : Nat) : Reader Ptr := do
  env.dcheck ((offset + n) % 2 ^ 64 ≤ elf.length)
  return elf.file.add offset

def getElfHeader : Reader Ptr := at_ env elf Ehdr.sizeof 0

def getSectionByIndex (idx : Nat) : Reader Ptr := do
  env.dcheckRead do
    let header ← getElfHeader env elf
    let shnum ← Ehdr.shnum env header
    return idx < shnum
  let header ← getElfHeader env elf
  let shoff ← Ehdr.shoff env header
  at_ env elf Shdr.sizeof ((shoff + idx * Shdr.sizeof) % 2 ^ 64)

def getSectionBody (section_ : Ptr) : Reader StringPiece := do
  let offset ← Shdr.offset env section_
  let size ← Shdr.size env section_
  return ⟨elf.file.add offset, size⟩

def isTerminated (start : Ptr) (size : Nat) : Reader Bool := do
  if size = 0 then
    return true
  else
    let first ← env.peek start
    if first ≠ 0 then
      return false
    else
      let last ← env.peek (start.add (size - 1))
      return last = 0

def validateStringTable (stringTable : Ptr) : Reader PUnit := do
  env.dcheckRead do
    let type ← Shdr.type env stringTable
    return type = SHT_STRTAB
  let offset ← Shdr.offset env stringTable
  let start := elf.file.add offset
  env.dcheckRead do
    let size ← Shdr.size env stringTable
    isTerminated env start size

def getString (stringTable : Ptr) (offset : Nat) : Reader Ptr := do
  validateStringTable env elf stringTable
  env.dcheckRead do
    let size ← Shdr.size env stringTable
    return offset < size
  let start ← Shdr.offset env stringTable
  return (elf.file.add start).add offset

-- `none` is `NULL`.
def getSectionName (section_ : Ptr) : Reader (Option Ptr) := do
  let header ← getElfHeader env elf
  let shstrndx ← Ehdr.shstrndx env header
  if shstrndx = SHN_UNDEF then
    return none
  else
    let sectionNames ← getSectionByIndex env elf shstrndx
    let offset ← Shdr.name env section_
    let name ← getString env elf sectionNames offset
    return some name

def findNameRound (name : CString) (stop cur : Ptr) : Reader (Ptr ⊕ Ptr) := do
  if cur = stop then
    return .inr cur
  else
    let differs ← env.strcmp cur name.bytes
    if differs then
      let len ← env.strlen cur
      return .inl (cur.add (len + 1))
    else
      return .inr cur

-- The first string from `start` on that is the name, or `stop`
def findName (name : CString) (start stop : Ptr) : Reader Ptr :=
  Traced.loop .stuck (findNameRound env name stop) ((env.mapped start.block).length + 1) start

-- The first of the headers from `ptr` on that has its name at `offset`
def findOffset (offset : Nat) (ptr : Ptr) : Nat → Reader (Option Ptr)
  | 0 => return none
  | n + 1 => do
    let name ← Shdr.name env ptr
    if name = offset then return some ptr else findOffset offset (ptr.add Shdr.sizeof) n

def getSectionByName (name : CString) : Reader (Option Ptr) := do
  let header ← getElfHeader env elf
  let shstrndx ← Ehdr.shstrndx env header
  if shstrndx = SHN_UNDEF then
    return none
  else
    let sectionNames ← getSectionByIndex env elf shstrndx
    validateStringTable env elf sectionNames
    let tableOffset ← Shdr.offset env sectionNames
    let tableSize ← Shdr.size env sectionNames
    let start := elf.file.add tableOffset
    let stop := start.add tableSize
    let foundName ← findName env name start stop
    if foundName = stop then
      return none
    else
      let shoff ← Ehdr.shoff env header
      let ptr ← at_ env elf Shdr.sizeof shoff
      let shnum ← Ehdr.shnum env header
      findOffset env (StringPiece.distance start foundName) ptr shnum

end ElfFile

namespace Dwarf

variable (env : Env) (elf : ElfFile)

-- `none` where the source returns `false`
def getSection (name : CString) : Reader (Option StringPiece) := do
  match ← elf.getSectionByName env name with
  | none => return none
  | some section_ =>
    let body ← elf.getSectionBody env section_
    return some body

def debugInfo : CString :=
  ⟨['.', 'd', 'e', 'b', 'u', 'g', '_', 'i', 'n', 'f', 'o'].map Char.toUInt8, by decide⟩

def debugAbbrev : CString :=
  ⟨['.', 'd', 'e', 'b', 'u', 'g', '_', 'a', 'b', 'b', 'r', 'e', 'v'].map Char.toUInt8, by decide⟩

def debugAranges : CString :=
  ⟨['.', 'd', 'e', 'b', 'u', 'g', '_', 'a', 'r', 'a', 'n', 'g', 'e', 's'].map Char.toUInt8, by decide⟩

def debugLine : CString :=
  ⟨['.', 'd', 'e', 'b', 'u', 'g', '_', 'l', 'i', 'n', 'e'].map Char.toUInt8, by decide⟩

def debugStr : CString :=
  ⟨['.', 'd', 'e', 'b', 'u', 'g', '_', 's', 't', 'r'].map Char.toUInt8, by decide⟩

structure Sections where
  info : StringPiece
  abbrev_ : StringPiece
  aranges : StringPiece
  line : StringPiece
  strings : StringPiece

-- `none` where the source gives up the file with `elf_ = NULL`
def init : Reader (Option Sections) := do
  let some info ← getSection env elf debugInfo | return none
  let some abbrev_ ← getSection env elf debugAbbrev | return none
  let some aranges ← getSection env elf debugAranges | return none
  let some line ← getSection env elf debugLine | return none
  let some strings ← getSection env elf debugStr | return none
  let again ← getSection env elf debugStr
  return some ⟨info, abbrev_, aranges, line, again.getD strings⟩

end Dwarf
end Claire
