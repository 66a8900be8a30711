import ClaireCommon.Lib.Scan
import ClaireCommon.Symbolizer.Impl.Elf

/-!
This module contains how symbols are found in a 64 bit ELF file. Pointers do not wrap around, the end
of a table that is larger than the address space lies behind every address.
-/

namespace Claire

def SHT_SYMTAB : Nat := 2
def SHT_DYNSYM : Nat := 11
def STT_OBJECT : Nat := 1
def STT_FUNC : Nat := 2

namespace Shdr

variable (env : Env) (section_ : Ptr)

def link : Reader Nat := env.field 4 (section_.add 40)
def entsize : Reader Nat := env.field 8 (section_.add 56)

end Shdr

namespace Sym

def sizeof : Nat := 24

variable (env : Env) (sym : Ptr)

def name : Reader Nat := env.field 4 sym
def info : Reader Nat := env.field 1 (sym.add 4)
def shndx : Reader Nat := env.field 2 (sym.add 6)
def value : Reader Nat := env.field 8 (sym.add 8)
def size : Reader Nat := env.field 8 (sym.add 16)

end Sym

-- Both are `none` where no symbol is found.
structure ElfFile.Symbol where
  first : Option Ptr
  second : Option Ptr
  deriving DecidableEq

namespace ElfFile

variable (env : Env) (elf : ElfFile)

-- The symbols of the table with the header `ptr`, the first that matches
def findSymbol (isMatch : Ptr → Reader Bool) (ptr : Ptr) : Reader (Option Symbol) := do
  let offset ← Shdr.offset env ptr
  let sym ← at_ env elf Sym.sizeof offset
  let size ← Shdr.size env ptr
  let entsize ← Shdr.entsize env ptr
  if entsize = 0 then
    Traced.stop .divisionByZero
  else
    let body (sym : Ptr) : Reader (Option Symbol) := do
      let found ← isMatch sym
      return if found then some ⟨some ptr, some sym⟩ else none
    Traced.scan (·.add Sym.sizeof) body (size / entsize) sym

-- The sections, the first in which a symbol is found
def findInSections (body : Ptr → Reader (Option Symbol)) : Reader Symbol := do
  let header ← getElfHeader env elf
  let shoff ← Ehdr.shoff env header
  let ptr ← at_ env elf Shdr.sizeof shoff
  let shnum ← Ehdr.shnum env header
  let found ← Traced.scan (·.add Shdr.sizeof) body shnum ptr
  return found.getD ⟨none, none⟩

-- `sh` is a copy of the whole header.
def skipsByAddress (ptr : Ptr) : Reader Bool := do
  let _ ← env.peekMany ptr Shdr.sizeof
  let type ← Shdr.type env ptr
  return type ≠ SHT_DYNSYM && type ≠ SHT_SYMTAB

def isDefinition (address : Nat) (sym : Ptr) : Reader Bool := do
  let info ← Sym.info env sym
  let type := info % 16
  if type = STT_OBJECT ∨ type = STT_FUNC then
    let shndx ← Sym.shndx env sym
    if shndx ≠ SHN_UNDEF then
      let value ← Sym.value env sym
      if address ≥ value then
        let size ← Sym.size env sym
        return address < (value + size) % 2 ^ 64
      else
        return false
    else
      return false
  else
    return false

def definitionIn (address : Nat) (ptr : Ptr) : Reader (Option Symbol) := do
  let skips ← skipsByAddress env ptr
  if skips then return none else findSymbol env elf (isDefinition env address) ptr

def getDefinitionByAddress (address : Nat) : Reader Symbol :=
  findInSections env elf (definitionIn env elf address)

-- The type is compared with `SHT_DYNSYM` twice.
def skipsByName (ptr : Ptr) : Reader Bool := do
  let link ← Shdr.link env ptr
  if link = SHN_UNDEF then
    return true
  else
    let type ← Shdr.type env ptr
    return type ≠ SHT_DYNSYM && type ≠ SHT_DYNSYM

def isNamed (name : CString) (ptr sym : Ptr) : Reader Bool := do
  let shndx ← Sym.shndx env sym
  if shndx ≠ SHN_UNDEF then
    let stName ← Sym.name env sym
    if stName ≠ 0 then
      let link ← Shdr.link env ptr
      let stringTable ← getSectionByIndex env elf link
      let symName ← getString env elf stringTable stName
      let differs ← env.strcmp symName name.bytes
      return !differs
    else
      return false
  else
    return false

def symbolIn (name : CString) (ptr : Ptr) : Reader (Option Symbol) := do
  let skips ← skipsByName env ptr
  if skips then return none else findSymbol env elf (isNamed env elf name ptr) ptr

def getSymbolByName (name : CString) : Reader Symbol :=
  findInSections env elf (symbolIn env elf name)

-- `none` is `NULL`.
def getSymbolName (symbol : Symbol) : Reader (Option Ptr) := do
  match symbol.first, symbol.second with
  | some section_, some sym =>
    let stName ← Sym.name env sym
    if stName = 0 then
      return none
    else
      let link ← Shdr.link env section_
      if link = SHN_UNDEF then
        return none
      else
        let stringTable ← getSectionByIndex env elf link
        let name ← getString env elf stringTable stName
        return some name
  | _, _ => return none

end ElfFile
end Claire
