import ClaireCommon.Lib.Scan
import ClaireCommon.Symbolizer.Impl.Elf

/-!
This module contains the checks of `ElfFile::Init` on a 64 bit little endian platform.
-/

namespace Claire

def ELFCLASS64 : UInt8 := 2
def ELFDATA2LSB : UInt8 := 1
def EV_CURRENT : Nat := 1
def ET_EXEC : Nat := 2
def ET_DYN : Nat := 3
def PT_LOAD : Nat := 1

namespace Ehdr

variable (env : Env) (header : Ptr)

def ident (n : Nat) : Reader UInt8 := env.peek (header.add n)
def type : Reader Nat := env.field 2 (header.add 16)
def version : Reader Nat := env.field 4 (header.add 20)
def phoff : Reader Nat := env.field 8 (header.add 32)
def phentsize : Reader Nat := env.field 2 (header.add 54)
def phnum : Reader Nat := env.field 2 (header.add 56)
def shentsize : Reader Nat := env.field 2 (header.add 58)

end Ehdr

namespace Phdr

def sizeof : Nat := 56

variable (env : Env) (programHeader : Ptr)

def type : Reader Nat := env.field 4 programHeader
def vaddr : Reader Nat := env.field 8 (programHeader.add 16)

end Phdr

namespace ElfFile

variable (env : Env) (elf : ElfFile)

-- `&&` of the comparisons of `e_ident` from `n` on
def identIs (header : Ptr) (n : Nat) : List UInt8 → Reader Bool
  | [] => return true
  | c :: magic => do
    let byte ← Ehdr.ident env header n
    if byte = c then identIs header (n + 1) magic else return false

def loadAddress (programHeader : Ptr) : Reader (Option Nat) := do
  let type ← Phdr.type env programHeader
  if type = PT_LOAD then
    let vaddr ← Phdr.vaddr env programHeader
    return some vaddr
  else
    return none

-- Returns `base_address_`.
def init : Reader Nat := do
  let header ← getElfHeader env elf
  let magic ← identIs env header 0 [0x7f, 0x45, 0x4c, 0x46]
  Reader.check magic
  let class_ ← Ehdr.ident env header 4
  Reader.check (class_ = ELFCLASS64)
  let encoding ← Ehdr.ident env header 5
  Reader.check (encoding = ELFDATA2LSB)
  env.dcheckRead do
    let identVersion ← Ehdr.ident env header 6
    if identVersion.toNat = EV_CURRENT then
      let version ← Ehdr.version env header
      return version = EV_CURRENT
    else
      return false
  env.dcheckRead do
    let type ← Ehdr.type env header
    return type = ET_EXEC || type = ET_DYN
  env.dcheckRead do
    let phnum ← Ehdr.phnum env header
    return phnum ≠ 0
  env.dcheckRead do
    let phentsize ← Ehdr.phentsize env header
    return phentsize = Phdr.sizeof
  env.dcheckRead do
    let shentsize ← Ehdr.shentsize env header
    return shentsize = Shdr.sizeof
  let phoff ← Ehdr.phoff env header
  let programHeader ← at_ env elf Phdr.sizeof phoff
  let phnum ← Ehdr.phnum env header
  let base ← Traced.scan (·.add Phdr.sizeof) (loadAddress env) phnum programHeader
  env.dcheck base.isSome
  return base.getD 0

end ElfFile
end Claire
