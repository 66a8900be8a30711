import ClaireCommon.Lib.Numeral
import ClaireCommon.Lib.Pattern
import ClaireCommon.Symbolizer.Impl.Dwarf
import ClaireCommon.Symbolizer.Impl.ElfInit
import ClaireCommon.Symbolizer.Impl.Symbols

/-!
This module contains how an address is turned into the name of a symbol and a location: the lines of
`/proc/self/maps`, the file that is mapped there, and what its symbol tables and its debug information
say about the address in the file.

The files that `open` and `mmap` give are a parameter.
-/

namespace Claire
namespace Symbolizer

open Pattern

def isDigit (c : UInt8) : Bool := 0x30 ≤ c && c ≤ 0x39

def isXdigit (c : UInt8) : Bool := isDigit c || 0x41 ≤ c && c ≤ 0x46 || 0x61 ≤ c && c ≤ 0x66

def isSpace (c : UInt8) : Bool := c = 0x20 || 0x09 ≤ c && c ≤ 0x0d

def isWordOrDash (c : UInt8) : Bool :=
  isDigit c || 0x41 ≤ c && c ≤ 0x5a || 0x61 ≤ c && c ≤ 0x7a || c = 0x5f || c = 0x2d

def mapLineRegex : List (Item UInt8) := [
  .many isXdigit 1, .one 0x2d, .many isXdigit 1,
  .many isSpace 1,
  .many isWordOrDash 1,
  .many isSpace 1,
  .many isXdigit 1,
  .many isSpace 1,
  .many isXdigit 1, .one 0x3a, .many isXdigit 1,
  .many isSpace 1,
  .many isDigit 1,
  .many isSpace 0,
  .many (fun _ => true) 0]

structure Match where
  begin_ : List UInt8
  end_ : List UInt8
  offset : List UInt8
  name : List UInt8

-- `boost::regex_match` with the groups of the regex
def regexMatch (line : List UInt8) : Option Match :=
  match Pattern.first mapLineRegex line with
  | some [begin_, _, end_, _, _, _, offset, _, _, _, _, _, _, _, name] => some ⟨begin_, end_, offset, name⟩
  | _ => none

def digitValue (c : UInt8) : Nat :=
  if isDigit c then c.toNat - 0x30 else if c ≤ 0x46 then c.toNat - 0x37 else c.toNat - 0x57

-- `strtoull` reads the digits, a match has no blank, sign or prefix in front of them.
def fromHex (s : List UInt8) : Reader Nat := do
  let digits := s.takeWhile isXdigit
  Reader.check (!s.isEmpty && digits.length == s.length)
  return min (Numeral.value 16 (digits.map digitValue)) (2 ^ 64 - 1)

structure MappedFile where
  begin_ : Nat
  end_ : Nat
  name : List UInt8
  deriving DecidableEq, Repr

-- The loop over the lines, `none` where it ends with `error`
def findFile (address : Nat) : List (List UInt8) → Reader (Option MappedFile)
  | [] => return none
  | line :: lines => do
    if line.isEmpty then
      findFile address lines
    else
      match regexMatch line with
      | none => Traced.stop .check
      | some groups =>
        let begin_ ← fromHex groups.begin_
        let end_ ← fromHex groups.end_
        let offset ← fromHex groups.offset
        if offset ≠ 0 then
          findFile address lines
        else if begin_ ≤ address ∧ address < end_ then
          return some ⟨begin_, end_, groups.name⟩
        else
          findFile address lines

def getMapsLine (data : List UInt8) : List (List UInt8) := data.splitOn 0x0a

structure Mapped where
  env : Env
  elf : ElfFile

structure OpenFile extends Mapped where
  base : Nat

-- `elf_files_`
abbrev Files := List (List UInt8 × OpenFile)

variable (open_ : List UInt8 → Mapped)

-- The last character of an empty name is read outside of it.
def getFile (files : Files) (name : List UInt8) : Reader (Option OpenFile × Files) :=
  match name.head?, name.getLast? with
  | some first, some last =>
    if first = 0x5b ∨ last = 0x29 then
      return (none, files)
    else
      match files.lookup name with
      | some file => return (some file, files)
      | none => do
        let file := open_ name
        let base ← ElfFile.init file.env file.elf
        return (some ⟨file, base⟩, (name, ⟨file, base⟩) :: files)
  | _, _ => Traced.stop .fault

def section_ (env : Env) (s : StringPiece) : Mapping where
  content := ((env.mapped s.data.block).drop s.data.offset).take s.size
  behind := ((env.mapped s.data.block).drop s.data.offset).drop s.size
  length_lt := by
    rw [List.take_append_drop, List.length_drop]
    exact Nat.lt_of_le_of_lt (Nat.sub_le _ _) (env.mapping s.data.block).length_lt

-- The sections of a file, a block each
def debugEnv (env : Env) (sections : Dwarf.Sections) : Env where
  ndebug := env.ndebug
  uninitialized := env.uninitialized
  mapping
    | .debugInfo => section_ env sections.info
    | .debugAbbrev => section_ env sections.abbrev_
    | .debugAranges => section_ env sections.aranges
    | .debugLine => section_ env sections.line
    | .debugStr => section_ env sections.strings
    | block => env.mapping block

-- `Dwarf(elf_file).FindAddress(orig_address, location)`
def findLocation (file : OpenFile) (address : Nat) : Reader Dwarf.LocationInfo := do
  match ← Dwarf.init file.env file.elf with
  | none => return .empty
  | some sections =>
    let (_, location) ← Dwarf.findAddress (debugEnv file.env sections) address
    return location

structure Result where
  found : Bool
  symbolName : Option Ptr
  location : Dwarf.LocationInfo

def Result.none : Result := ⟨false, .none, .empty⟩

def symbolizeIn (file : OpenFile) (address : Nat) : Reader Result := do
  let sym ← ElfFile.getDefinitionByAddress file.env file.elf address
  if sym.first.isNone then
    return .none
  else
    let name ← ElfFile.getSymbolName file.env file.elf sym
    let location ← findLocation file address
    return ⟨true, name, location⟩

def symbolize (files : Files) (data : List UInt8) (address : Nat) : Reader (Result × Files) := do
  match ← findFile address (getMapsLine data) with
  | none => return (.none, files)
  | some foundFile =>
    match ← getFile open_ files foundFile.name with
    | (none, files) => return (.none, files)
    | (some file, files) =>
      -- `address` is not below `begin`
      let origAddress := (address - foundFile.begin_ + file.base) % 2 ^ 64
      let result ← symbolizeIn file origAddress
      return (result, files)

end Symbolizer
end Claire
