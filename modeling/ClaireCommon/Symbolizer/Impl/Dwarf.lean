import ClaireCommon.Symbolizer.Impl.LineNumberVM

/-!
This module contains the reading of debugging information entries and `Dwarf::FindAddress`. All
`.debug_*` sections are present, each in its own block.
-/

namespace Claire
namespace Dwarf

def DW_TAG_compile_unit : Nat := 0x11

def DW_CHILDREN_no : Nat := 0x00

def DW_AT_name : Nat := 0x03
def DW_AT_stmt_list : Nat := 0x10
def DW_AT_comp_dir : Nat := 0x1b

def DW_FORM_addr : Nat := 0x01
def DW_FORM_block2 : Nat := 0x03
def DW_FORM_block4 : Nat := 0x04
def DW_FORM_data2 : Nat := 0x05
def DW_FORM_data4 : Nat := 0x06
def DW_FORM_data8 : Nat := 0x07
def DW_FORM_string : Nat := 0x08
def DW_FORM_block : Nat := 0x09
def DW_FORM_block1 : Nat := 0x0a
def DW_FORM_data1 : Nat := 0x0b
def DW_FORM_flag : Nat := 0x0c
def DW_FORM_sdata : Nat := 0x0d
def DW_FORM_strp : Nat := 0x0e
def DW_FORM_udata : Nat := 0x0f
def DW_FORM_ref_addr : Nat := 0x10
def DW_FORM_ref1 : Nat := 0x11
def DW_FORM_ref2 : Nat := 0x12
def DW_FORM_ref4 : Nat := 0x13
def DW_FORM_ref8 : Nat := 0x14
def DW_FORM_ref_udata : Nat := 0x15
def DW_FORM_indirect : Nat := 0x16
def DW_FORM_sec_offset : Nat := 0x17
def DW_FORM_exprloc : Nat := 0x18
def DW_FORM_flag_present : Nat := 0x19

structure Attribute where
  name : Nat
  form : Nat
  deriving DecidableEq, Repr

structure DIEAbbreviation where
  code : Nat
  tag : Nat
  hasChildren : Bool
  attributes : StringPiece

inductive AttributeValue where
  | uint64 (value : Nat)
  | stringPiece (value : StringPiece)
  deriving DecidableEq, Repr

structure LocationInfo where
  hasMainFile : Bool
  mainFile : Path
  hasFileAndLine : Bool
  file : Path
  line : Nat

def LocationInfo.empty : LocationInfo := ⟨false, .empty, false, .empty, 0⟩

variable (env : Env)

def debugSection (block : Block) : StringPiece := ⟨⟨block, 0⟩, (env.mapping block).content.length⟩

def readAttribute (s : StringPiece) : Reader (Attribute × StringPiece) := do
  let (name, s) ← readULEB env s
  let (form, s) ← readULEB env s
  return (⟨name, form⟩, s)

def skipAttributesRound (section_ : StringPiece) : Reader (StringPiece ⊕ StringPiece) := do
  Reader.check (!section_.isEmpty)
  let (attr, section_) ← readAttribute env section_
  return if attr.name = 0 ∧ attr.form = 0 then .inr section_ else .inl section_

-- `false` where the source returns `false`, only the code has been assigned then
def readAbbreviation (section_ : StringPiece) (abbr : DIEAbbreviation)
    : Reader (Bool × DIEAbbreviation × StringPiece) := do
  let (code, section_) ← readULEB env section_
  let abbr := { abbr with code := code }
  if code = 0 then
    return (false, abbr, section_)
  else
    let (tag, section_) ← readULEB env section_
    let (hasChildren, section_) ← read env 1 section_
    let attributeBegin := section_.data
    let section_ ←
      Traced.loop .stuck (skipAttributesRound env) (rounds env section_) section_
    return (true, {
      code := code
      tag := tag
      hasChildren := hasChildren ≠ DW_CHILDREN_no
      attributes := StringPiece.assign attributeBegin section_.data
    }, section_)

def getAbbreviationRound (code : Nat) (state : DIEAbbreviation × StringPiece)
    : Reader ((DIEAbbreviation × StringPiece) ⊕ DIEAbbreviation) := do
  let (more, abbr, section_) ← readAbbreviation env state.2 state.1
  if more then
    return if abbr.code = code then .inr abbr else .inl (abbr, section_)
  else
    -- `NOTREACHED`
    env.dcheck false
    return .inr abbr

def getAbbreviation (code offset : Nat) : Reader DIEAbbreviation := do
  let section_ ← (debugSection env .debugAbbrev).advance env offset
  let abbr := ⟨env.uninitialized, env.uninitialized, env.uninitialized ≠ 0, .null⟩
  Traced.loop .stuck (getAbbreviationRound env code) (rounds env section_) (abbr, section_)

def getStringFromStringSection (offset : Nat) : Reader StringPiece := do
  let strings := debugSection env .debugStr
  env.dcheck (offset < strings.size)
  let s ← strings.advance env offset
  let (ret, _) ← readNullTerminated env s
  return ret

def readNumber (n : Nat) (s : StringPiece) : Reader (AttributeValue × StringPiece) := do
  let (value, s) ← read env n s
  return (.uint64 value, s)

def readBlock (n : Nat) (s : StringPiece) : Reader (AttributeValue × StringPiece) := do
  let (len, s) ← read env n s
  let (ret, s) ← readBytes env s len
  return (.stringPiece ret, s)

-- Every form but `DW_FORM_indirect`
def readDirectValue (s : StringPiece) (form : Nat) (is64Bits : Bool)
    : Reader (AttributeValue × StringPiece) := do
  if form = DW_FORM_addr then
    readNumber env 8 s
  else if form = DW_FORM_block1 then
    readBlock env 1 s
  else if form = DW_FORM_block2 then
    readBlock env 2 s
  else if form = DW_FORM_block4 then
    readBlock env 4 s
  else if form = DW_FORM_block ∨ form = DW_FORM_exprloc then
    let (len, s) ← readULEB env s
    let (ret, s) ← readBytes env s len
    return (.stringPiece ret, s)
  else if form = DW_FORM_data1 ∨ form = DW_FORM_ref1 then
    readNumber env 1 s
  else if form = DW_FORM_data2 ∨ form = DW_FORM_ref2 then
    readNumber env 2 s
  else if form = DW_FORM_data4 ∨ form = DW_FORM_ref4 then
    readNumber env 4 s
  else if form = DW_FORM_data8 ∨ form = DW_FORM_ref8 then
    readNumber env 8 s
  else if form = DW_FORM_sdata then
    let (value, s) ← readSLEB env s
    return (.uint64 (sizeT value).toNat, s)
  else if form = DW_FORM_udata ∨ form = DW_FORM_ref_udata then
    let (value, s) ← readULEB env s
    return (.uint64 value, s)
  else if form = DW_FORM_flag then
    readNumber env 1 s
  else if form = DW_FORM_flag_present then
    return (.uint64 1, s)
  else if form = DW_FORM_sec_offset ∨ form = DW_FORM_ref_addr then
    let (value, s) ← readOffset env s is64Bits
    return (.uint64 value, s)
  else if form = DW_FORM_string then
    let (ret, s) ← readNullTerminated env s
    return (.stringPiece ret, s)
  else if form = DW_FORM_strp then
    let (offset, s) ← readOffset env s is64Bits
    let ret ← getStringFromStringSection env offset
    return (.stringPiece ret, s)
  else
    env.dcheck false
    return (.uint64 0, s)

def readAttributeValueRound (is64Bits : Bool) (state : StringPiece × Nat)
    : Reader ((StringPiece × Nat) ⊕ (AttributeValue × StringPiece)) := do
  let (s, form) := state
  if form = DW_FORM_indirect then
    let (form, s) ← readULEB env s
    return .inl (s, form)
  else
    let res ← readDirectValue env s form is64Bits
    return .inr res

-- The source calls itself for `DW_FORM_indirect`, with nothing left to do behind the call.
def readAttributeValue (s : StringPiece) (form : Nat) (is64Bits : Bool)
    : Reader (AttributeValue × StringPiece) :=
  Traced.loop .stuck (readAttributeValueRound env is64Bits) (rounds env s) (s, form)

def getUint64 : AttributeValue → Reader Nat
  | .uint64 value => return value
  | .stringPiece _ => Traced.stop .badGet

def getStringPiece : AttributeValue → Reader StringPiece
  | .stringPiece value => return value
  | .uint64 _ => Traced.stop .badGet

-- `true` if the address is in a range of the set
def searchRangesRound (address : Nat) (chunk : StringPiece) : Reader (StringPiece ⊕ Bool) := do
  let (start, chunk) ← read env 8 chunk
  let (length, chunk) ← read env 8 chunk
  return if start = 0 then
    .inr false
  else if address ≥ start ∧ address < (start + length) % 2 ^ 64 then
    .inr true
  else
    .inl chunk

-- One round of the search for the set of ranges, it ends with the offset of the unit or `none`.
def searchSetsRound (address : Nat) (section_ : Section) : Reader (Section ⊕ Option Nat) := do
  let (chunk, section_) ← section_.next env
  match chunk with
  | none => return .inr none
  | some chunk =>
    let (version, chunk) ← read env 2 chunk
    Reader.check (version = 2)
    let (debugInfoOffset, chunk) ← readOffset env chunk section_.is64Bits
    let (addressSize, chunk) ← read env 1 chunk
    Reader.check (addressSize = 8)
    let (segmentSize, chunk) ← read env 1 chunk
    Reader.check (segmentSize = 0)
    let chunk ← skipPadding env chunk (debugSection env .debugAranges).data 16
    let found ← Traced.loop .stuck (searchRangesRound env address) (rounds env chunk) chunk
    return if found then .inr (some debugInfoOffset) else .inl section_

structure UnitAttributes where
  foundLineOffset : Bool
  lineOffset : Nat
  compilationDirectory : StringPiece
  mainFileName : StringPiece

def noteAttribute (unit : UnitAttributes) (name : Nat) (val : AttributeValue)
    : Reader UnitAttributes := do
  if name = DW_AT_stmt_list then
    let lineOffset ← getUint64 val
    return { unit with lineOffset := lineOffset, foundLineOffset := true }
  else if name = DW_AT_comp_dir then
    let compilationDirectory ← getStringPiece val
    return { unit with compilationDirectory := compilationDirectory }
  else if name = DW_AT_name then
    let mainFileName ← getStringPiece val
    return { unit with mainFileName := mainFileName }
  else
    return unit

-- The state is the attributes, the chunk and the attributes of the unit so far.
def readAttributesRound (is64Bits : Bool) (state : StringPiece × StringPiece × UnitAttributes)
    : Reader ((StringPiece × StringPiece × UnitAttributes) ⊕ UnitAttributes) := do
  let (attributes, chunk, unit) := state
  let (attr, attributes) ← readAttribute env attributes
  if attr.name = 0 ∧ attr.form = 0 then
    return .inr unit
  else
    let (val, chunk) ← readAttributeValue env chunk attr.form is64Bits
    let unit ← noteAttribute unit attr.name val
    return .inl (attributes, chunk, unit)

def readUnit (debugInfoOffset : Nat) : Reader UnitAttributes := do
  let s ← (debugSection env .debugInfo).advance env debugInfoOffset
  let (chunk, section_) ← (Section.create s).next env
  match chunk with
  | none => Traced.stop .check
  | some chunk =>
    let (version, chunk) ← read env 2 chunk
    Reader.check (version ≥ 2 ∧ version ≤ 4)
    let (abbrevOffset, chunk) ← readOffset env chunk section_.is64Bits
    let (addressSize, chunk) ← read env 1 chunk
    Reader.check (addressSize = 8)
    let (code, chunk) ← readULEB env chunk
    Reader.check (code ≠ 0)
    let abbr ← getAbbreviation env code abbrevOffset
    Reader.check (abbr.tag = DW_TAG_compile_unit)
    Traced.loop .stuck (readAttributesRound env section_.is64Bits)
      (rounds env abbr.attributes) (abbr.attributes, chunk, ⟨false, 0, .null, .null⟩)

def findAddress (address : Nat) : Reader (Bool × LocationInfo) := do
  let aranges := debugSection env .debugAranges
  let debugInfoOffset ← Traced.loop .stuck (searchSetsRound env address)
    (rounds env aranges) (Section.create aranges)
  match debugInfoOffset with
  | none => return (false, .empty)
  | some debugInfoOffset =>
    let unit ← readUnit env debugInfoOffset
    let info ←
      if unit.mainFileName.isEmpty then
        pure LocationInfo.empty
      else do
        let mainFile ← Path.create env unit.compilationDirectory .literal unit.mainFileName
        pure { LocationInfo.empty with hasMainFile := true, mainFile := mainFile }
    if unit.foundLineOffset then
      let lineSection ← (debugSection env .debugLine).advance env unit.lineOffset
      let vm ← LineNumberVM.create env lineSection unit.compilationDirectory
      match ← vm.findAddress env address with
      | some (file, line) =>
        return (true, { info with hasFileAndLine := true, file := file, line := line })
      | none => return (true, info)
    else
      return (true, info)

end Dwarf
end Claire
