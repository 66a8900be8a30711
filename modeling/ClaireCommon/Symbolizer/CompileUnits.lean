import ClaireCommon.Symbolizer.Abbreviations
import ClaireCommon.Symbolizer.Forms
import ClaireCommon.Symbolizer.LineProgram

/-!
This module contains the compilation units of `.debug_info` with their encoding, and where a file keeps
what belongs to a unit: the entry of its abbreviation and its line number information.
-/

namespace Claire
namespace Dwarf

open Bytes

-- An attribute with its value, the reader has no use for blocks.
structure UnitAttribute where
  name : Nat
  form : Form
  value : Value
  not_block : form.innermost.isBlock = false
  number_of_line : name = DW_AT_stmt_list → ∃ n, value = .number n
  bytes_of_text : name = DW_AT_comp_dir ∨ name = DW_AT_name → ∃ bytes, value = .bytes bytes

namespace UnitAttribute

def entry (attr : UnitAttribute) : Attribute := ⟨attr.name, attr.form.code⟩

inductive EncodesAll (env : Env) (is64Bits : Bool) : List UnitAttribute → List UInt8 → Prop
  | nil : EncodesAll env is64Bits [] []
  | cons {attr : UnitAttribute} {attributes : List UnitAttribute} {bytes rest : List UInt8}
      (h : attr.form.Encodes env is64Bits attr.value bytes)
      (hrest : EncodesAll env is64Bits attributes rest)
      : EncodesAll env is64Bits (attr :: attributes) (bytes ++ rest)

-- The value of a name, the last one counts.
def find (name : Nat) (attributes : List UnitAttribute) : Option Value :=
  (attributes.reverse.find? fun attr => attr.name = name).map (·.value)

def findText (name : Nat) (attributes : List UnitAttribute) : List UInt8 :=
  match find name attributes with
  | some (.bytes bytes) => bytes
  | _ => []

end UnitAttribute

structure CompileUnit where
  is64Bits : Bool
  version : Nat
  abbrevOffset : Nat
  code : Nat
  attributes : List UnitAttribute
  version_range : 2 ≤ version ∧ version ≤ 4
  abbrevOffset_lt : abbrevOffset < 256 ^ offsetSize is64Bits
  code_ne_zero : code ≠ 0
  code_lt : code < 2 ^ 64

namespace CompileUnit

variable (unit : CompileUnit)

-- The version, the offset in `.debug_abbrev` and the size of an address
def header : List UInt8 :=
  toLittleEndian 2 unit.version
    ++ (toLittleEndian (offsetSize unit.is64Bits) unit.abbrevOffset ++ toLittleEndian 1 8)

-- Behind the values there may be more, the entries below the one of the unit among them.
inductive Encodes (env : Env) : List UInt8 → Prop
  | mk {code values children : List UInt8} (hcode : EncodesLeb unit.code code)
      (hvalues : UnitAttribute.EncodesAll env unit.is64Bits unit.attributes values)
      (hlt : (unit.header ++ (code ++ (values ++ children))).length
        < if unit.is64Bits then 2 ^ 64 else 2 ^ 32 - 1)
      : Encodes env (initialLength unit.is64Bits (unit.header ++ (code ++ (values ++ children))).length
          ++ (unit.header ++ (code ++ (values ++ children))))

def name : List UInt8 := UnitAttribute.findText DW_AT_name unit.attributes

def compilationDirectory : List UInt8 := UnitAttribute.findText DW_AT_comp_dir unit.attributes

end CompileUnit

def SectionHas (env : Env) (block : Block) (offset : Nat) (bytes : List UInt8) : Prop :=
  ∃ before after, (env.mapping block).content = before ++ bytes ++ after ∧ before.length = offset

structure UnitAt (env : Env) (offset : Nat) (unit : CompileUnit) : Prop where
  info : ∃ bytes, unit.Encodes env bytes ∧ SectionHas env .debugInfo offset bytes
  -- The first entry with the code belongs to the unit.
  abbreviation : ∃ abbreviations bytes entry, Abbreviation.EncodesAll abbreviations bytes
    ∧ SectionHas env .debugAbbrev unit.abbrevOffset bytes
    ∧ abbreviations.find? (fun entry => entry.code = unit.code) = some entry
    ∧ entry.tag = DW_TAG_compile_unit ∧ entry.attributes = unit.attributes.map UnitAttribute.entry

structure LinesAt (env : Env) (offset : Nat) (header : LineHeader) (sequences : List LineSequence)
    : Prop where
  lines : ∃ bytes program, header.Encodes bytes
    ∧ Op.EncodesAll header (sequences.flatMap LineSequence.ops) program
    ∧ SectionHas env .debugLine offset (bytes ++ program)
    ∧ bytes.length = header.programOffset
    ∧ header.programOffset + program.length = header.unitEnd
  lineRange : header.lineRange ≠ 0

structure Place where
  directory : List UInt8
  file : List UInt8
  line : Nat

inductive CompileUnit.Places (env : Env) (unit : CompileUnit) (address : Nat) : Option Place → Prop
  | none (h : UnitAttribute.find DW_AT_stmt_list unit.attributes = none) : Places env unit address none
  | some {n : Int} {header : LineHeader} {sequences : List LineSequence} {row : Registers} {file : FileEntry}
      {dir : List UInt8}
      (hoffset : UnitAttribute.find DW_AT_stmt_list unit.attributes = .some (.number n))
      (hlines : LinesAt env (n % 2 ^ 64).toNat header sequences)
      (hlookup : header.lookup sequences address = .some row) (hfile : header.file row.file = .some file)
      (hdir : header.directory file.directoryIndex = .some dir)
      : Places env unit address (.some ⟨dir, file.name, row.line⟩)

end Dwarf
end Claire
