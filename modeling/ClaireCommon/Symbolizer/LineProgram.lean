import ClaireCommon.Symbolizer.Impl.LineNumberVM
import ClaireCommon.Symbolizer.Lemmas.Read

/-!
This module contains the line number information of DWARF 2 to 4 for a 64 bit target: units with their
header, the programs with their encoding, and the rows of the state machine that runs them. Of the
reader only the names of the opcodes and of the registers are used.
-/

namespace Claire
namespace Dwarf

open Bytes

structure FileEntry where
  name : List UInt8
  directoryIndex : Nat
  deriving DecidableEq

structure LineHeader where
  is64Bits : Bool
  unitLength : Nat
  version : Nat
  headerLength : Nat
  minLength : Nat
  defaultIsStmt : Nat
  lineBase : Int
  lineRange : Nat
  opcodeBase : Nat
  standardOpcodeLengths : List UInt8
  includeDirectories : List (List UInt8)
  fileNames : List FileEntry

structure IsUint64 (n : Nat) (bytes : List UInt8) : Prop where
  leb : IsLeb64 bytes
  value : unsigned bytes = n
  lt : n < 2 ^ 64

structure IsInt64 (n : Int) (bytes : List UInt8) : Prop where
  leb : IsLeb64 bytes
  value : signed bytes = n
  le : -2 ^ 63 ≤ n
  lt : n < 2 ^ 63

inductive FileEntry.Encodes : FileEntry → List UInt8 → Prop
  | mk {name index time length : List UInt8} (hname : name ≠ []) (hnonzero : 0 ∉ name)
      (hindex : IsLeb64 index) (htime : IsLeb64 time) (hlength : IsLeb64 length)
      : Encodes ⟨name, unsigned index % 2 ^ 64⟩ (name ++ [0] ++ index ++ time ++ length)

inductive DirectoryTable : List (List UInt8) → List UInt8 → Prop
  | nil : DirectoryTable [] [0]
  | cons {dir bytes : List UInt8} {dirs : List (List UInt8)} (hdir : dir ≠ []) (hnonzero : 0 ∉ dir)
      (rest : DirectoryTable dirs bytes) : DirectoryTable (dir :: dirs) (dir ++ [0] ++ bytes)

inductive FileTable : List FileEntry → List UInt8 → Prop
  | nil : FileTable [] [0]
  | cons {entry : FileEntry} {entries : List FileEntry} {first bytes : List UInt8}
      (hentry : entry.Encodes first) (rest : FileTable entries bytes)
      : FileTable (entry :: entries) (first ++ bytes)

def initialLength (is64Bits : Bool) (length : Nat) : List UInt8 :=
  if is64Bits then toLittleEndian 4 (2 ^ 32 - 1) ++ toLittleEndian 8 length else toLittleEndian 4 length

def offsetSize (is64Bits : Bool) : Nat := if is64Bits then 8 else 4

namespace LineHeader

variable (header : LineHeader)

def fields : List UInt8 :=
  initialLength header.is64Bits header.unitLength
    ++ toLittleEndian 2 header.version
    ++ toLittleEndian (offsetSize header.is64Bits) header.headerLength
    ++ toLittleEndian 1 header.minLength
    -- The maximum number of operations per instruction
    ++ (if header.version = 4 then toLittleEndian 1 1 else [])
    ++ toLittleEndian 1 header.defaultIsStmt
    ++ toLittleEndian 1 (header.lineBase % 2 ^ 8).toNat
    ++ toLittleEndian 1 header.lineRange
    ++ toLittleEndian 1 header.opcodeBase
    ++ header.standardOpcodeLengths

structure WellFormed : Prop where
  unitLength : header.unitLength < if header.is64Bits then 2 ^ 64 else 2 ^ 32 - 1
  version : 2 ≤ header.version ∧ header.version ≤ 4
  headerLength : header.headerLength ≤ header.unitLength
  minLength : header.minLength < 2 ^ 8
  defaultIsStmt : header.defaultIsStmt < 2 ^ 8
  lineBase : -2 ^ 7 ≤ header.lineBase ∧ header.lineBase < 2 ^ 7
  lineRange : header.lineRange < 2 ^ 8
  opcodeBase : 0 < header.opcodeBase ∧ header.opcodeBase < 2 ^ 8
  standardOpcodeLengths : header.standardOpcodeLengths.length = header.opcodeBase - 1

inductive Encodes : List UInt8 → Prop
  | mk {dirs files : List UInt8} (hwellFormed : header.WellFormed)
      (hdirs : DirectoryTable header.includeDirectories dirs)
      (hfiles : FileTable header.fileNames files)
      : Encodes (header.fields ++ dirs ++ files)

def programOffset : Nat :=
  (initialLength header.is64Bits header.unitLength).length + 2 + offsetSize header.is64Bits
    + header.headerLength

def unitEnd : Nat :=
  (initialLength header.is64Bits header.unitLength).length + header.unitLength

-- Index 0 is the compilation directory, its relative name is empty.
def directory : Nat → Option (List UInt8)
  | 0 => some []
  | index + 1 => header.includeDirectories[index]?

def file : Nat → Option FileEntry
  | 0 => none
  | index + 1 => header.fileNames[index]?

end LineHeader

inductive Op where
  | special (opcode : UInt8)
  | copy
  | advancePc (n : Nat)
  | advanceLine (n : Int)
  | setFile (n : Nat)
  | setColumn (n : Nat)
  | negateStmt
  | setBasicBlock
  | constAddPc
  | fixedAdvancePc (n : Nat)
  | setPrologueEnd
  | setEpilogueBegin
  | setIsa (n : Nat)
  -- A standard opcode that the version does not define
  | vendor (opcode : UInt8)
  | endSequence
  | setAddress (n : Nat)
  | defineFile (entry : FileEntry)
  | setDiscriminator (n : Nat)
  | vendorExtended (opcode : UInt8)
  deriving DecidableEq

namespace Op

-- Version 2 ends with `DW_LNS_fixed_advance_pc`.
def definedOpcodes (version : Nat) : Nat := if version = 2 then 9 else 12

def standardOpcode (version : Nat) : Op → Option Nat
  | copy => some DW_LNS_copy
  | advancePc _ => some DW_LNS_advance_pc
  | advanceLine _ => some DW_LNS_advance_line
  | setFile _ => some DW_LNS_set_file
  | setColumn _ => some DW_LNS_set_column
  | negateStmt => some DW_LNS_negate_stmt
  | setBasicBlock => some DW_LNS_set_basic_block
  | constAddPc => some DW_LNS_const_add_pc
  | fixedAdvancePc _ => some DW_LNS_fixed_advance_pc
  | setPrologueEnd => if version = 2 then none else some DW_LNS_set_prologue_end
  | setEpilogueBegin => if version = 2 then none else some DW_LNS_set_epilogue_begin
  | setIsa _ => if version = 2 then none else some DW_LNS_set_isa
  | _ => none

def extendedOpcode : Op → Option Nat
  | endSequence => some DW_LNE_end_sequence
  | setAddress _ => some DW_LNE_set_address
  | defineFile _ => some DW_LNE_define_file
  | setDiscriminator _ => some DW_LNE_set_discriminator
  | vendorExtended opcode => if opcode.toNat ∈ [1, 2, 3, 4] then none else some opcode.toNat
  | _ => none

def Operands : Op → List UInt8 → Prop
  | advancePc n, bytes | setFile n, bytes | setColumn n, bytes | setIsa n, bytes
  | setDiscriminator n, bytes => IsUint64 n bytes
  | advanceLine n, bytes => IsInt64 n bytes
  | fixedAdvancePc n, bytes => n < 2 ^ 16 ∧ bytes = toLittleEndian 2 n
  | setAddress n, bytes => n < 2 ^ 64 ∧ bytes = toLittleEndian 8 n
  | defineFile entry, bytes => entry.Encodes bytes
  | vendorExtended _, _ => True
  | _, bytes => bytes = []

inductive Encodes (header : LineHeader) : Op → List UInt8 → Prop
  | special {opcode : UInt8} (h : header.opcodeBase ≤ opcode.toNat)
      : Encodes header (.special opcode) [opcode]
  | standard {op : Op} {opcode : UInt8} {operands : List UInt8}
      (hop : op.standardOpcode header.version = some opcode.toNat)
      (h : opcode.toNat < header.opcodeBase) (hoperands : op.Operands operands)
      : Encodes header op (opcode :: operands)
  | vendor {opcode arguments : UInt8} {operands : List (List UInt8)}
      (hop : definedOpcodes header.version < opcode.toNat) (h : opcode.toNat < header.opcodeBase)
      (harguments : header.standardOpcodeLengths[opcode.toNat - 1]? = some arguments)
      (hlength : operands.length = arguments.toNat) (hoperands : ∀ operand ∈ operands, IsLeb64 operand)
      : Encodes header (.vendor opcode) (opcode :: operands.flatten)
  | extended {op : Op} {opcode : UInt8} {length operands : List UInt8}
      (hop : op.extendedOpcode = some opcode.toNat) (hlength : IsUint64 (1 + operands.length) length)
      (hoperands : op.Operands operands)
      : Encodes header op (0 :: length ++ opcode :: operands)

inductive EncodesAll (header : LineHeader) : List Op → List UInt8 → Prop
  | nil : EncodesAll header [] []
  | cons {op : Op} {ops : List Op} {first bytes : List UInt8} (hop : op.Encodes header first)
      (hops : EncodesAll header ops bytes) : EncodesAll header (op :: ops) (first ++ bytes)

end Op

-- The operations of a sequence before its `DW_LNE_end_sequence`
structure LineSequence where
  body : List Op
  unended : .endSequence ∉ body

def LineSequence.ops (sequence : LineSequence) : List Op := sequence.body ++ [Op.endSequence]

namespace LineHeader

variable (header : LineHeader)

def start : Registers where
  address := 0
  file := 1
  line := 1
  column := 0
  isStmt := header.defaultIsStmt ≠ 0
  basicBlock := false
  endSequence := false
  prologueEnd := false
  epilogueBegin := false
  isa := 0
  discriminator := 0

-- The registers of the row, for an operation that appends one
def execute (regs : Registers) : Op → Registers
  | .special opcode =>
    let adjusted := opcode.toNat - header.opcodeBase
    { regs with
      address := (regs.address + header.minLength * (adjusted / header.lineRange)) % 2 ^ 64
      line := ((regs.line + header.lineBase + (adjusted % header.lineRange : Nat)) % 2 ^ 64).toNat }
  | .copy => regs
  | .advancePc n => { regs with address := (regs.address + header.minLength * n) % 2 ^ 64 }
  | .advanceLine n => { regs with line := ((regs.line + n) % 2 ^ 64).toNat }
  | .setFile n => { regs with file := n }
  | .setColumn n => { regs with column := n }
  | .negateStmt => { regs with isStmt := !regs.isStmt }
  | .setBasicBlock => { regs with basicBlock := true }
  | .constAddPc =>
    { regs with
      address := (regs.address
        + header.minLength * ((255 - header.opcodeBase) / header.lineRange)) % 2 ^ 64 }
  | .fixedAdvancePc n => { regs with address := (regs.address + n) % 2 ^ 64 }
  | .setPrologueEnd => { regs with prologueEnd := true }
  | .setEpilogueBegin => { regs with epilogueBegin := true }
  | .setIsa n => { regs with isa := n }
  | .vendor _ => regs
  | .endSequence => { regs with endSequence := true }
  | .setAddress n => { regs with address := n }
  | .defineFile _ => regs
  | .setDiscriminator n => { regs with discriminator := n }
  | .vendorExtended _ => regs

def afterRow (regs : Registers) : Registers :=
  { regs with basicBlock := false, prologueEnd := false, epilogueBegin := false, discriminator := 0 }

def rows : Registers → List Op → List Registers
  | _, [] => []
  | regs, op :: ops =>
    let row := header.execute regs op
    match op with
    | .endSequence => row :: rows header.start ops
    | .special _ | .copy => row :: rows (afterRow row) ops
    | _ => rows row ops

def sequenceRows (sequence : LineSequence) : List Registers :=
  header.rows header.start sequence.ops

end LineHeader

def IsCovered (target : Nat) : List Registers → Prop
  | [] => False
  | first :: rest => first.address ≤ target ∧ ∃ row ∈ rest, target < row.address

instance (target : Nat) : (rows : List Registers) → Decidable (IsCovered target rows)
  | [] => inferInstanceAs (Decidable False)
  | first :: rest =>
    inferInstanceAs (Decidable (first.address ≤ target ∧ ∃ row ∈ rest, target < row.address))

-- The last row before the addresses first exceed the target, in the first sequence that covers it
def LineHeader.lookup (header : LineHeader) (sequences : List LineSequence) (target : Nat)
    : Option Registers := do
  let rows ← (sequences.map header.sequenceRows).find? (IsCovered target ·)
  (rows.takeWhile (·.address ≤ target)).getLast?

end Dwarf
end Claire
