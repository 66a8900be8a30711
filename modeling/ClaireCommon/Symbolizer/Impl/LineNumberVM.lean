import ClaireCommon.Symbolizer.Impl.Read

/-!
This module contains the interpreter for the line number programs of `.debug_line`.
-/

namespace Claire
namespace Dwarf

def DW_LNS_copy : Nat := 0x01
def DW_LNS_advance_pc : Nat := 0x02
def DW_LNS_advance_line : Nat := 0x03
def DW_LNS_set_file : Nat := 0x04
def DW_LNS_set_column : Nat := 0x05
def DW_LNS_negate_stmt : Nat := 0x06
def DW_LNS_set_basic_block : Nat := 0x07
def DW_LNS_const_add_pc : Nat := 0x08
def DW_LNS_fixed_advance_pc : Nat := 0x09
def DW_LNS_set_prologue_end : Nat := 0x0a
def DW_LNS_set_epilogue_begin : Nat := 0x0b
def DW_LNS_set_isa : Nat := 0x0c

def DW_LNE_end_sequence : Nat := 0x01
def DW_LNE_set_address : Nat := 0x02
def DW_LNE_define_file : Nat := 0x03
def DW_LNE_set_discriminator : Nat := 0x04

structure Registers where
  address : Nat
  file : Nat
  line : Nat
  column : Nat
  isStmt : Bool
  basicBlock : Bool
  endSequence : Bool
  prologueEnd : Bool
  epilogueBegin : Bool
  isa : Nat
  discriminator : Nat
  deriving DecidableEq, Repr

structure FileName where
  relativeName : StringPiece
  directoryIndex : Nat

structure LineNumberVM where
  is64Bits : Bool
  data : StringPiece
  compilationDirectory : StringPiece
  version : Nat
  minLength : Nat
  defaultIsStmt : Bool
  lineBase : Int
  lineRange : Nat
  opcodeBase : Nat
  standardOpcodeLengths : Ptr
  includeDirectories : StringPiece
  includeDirectoryCount : Nat
  fileNames : StringPiece
  fileNameCount : Nat

inductive StepResult where
  | continue
  | commit
  | end
  deriving DecidableEq, Repr

namespace LineNumberVM

variable (env : Env)

-- `none` where the source returns `false`
def readFileName (program : StringPiece) : Reader (Option FileName × StringPiece) := do
  let (relativeName, program) ← readNullTerminated env program
  if relativeName.isEmpty then
    return (none, program)
  else
    let (directoryIndex, program) ← readULEB env program
    let (_, program) ← readULEB env program
    let (_, program) ← readULEB env program
    return (some ⟨relativeName, directoryIndex⟩, program)

def skipDirectoriesRound (state : Nat × StringPiece)
    : Reader ((Nat × StringPiece) ⊕ (Nat × StringPiece)) := do
  let (count, header) := state
  let (s, header) ← readNullTerminated env header
  return if s.isEmpty then .inr (count, header) else .inl (count + 1, header)

def skipFileNamesRound (state : Nat × StringPiece)
    : Reader ((Nat × StringPiece) ⊕ (Nat × StringPiece)) := do
  let (count, header) := state
  let (fn, header) ← readFileName env header
  return if fn.isNone then .inr (count, header) else .inl (count + 1, header)

-- Records of version 2 and 3 do not have this.
def readMaxOps (header : StringPiece) (version : Nat) : Reader StringPiece := do
  if version = 4 then
    let (maxOpsPerInstruction, header) ← read env 1 header
    Reader.check (maxOpsPerInstruction = 1)
    return header
  else
    return header

def init (data : StringPiece) (is64Bits : Bool) (compilationDirectory : StringPiece)
    : Reader LineNumberVM := do
  let (version, data) ← read env 2 data
  Reader.check (version ≥ 2 ∧ version ≤ 4)
  let (headerLength, data) ← readOffset env data is64Bits
  Reader.check (headerLength ≤ data.size)
  let header : StringPiece := ⟨data.data, headerLength⟩
  let data := StringPiece.assign header.stop data.stop
  let (minLength, header) ← read env 1 header
  let header ← readMaxOps env header version
  let (defaultIsStmt, header) ← read env 1 header
  let (lineBase, header) ← read env 1 header
  let (lineRange, header) ← read env 1 header
  let (opcodeBase, header) ← read env 1 header
  Reader.check (opcodeBase ≠ 0)
  let standardOpcodeLengths := header.data
  let header ← header.advance env (opcodeBase - 1)
  let tmp := header.data
  let (includeDirectoryCount, header) ←
    Traced.loop .stuck (skipDirectoriesRound env) (rounds env header) (0, header)
  let includeDirectories := StringPiece.assign tmp header.data
  let tmp := header.data
  let (fileNameCount, header) ←
    Traced.loop .stuck (skipFileNamesRound env) (rounds env header) (0, header)
  return {
    is64Bits := is64Bits
    data := data
    compilationDirectory := compilationDirectory
    version := version
    minLength := minLength
    defaultIsStmt := defaultIsStmt ≠ 0
    lineBase := (lineBase : Int).bmod (2 ^ 8)
    lineRange := lineRange
    opcodeBase := opcodeBase
    standardOpcodeLengths := standardOpcodeLengths
    includeDirectories := includeDirectories
    includeDirectoryCount := includeDirectoryCount
    fileNames := StringPiece.assign tmp header.data
    fileNameCount := fileNameCount
  }

def create (data compilationDirectory : StringPiece) : Reader LineNumberVM := do
  let (chunk, section_) ← (Section.create data).next env
  match chunk with
  | none => Traced.stop .check
  | some chunk => init env chunk section_.is64Bits compilationDirectory

def reset (vm : LineNumberVM) : Registers where
  address := 0
  file := 1
  line := 1
  column := 0
  isStmt := vm.defaultIsStmt
  basicBlock := false
  endSequence := false
  prologueEnd := false
  epilogueBegin := false
  isa := 0
  discriminator := 0

def skipArguments (program : StringPiece) : Nat → Reader StringPiece
  | 0 => return program
  | argCount + 1 => do
    let (_, program) ← readULEB env program
    skipArguments program argCount

def divide (a b : Nat) : Reader Nat :=
  if b = 0 then Traced.stop .divisionByZero else pure (a / b)

def modulo (a b : Nat) : Reader Nat :=
  if b = 0 then Traced.stop .divisionByZero else pure (a % b)

-- Adding an `int` or `int64_t` to a `uint64_t`
def addSigned (x : Nat) (y : Int) : Nat := (sizeT (x + y)).toNat

def addUnsigned (x y : Nat) : Nat := (x + y) % 2 ^ 64

def mulUnsigned (x y : Nat) : Nat := (x * y) % 2 ^ 64

def commitFlags (regs : Registers) : Registers :=
  { regs with basicBlock := false, prologueEnd := false, epilogueBegin := false, discriminator := 0 }

abbrev Stepped := StepResult × Registers × StringPiece

def specialOpcode (vm : LineNumberVM) (regs : Registers) (opcode : Nat) (program : StringPiece)
    : Reader Stepped := do
  let adjustedOpcode := opcode - vm.opcodeBase
  let opAdvance ← divide adjustedOpcode vm.lineRange
  let address := addUnsigned regs.address (vm.minLength * opAdvance)
  let lineAdvance ← modulo adjustedOpcode vm.lineRange
  let line := addSigned regs.line (vm.lineBase + lineAdvance)
  return (.commit, commitFlags { regs with address := address, line := line }, program)

def unrecognizedOpcode (vm : LineNumberVM) (regs : Registers) (opcode : Nat) (program : StringPiece)
    : Reader Stepped := do
  let argCount ← env.peek (vm.standardOpcodeLengths.add (opcode - 1))
  let program ← skipArguments env program argCount.toNat
  return (.continue, regs, program)

def standardOpcode (vm : LineNumberVM) (regs : Registers) (opcode : Nat) (program : StringPiece)
    : Reader Stepped := do
  if opcode = DW_LNS_copy then
    return (.commit, commitFlags regs, program)
  else if opcode = DW_LNS_advance_pc then
    let (advance, program) ← readULEB env program
    return (.continue,
      { regs with address := addUnsigned regs.address (mulUnsigned vm.minLength advance) }, program)
  else if opcode = DW_LNS_advance_line then
    let (advance, program) ← readSLEB env program
    return (.continue, { regs with line := addSigned regs.line advance }, program)
  else if opcode = DW_LNS_set_file then
    let (file, program) ← readULEB env program
    return (.continue, { regs with file := file }, program)
  else if opcode = DW_LNS_set_column then
    let (column, program) ← readULEB env program
    return (.continue, { regs with column := column }, program)
  else if opcode = DW_LNS_negate_stmt then
    return (.continue, { regs with isStmt := !regs.isStmt }, program)
  else if opcode = DW_LNS_set_basic_block then
    return (.continue, { regs with basicBlock := true }, program)
  else if opcode = DW_LNS_const_add_pc then
    let opAdvance ← divide (255 - vm.opcodeBase) vm.lineRange
    return (.continue,
      { regs with address := addUnsigned regs.address (vm.minLength * opAdvance) }, program)
  else if opcode = DW_LNS_fixed_advance_pc then
    let (advance, program) ← read env 2 program
    return (.continue, { regs with address := addUnsigned regs.address advance }, program)
  else if opcode = DW_LNS_set_prologue_end ∧ vm.version ≠ 2 then
    return (.continue, { regs with prologueEnd := true }, program)
  else if opcode = DW_LNS_set_epilogue_begin ∧ vm.version ≠ 2 then
    return (.continue, { regs with epilogueBegin := true }, program)
  else if opcode = DW_LNS_set_isa ∧ vm.version ≠ 2 then
    let (isa, program) ← readULEB env program
    return (.continue, { regs with isa := isa }, program)
  else
    unrecognizedOpcode env vm regs opcode program

def extendedOpcode (regs : Registers) (program : StringPiece) : Reader Stepped := do
  let (length, program) ← readULEB env program
  Reader.check (length ≠ 0)
  let (extendedOpcode, program) ← read env 1 program
  let length := length - 1
  if extendedOpcode = DW_LNE_end_sequence then
    return (.end, regs, program)
  else if extendedOpcode = DW_LNE_set_address then
    let (address, program) ← read env 8 program
    return (.continue, { regs with address := address }, program)
  else if extendedOpcode = DW_LNE_set_discriminator then
    let (discriminator, program) ← readULEB env program
    return (.continue, { regs with discriminator := discriminator }, program)
  else
    -- This includes `DW_LNE_define_file`.
    let program ← program.advance env length
    return (.continue, regs, program)

def step (vm : LineNumberVM) (regs : Registers) (program : StringPiece) : Reader Stepped := do
  let (opcode, program) ← read env 1 program
  if opcode ≥ vm.opcodeBase then
    specialOpcode vm regs opcode program
  else if opcode ≠ 0 then
    standardOpcode env vm regs opcode program
  else
    extendedOpcode env regs program

def nextRound (vm : LineNumberVM) (state : Registers × StringPiece)
    : Reader ((Registers × StringPiece) ⊕ (Bool × Registers × StringPiece)) := do
  let (ret, regs, program) ← step env vm state.1 state.2
  return match ret with
  | .continue => .inl (regs, program)
  | .commit => .inr (true, regs, program)
  | .end => .inr (false, regs, program)

-- `false` at the end of a sequence
def next (vm : LineNumberVM) (regs : Registers) (program : StringPiece)
    : Reader (Bool × Registers × StringPiece) :=
  Traced.loop .stuck (nextRound env vm) (rounds env program) (regs, program)

def nextDefineFileRound (vm : LineNumberVM) (program : StringPiece)
    : Reader (StringPiece ⊕ (Option FileName × StringPiece)) := do
  if program.isEmpty then
    return .inr (none, program)
  else
    let (opcode, program) ← read env 1 program
    if opcode ≥ vm.opcodeBase then
      return .inl program
    else if opcode ≠ 0 then
      let argCount ← env.peek (vm.standardOpcodeLengths.add (opcode - 1))
      let program ← skipArguments env program argCount.toNat
      return .inl program
    else
      let (length, program) ← readULEB env program
      Reader.check (length ≠ 0)
      let (_, program) ← read env 1 program
      let length := length - 1
      -- It is `opcode` that is compared here, not the extended opcode.
      if opcode = DW_LNE_define_file then
        let (fn, program) ← readFileName env program
        Reader.check fn.isSome
        return .inr (fn, program)
      else
        let program ← program.advance env length
        return .inl program

def nextDefineFile (vm : LineNumberVM) (program : StringPiece)
    : Reader (Option FileName × StringPiece) :=
  Traced.loop .stuck (nextDefineFileRound env vm) (rounds env program) program

-- The last of `index` entries of `fileNames`, `fn` is what `fn` holds before.
def skipToFileName (fn : FileName) (fileNames : StringPiece) : Nat → Reader FileName
  | 0 => return fn
  | index + 1 => do
    match ← readFileName env fileNames with
    | (some fn, fileNames) => skipToFileName fn fileNames index
    | (none, _) => Traced.stop .abort

def skipToDefineFile (vm : LineNumberVM) (fn : FileName) (program : StringPiece)
    : Nat → Reader FileName
  | 0 => return fn
  | index + 1 => do
    match ← nextDefineFile env vm program with
    | (some fn, program) => skipToDefineFile vm fn program index
    | (none, _) => Traced.stop .check

def getFileName (vm : LineNumberVM) (index : Nat) : Reader FileName := do
  env.dcheck (index ≠ 0)
  let fn := ⟨.null, env.uninitialized⟩
  if index ≤ vm.fileNameCount then
    skipToFileName env fn vm.fileNames index
  else
    skipToDefineFile env vm fn vm.data (index - vm.fileNameCount)

def skipToDirectory (dir : StringPiece) (includeDirectories : StringPiece) : Nat → Reader StringPiece
  | 0 => return dir
  | index + 1 => do
    let (dir, includeDirectories) ← readNullTerminated env includeDirectories
    if dir.isEmpty then
      Traced.stop .abort
    else
      skipToDirectory dir includeDirectories index

def getIncludeDirectory (vm : LineNumberVM) (index : Nat) : Reader StringPiece := do
  if index = 0 then
    return .null
  else
    Reader.check (index ≤ vm.includeDirectoryCount)
    skipToDirectory env .null vm.includeDirectories index

inductive SearchState where
  | start
  | lowSeq
  | highSeq
  deriving DecidableEq, Repr

structure Search where
  state : SearchState
  regs : Registers
  prevFile : Nat
  prevLine : Nat
  program : StringPiece

-- What `FindAddress` returns: nothing is written to `file` and `line` where it is `false`.
abbrev Found := Option (Path × Nat)

def found (vm : LineNumberVM) (prevFile prevLine : Nat) : Reader Found := do
  if prevFile = 0 then
    return none
  else
    let fn ← getFileName env vm prevFile
    let dir ← getIncludeDirectory env vm fn.directoryIndex
    let file ← Path.create env vm.compilationDirectory dir fn.relativeName
    return some (file, prevLine)

def enterSequence (state : SearchState) (seqEnd : Bool) (address target : Nat) : SearchState :=
  if state = .start ∧ !seqEnd then
    if address ≤ target then .lowSeq else .highSeq
  else
    state

def findAddressRound (vm : LineNumberVM) (target : Nat) (search : Search)
    : Reader (Search ⊕ Found) := do
  if search.program.isEmpty then
    return .inr none
  else
    let (more, regs, program) ← next env vm search.regs search.program
    let seqEnd := !more
    let state := enterSequence search.state seqEnd regs.address target
    if state = .lowSeq ∧ regs.address > target then
      let result ← found env vm search.prevFile search.prevLine
      return .inr result
    else
      let (prevFile, prevLine) :=
        if state = .lowSeq then (regs.file, regs.line) else (search.prevFile, search.prevLine)
      return .inl {
        state := if seqEnd then .start else state
        regs := if seqEnd then reset vm else regs
        prevFile := prevFile
        prevLine := prevLine
        program := program
      }

def findAddress (vm : LineNumberVM) (target : Nat) : Reader Found :=
  Traced.loop .stuck (findAddressRound env vm target) (rounds env vm.data) {
    state := .start
    regs := reset vm
    prevFile := 0
    prevLine := 0
    program := vm.data
  }

end LineNumberVM
end Dwarf
end Claire
