import ClaireCommon.Symbolizer.LineProgram

/-!
This module contains what `Step` does with an encoded operation: it changes the registers as the state
machine does and leaves the program at the next operation.
-/

namespace Claire
namespace Dwarf

open Bytes Traced

structure LineNumberVM.Interprets (env : Env) (vm : LineNumberVM) (header : LineHeader) : Prop where
  version : vm.version = header.version
  minLength : vm.minLength = header.minLength
  defaultIsStmt : vm.defaultIsStmt = decide (header.defaultIsStmt ≠ 0)
  lineBase : vm.lineBase = header.lineBase
  lineRange : vm.lineRange = header.lineRange
  opcodeBase : vm.opcodeBase = header.opcodeBase
  opcodeBase_pos : 0 < header.opcodeBase
  opcodeBase_lt : header.opcodeBase < 2 ^ 8
  lengths : env.Holds vm.standardOpcodeLengths header.standardOpcodeLengths

namespace LineNumberVM

def stepResult : Op → StepResult
  | .endSequence => .end
  | .special _ | .copy => .commit
  | _ => .continue

def stepRegisters (header : LineHeader) (regs : Registers) (op : Op) : Registers :=
  match op with
  | .endSequence => regs
  | .special _ | .copy => LineHeader.afterRow (header.execute regs op)
  | _ => header.execute regs op

variable {env : Env} {vm : LineNumberVM} {header : LineHeader}

theorem readByte_of_holds {byte : UInt8} {bytes : List UInt8} {p : Ptr} {size : Nat}
    (hbytes : env.Holds p (byte :: bytes)) (hsize : 1 < size)
    : (read env 1 ⟨p, size⟩).result = .ok (byte.toNat, ⟨p.add 1, size⟩) := by
  rw [readByte_eq_ok]
  exact ⟨by dsimp only; omega, Or.inr hsize, byte, ⟨hbytes.1, trivial⟩, rfl, rfl⟩

theorem readUint64_of_holds {n : Nat} {bytes : List UInt8} {p : Ptr} {size : Nat}
    (h : IsUint64 n bytes) (hbytes : env.Holds p bytes) (hsize : 1 < size)
    : (readULEB env ⟨p, size⟩).result = .ok (n, ⟨p.add bytes.length, size⟩) := by
  rw [readULEB_of_holds h.leb hbytes hsize, h.value, Nat.mod_eq_of_lt h.lt]

theorem readInt64_of_holds {n : Int} {bytes : List UInt8} {p : Ptr} {size : Nat}
    (h : IsInt64 n bytes) (hbytes : env.Holds p bytes) (hsize : 1 < size)
    : (readSLEB env ⟨p, size⟩).result = .ok (n, ⟨p.add bytes.length, size⟩) := by
  rw [readSLEB_of_holds h.leb hbytes hsize, h.value, int64_of_range h.le h.lt]

theorem skipArguments_of_holds {operands : List (List UInt8)} {p : Ptr} {size : Nat}
    (hoperands : ∀ operand ∈ operands, IsLeb64 operand) (hbytes : env.Holds p operands.flatten)
    (hsize : 1 < size)
    : (skipArguments env ⟨p, size⟩ operands.length).result
        = .ok ⟨p.add operands.flatten.length, size⟩ := by
  induction operands generalizing p with
  | nil => rfl
  | cons operand operands ih =>
    rw [List.flatten_cons] at hbytes
    have ⟨hfirst, hrest⟩ := Env.holds_append.mp hbytes
    have hleb := hoperands operand List.mem_cons_self
    rw [List.length_cons]
    unfold skipArguments
    rw [result_bind_of_ok (readULEB_of_holds hleb hfirst hsize)]
    dsimp only
    rw [ih (fun _ h => hoperands _ (List.mem_cons_of_mem _ h)) hrest]
    rw [Ptr.add_add, List.flatten_cons, List.length_append]

theorem divide_of_ne_zero {a b : Nat} (h : b ≠ 0) : (divide a b).result = .ok (a / b) := by
  unfold divide
  rw [if_neg h]
  rfl

theorem modulo_of_ne_zero {a b : Nat} (h : b ≠ 0) : (modulo a b).result = .ok (a % b) := by
  unfold modulo
  rw [if_neg h]
  rfl

theorem specialOpcode_eq (hvm : vm.Interprets env header) (hrange : header.lineRange ≠ 0)
    (regs : Registers) (opcode : UInt8) (program : StringPiece)
    : (specialOpcode vm regs opcode.toNat program).result
        = .ok (.commit, stepRegisters header regs (.special opcode), program) := by
  have hline : ∀ n : Nat, addSigned regs.line (header.lineBase + n)
      = ((regs.line + header.lineBase + n) % 2 ^ 64).toNat := by
    intro n
    unfold addSigned sizeT
    rw [Int.add_assoc]
  unfold specialOpcode
  rw [hvm.lineRange, result_bind_of_ok (divide_of_ne_zero hrange)]
  dsimp only
  rw [result_bind_of_ok (modulo_of_ne_zero hrange), hvm.opcodeBase, hvm.minLength, hvm.lineBase, hline]
  rfl

theorem standardOpcode_pos {op : Op} {version opcode : Nat}
    (h : op.standardOpcode version = some opcode) : 0 < opcode := by
  cases op <;> by_cases hversion : version = 2
    <;> simp [Op.standardOpcode, hversion, DW_LNS_copy, DW_LNS_advance_pc, DW_LNS_advance_line,
      DW_LNS_set_file, DW_LNS_set_column, DW_LNS_negate_stmt, DW_LNS_set_basic_block,
      DW_LNS_const_add_pc, DW_LNS_fixed_advance_pc, DW_LNS_set_prologue_end,
      DW_LNS_set_epilogue_begin, DW_LNS_set_isa] at h
    <;> omega

theorem standardOpcode_eq (hvm : vm.Interprets env header) (hrange : header.lineRange ≠ 0)
    (regs : Registers) {op : Op} {opcode : Nat} {operands : List UInt8} {p : Ptr} {size : Nat}
    (hop : op.standardOpcode header.version = some opcode) (hoperands : op.Operands operands)
    (hbytes : env.Holds p operands) (hsize : operands.length + 1 < size)
    : (standardOpcode env vm regs opcode ⟨p, size⟩).result
        = .ok (stepResult op, stepRegisters header regs op, ⟨p.add operands.length, size⟩) := by
  have hversion := hvm.version
  cases op with
  | copy =>
    injection hop with hop
    subst hop hoperands
    rfl
  | advancePc n =>
    injection hop with hop
    subst hop
    unfold standardOpcode
    rw [if_neg (by decide), if_pos rfl]
    rw [result_bind_of_ok (readUint64_of_holds hoperands hbytes (by omega)), hvm.minLength]
    dsimp only
    unfold addUnsigned mulUnsigned
    rw [Nat.add_mod_mod]
    rfl
  | advanceLine n =>
    injection hop with hop
    subst hop
    unfold standardOpcode
    rw [if_neg (by decide), if_neg (by decide), if_pos rfl]
    rw [result_bind_of_ok (readInt64_of_holds hoperands hbytes (by omega))]
    rfl
  | setFile n =>
    injection hop with hop
    subst hop
    unfold standardOpcode
    rw [if_neg (by decide), if_neg (by decide), if_neg (by decide), if_pos rfl]
    rw [result_bind_of_ok (readUint64_of_holds hoperands hbytes (by omega))]
    rfl
  | setColumn n =>
    injection hop with hop
    subst hop
    unfold standardOpcode
    iterate 4 rw [if_neg (by decide)]
    rw [if_pos rfl, result_bind_of_ok (readUint64_of_holds hoperands hbytes (by omega))]
    rfl
  | negateStmt =>
    injection hop with hop
    subst hop hoperands
    rfl
  | setBasicBlock =>
    injection hop with hop
    subst hop hoperands
    rfl
  | constAddPc =>
    injection hop with hop
    subst hop hoperands
    unfold standardOpcode
    iterate 7 rw [if_neg (by decide)]
    rw [if_pos rfl, hvm.lineRange, result_bind_of_ok (divide_of_ne_zero hrange), hvm.opcodeBase,
      hvm.minLength]
    rfl
  | fixedAdvancePc n =>
    have ⟨hn, hbytes'⟩ := hoperands
    injection hop with hop
    subst hop hbytes'
    unfold standardOpcode
    iterate 8 rw [if_neg (by decide)]
    rw [length_toLittleEndian] at *
    rw [if_pos rfl, result_bind_of_ok (read_toLittleEndian hbytes hn (by dsimp only; omega))]
    rfl
  | setPrologueEnd =>
    dsimp only [Op.standardOpcode] at hop
    split at hop
    next => contradiction
    next hnot =>
      injection hop with hop
      subst hop hoperands
      unfold standardOpcode
      iterate 9 rw [if_neg (by decide)]
      rw [if_pos ⟨rfl, by rwa [hversion]⟩]
      rfl
  | setEpilogueBegin =>
    dsimp only [Op.standardOpcode] at hop
    split at hop
    next => contradiction
    next hnot =>
      injection hop with hop
      subst hop hoperands
      unfold standardOpcode
      iterate 9 rw [if_neg (by decide)]
      rw [if_neg (by simp [DW_LNS_set_prologue_end, DW_LNS_set_epilogue_begin])]
      rw [if_pos ⟨rfl, by rwa [hversion]⟩]
      rfl
  | setIsa n =>
    dsimp only [Op.standardOpcode] at hop
    split at hop
    next => contradiction
    next hnot =>
      injection hop with hop
      subst hop
      unfold standardOpcode
      iterate 9 rw [if_neg (by decide)]
      rw [if_neg (by simp [DW_LNS_set_prologue_end, DW_LNS_set_isa])]
      rw [if_neg (by simp [DW_LNS_set_epilogue_begin, DW_LNS_set_isa])]
      rw [if_pos ⟨rfl, by rwa [hversion]⟩]
      rw [result_bind_of_ok (readUint64_of_holds hoperands hbytes (by omega))]
      rfl
  | _ => contradiction

theorem standardOpcode_vendor (hvm : vm.Interprets env header) (regs : Registers)
    {opcode arguments : UInt8} {operands : List (List UInt8)} {p : Ptr} {size : Nat}
    (hop : Op.definedOpcodes header.version < opcode.toNat)
    (harguments : header.standardOpcodeLengths[opcode.toNat - 1]? = some arguments)
    (hlength : operands.length = arguments.toNat) (hoperands : ∀ operand ∈ operands, IsLeb64 operand)
    (hbytes : env.Holds p operands.flatten) (hsize : 1 < size)
    : (standardOpcode env vm regs opcode.toNat ⟨p, size⟩).result
        = .ok (.continue, regs, ⟨p.add operands.flatten.length, size⟩) := by
  have hunrecognized : standardOpcode env vm regs opcode.toNat ⟨p, size⟩
      = unrecognizedOpcode env vm regs opcode.toNat ⟨p, size⟩ := by
    have hdefined : ∀ k ≤ 9, opcode.toNat ≠ k := by
      unfold Op.definedOpcodes at hop
      split at hop <;> omega
    have hversion : ∀ k ≤ 12, ¬(opcode.toNat = k ∧ vm.version ≠ 2) := by
      rw [hvm.version]
      unfold Op.definedOpcodes at hop
      split at hop <;> omega
    unfold standardOpcode
    iterate 9 rw [if_neg (hdefined _ (by decide))]
    iterate 3 rw [if_neg (hversion _ (by decide))]
  have hpeek : (env.peek (vm.standardOpcodeLengths.add (opcode.toNat - 1))).result = .ok arguments := by
    rw [Env.peek_eq_ok]
    exact hvm.lengths.getElem? harguments
  rw [hunrecognized]
  unfold unrecognizedOpcode
  rw [result_bind_of_ok hpeek, ← hlength]
  rw [result_bind_of_ok (skipArguments_of_holds hoperands hbytes hsize)]
  rfl

theorem extendedOpcode_eq (regs : Registers) {op : Op} {opcode : UInt8} {length operands : List UInt8}
    {p : Ptr} {size : Nat} (hop : op.extendedOpcode = some opcode.toNat)
    (hlength : IsUint64 (1 + operands.length) length) (hoperands : op.Operands operands)
    (hbytes : env.Holds p (length ++ opcode :: operands))
    (hsize : (length ++ opcode :: operands).length + 1 < size)
    : (extendedOpcode env regs ⟨p, size⟩).result
        = .ok (stepResult op, stepRegisters header regs op,
            ⟨p.add (length ++ opcode :: operands).length, size⟩) := by
  have ⟨hlengthBytes, hrest⟩ := Env.holds_append.mp hbytes
  have hoperandBytes := hrest.2
  rw [Ptr.add_add] at hoperandBytes
  rw [List.length_append, List.length_cons] at *
  have hadd : length.length + (operands.length + 1) = length.length + 1 + operands.length := by omega
  unfold extendedOpcode
  rw [result_bind_of_ok (readUint64_of_holds hlength hlengthBytes (by omega))]
  dsimp only
  rw [result_bind_of_ok (a := ⟨⟩) (Reader.check_eq_ok.mpr (by simp))]
  rw [result_bind_of_ok (readByte_of_holds hrest (by omega)), Ptr.add_add, hadd]
  dsimp only
  rw [Nat.add_sub_cancel_left]
  cases op with
  | endSequence =>
    injection hop with hop
    rw [← hop, if_pos rfl]
    rw [hoperands]
    rfl
  | setAddress n =>
    have ⟨hn, hvalue⟩ := hoperands
    injection hop with hop
    subst hvalue
    rw [length_toLittleEndian] at *
    rw [← hop, if_neg (by decide), if_pos rfl]
    rw [result_bind_of_ok (read_toLittleEndian hoperandBytes hn (by dsimp only; omega)), Ptr.add_add]
    rfl
  | setDiscriminator n =>
    injection hop with hop
    rw [← hop, if_neg (by decide), if_neg (by decide), if_pos rfl]
    rw [result_bind_of_ok (readUint64_of_holds hoperands hoperandBytes (by omega)), Ptr.add_add]
    rfl
  | defineFile entry =>
    injection hop with hop
    rw [← hop, if_neg (by decide), if_neg (by decide), if_neg (by decide)]
    rw [result_bind_of_ok (StringPiece.advance_eq_ok.mpr ⟨Or.inr (by dsimp only; omega), rfl⟩)]
    rw [Ptr.add_add]
    rfl
  | vendorExtended vendor =>
    dsimp only [Op.extendedOpcode] at hop
    split at hop
    next => contradiction
    next hknown =>
      injection hop with hop
      rw [hop] at hknown
      rw [if_neg (by grind [DW_LNE_end_sequence]), if_neg (by grind [DW_LNE_set_address]),
        if_neg (by grind [DW_LNE_set_discriminator])]
      rw [result_bind_of_ok (StringPiece.advance_eq_ok.mpr ⟨Or.inr (by dsimp only; omega), rfl⟩)]
      rw [Ptr.add_add]
      rfl
  | _ => contradiction

theorem step_of_encodes (hvm : vm.Interprets env header) (hrange : header.lineRange ≠ 0)
    (regs : Registers) {op : Op} {bytes : List UInt8} {p : Ptr} {size : Nat}
    (hop : op.Encodes header bytes) (hbytes : env.Holds p bytes) (hsize : bytes.length < size)
    : (step env vm regs ⟨p, size⟩).result
        = .ok (stepResult op, stepRegisters header regs op, ⟨p.add bytes.length, size⟩) := by
  have hbase := hvm.opcodeBase
  unfold step
  cases hop with
  | special h =>
    rw [List.length_singleton] at *
    rw [result_bind_of_ok (readByte_of_holds hbytes (by omega))]
    dsimp only
    rw [if_pos (by omega)]
    exact specialOpcode_eq hvm hrange regs _ _
  | @standard _ opcode operands hop h hoperands =>
    rw [List.length_cons] at *
    rw [result_bind_of_ok (readByte_of_holds hbytes (by omega))]
    dsimp only
    have hpos := standardOpcode_pos hop
    rw [if_neg (by omega), if_pos (by omega)]
    rw [standardOpcode_eq hvm hrange regs hop hoperands hbytes.2 hsize, Ptr.add_add, Nat.add_comm]
  | vendor hop h harguments hlength hoperands =>
    rw [List.length_cons] at *
    rw [result_bind_of_ok (readByte_of_holds hbytes (by omega))]
    dsimp only
    rw [if_neg (by omega), if_pos (by omega)]
    rw [standardOpcode_vendor hvm regs hop harguments hlength hoperands hbytes.2 (by omega)]
    rw [Ptr.add_add, Nat.add_comm]
    rfl
  | extended hop hlength hoperands =>
    rw [List.cons_append] at *
    rw [List.length_cons] at *
    rw [result_bind_of_ok (readByte_of_holds hbytes (by omega))]
    dsimp only
    have hpos := hvm.opcodeBase_pos
    rw [if_neg (by simp; omega), if_neg (by simp)]
    rw [extendedOpcode_eq regs hop hlength hoperands hbytes.2 hsize, Ptr.add_add, Nat.add_comm]

end LineNumberVM
end Dwarf
end Claire
