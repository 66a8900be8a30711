import ClaireCommon.Symbolizer.Lemmas.FindAddress

/-!
This module contains where `LineNumberVM::GetFileName` finds the files that a line number program
defines: `NextDefineFile` compares the opcode instead of the extended opcode, so it passes over all of
them.
-/

namespace Claire
namespace Dwarf

open Traced

def Op.definedFile : Op → Option FileEntry
  | .defineFile entry => some entry
  | _ => none

def Op.definedFiles (ops : List Op) : List FileEntry := ops.filterMap definedFile

namespace LineNumberVM

variable {env : Env} {vm : LineNumberVM}

def ReturnsFile (env : Env) (vm : LineNumberVM) (index : Nat) (file : FileEntry) : Prop :=
  ∃ name, StringPiece.Covers env name file.name
    ∧ (getFileName env vm index).result = .ok ⟨name, file.directoryIndex⟩

-- The files of the program follow those of the header.
def DefinedFilesFound (env : Env) (vm : LineNumberVM) (ops : List Op) : Prop :=
  ∀ j file, (Op.definedFiles ops)[j]? = some file → ReturnsFile env vm (vm.fileNameCount + (j + 1)) file

-- Where the extended opcode is read `opcode` is 0.
theorem nextDefineFileRound_eq_inr {program rest : StringPiece} {fn : Option FileName}
    (h : (nextDefineFileRound env vm program).result = .ok (.inr (fn, rest))) : fn = none := by
  unfold nextDefineFileRound at h
  split at h
  . injection h with h
    injection h with h
    injection h with hfn
    rw [hfn]
  . rw [bind_eq_ok] at h
    have ⟨⟨opcode, program⟩, _, h⟩ := h
    dsimp only at h
    split at h
    . simp at h
    . split at h
      . rw [bind_eq_ok] at h
        have ⟨argCount, _, h⟩ := h
        rw [bind_eq_ok] at h
        have ⟨program, _, h⟩ := h
        simp at h
      . next hopcode =>
        have hzero : opcode = 0 := by omega
        subst hzero
        rw [bind_eq_ok] at h
        have ⟨⟨length, program⟩, _, h⟩ := h
        rw [bind_eq_ok] at h
        have ⟨_, _, h⟩ := h
        rw [bind_eq_ok] at h
        have ⟨⟨extendedOpcode, program⟩, _, h⟩ := h
        rw [if_neg (by decide), bind_eq_ok] at h
        have ⟨program, _, h⟩ := h
        simp at h

theorem nextDefineFile_eq_ok {program rest : StringPiece} {fn : Option FileName}
    (h : (nextDefineFile env vm program).result = .ok (fn, rest)) : fn = none := by
  apply @loop_leaves _ _ _ _ _ (nextDefineFileRound env vm) (fun found => found.1 = none) ?_ _ _ _ h
  intro program found hleave
  apply nextDefineFileRound_eq_inr hleave

theorem skipToDefineFile_ne_ok (fn found : FileName) (program : StringPiece) (index : Nat)
    : (skipToDefineFile env vm fn program (index + 1)).result ≠ .ok found := by
  intro h
  unfold skipToDefineFile at h
  rw [bind_eq_ok] at h
  have ⟨⟨next, program⟩, hnext, h⟩ := h
  rw [nextDefineFile_eq_ok hnext] at h
  contradiction

theorem getFileName_ne_ok {index : Nat} (h : vm.fileNameCount < index) (found : FileName)
    : (getFileName env vm index).result ≠ .ok found := by
  intro hfound
  unfold getFileName at hfound
  rw [bind_eq_ok] at hfound
  have ⟨_, _, hfound⟩ := hfound
  dsimp only at hfound
  have hindex : index - vm.fileNameCount = index - vm.fileNameCount - 1 + 1 := by omega
  rw [if_neg (by omega), hindex] at hfound
  apply skipToDefineFile_ne_ok _ _ _ _ hfound

theorem definedFilesFound_iff {data compilationDirectory : StringPiece}
    (hcreate : (create env data compilationDirectory).result = .ok vm)
    : ∃ header, HeaderAt env data.data header
        ∧ (∀ header', HeaderAt env data.data header' → header' = header)
        ∧ ∀ ops program, Op.EncodesAll header ops program →
          env.Holds (data.data.add header.programOffset) program →
          header.programOffset + program.length = header.unitEnd →
          (∀ j file, (Op.definedFiles ops)[j]? = some file →
            ¬ReturnsFile env vm (vm.fileNameCount + (j + 1)) file)
          ∧ (DefinedFilesFound env vm ops ↔ Op.definedFiles ops = []) := by
  have ⟨header, bytes, hencodes, hbytes, _, _⟩ := opened_of_create hcreate
  refine ⟨header, ⟨bytes, hencodes, hbytes⟩, ?_, ?_⟩
  . intro header' ⟨bytes', hencodes', hbytes'⟩
    exact header_unique hencodes' hencodes hbytes' hbytes
  . intro ops program _ _ _
    have hnever : ∀ j file, ¬ReturnsFile env vm (vm.fileNameCount + (j + 1)) file := by
      intro j file ⟨name, _, hfound⟩
      apply getFileName_ne_ok (by omega) _ hfound
    constructor
    . intro j file _
      apply hnever
    . constructor
      . intro hfound
        rw [List.eq_nil_iff_forall_not_mem]
        intro file hfile
        have ⟨j, hj⟩ := List.mem_iff_getElem?.mp hfile
        apply hnever j file (hfound j file hj)
      . intro hnil j file hj
        rw [hnil] at hj
        contradiction

/-! A unit whose program defines the file `g` next to the file `f` of the header. -/

def defineFileHeader : LineHeader := { exampleHeader with unitLength := 37 }

def defineFileOps : List Op := [.defineFile ⟨[0x67], 1⟩]

def defineFileProgram : List UInt8 := [0x00, 0x06, 0x03, 0x67, 0, 0x01, 0x00, 0x00] ++ []

def defineFileUnit : List UInt8 :=
  defineFileHeader.fields ++ ([0x64] ++ [0] ++ [0])
    ++ ([0x66] ++ [0] ++ [0x01] ++ [0x00] ++ [0x00] ++ [0])

def defineFileEnv : Env := .ofSection .debugLine (defineFileUnit ++ defineFileProgram) (by decide)

theorem defineFileHeaderAt : HeaderAt defineFileEnv ⟨.debugLine, 0⟩ defineFileHeader :=
  ⟨defineFileUnit, exampleTables_encodes ⟨by decide, by decide, by decide, by decide, by decide,
    by decide, by decide, by decide, by decide⟩ rfl rfl, by decide⟩

theorem defineFileProgram_encodes
    : Op.EncodesAll defineFileHeader defineFileOps defineFileProgram := by
  have hlength : IsUint64 6 [0x06] := @isUint64_singleton 0x06 (by decide)
  have hfile : FileEntry.Encodes ⟨[0x67], 1⟩ ([0x67] ++ [0] ++ [0x01] ++ [0x00] ++ [0x00]) := by
    apply @FileEntry.encodes_of_lt [0x67] 0x01 <;> decide
  apply Op.EncodesAll.cons
  . exact @Op.Encodes.extended _ _ 0x03 [0x06] _ rfl hlength hfile
  exact .nil

theorem exists_defineFile_vm
    : ∃ vm, (create defineFileEnv ⟨⟨.debugLine, 0⟩, 41⟩ .null).result = .ok vm := by
  have haccepted : (create defineFileEnv ⟨⟨.debugLine, 0⟩, 41⟩ .null).result.toBool = true := by
    decide +kernel
  apply Traced.exists_ok_of_toBool haccepted

theorem not_definedFilesFound_defineFile
    : ∃ vm, (create defineFileEnv ⟨⟨.debugLine, 0⟩, 41⟩ .null).result = .ok vm
        ∧ HeaderAt defineFileEnv ⟨.debugLine, 0⟩ defineFileHeader
        ∧ Op.EncodesAll defineFileHeader defineFileOps defineFileProgram
        ∧ defineFileEnv.Holds ⟨.debugLine, defineFileHeader.programOffset⟩ defineFileProgram
        ∧ defineFileHeader.programOffset + defineFileProgram.length = defineFileHeader.unitEnd
        ∧ ¬DefinedFilesFound defineFileEnv vm defineFileOps := by
  have ⟨vm, hcreate⟩ := exists_defineFile_vm
  refine ⟨vm, hcreate, defineFileHeaderAt, defineFileProgram_encodes, by decide, by decide, ?_⟩
  intro h
  have ⟨name, _, hfound⟩ := h 0 ⟨[0x67], 1⟩ rfl
  apply getFileName_ne_ok (by omega) _ hfound

theorem definedFilesFound_iff_defineFile
    : ∃ vm, (create defineFileEnv ⟨⟨.debugLine, 0⟩, 41⟩ .null).result = .ok vm
        ∧ (DefinedFilesFound defineFileEnv vm defineFileOps ↔ Op.definedFiles defineFileOps = []) := by
  have ⟨vm, hcreate⟩ := exists_defineFile_vm
  have ⟨header, _, hunique, hfound⟩ := definedFilesFound_iff hcreate
  have heq := hunique defineFileHeader defineFileHeaderAt
  subst heq
  refine ⟨vm, hcreate, ?_⟩
  apply (hfound defineFileOps defineFileProgram defineFileProgram_encodes (by decide) (by decide)).2

end LineNumberVM
end Dwarf
end Claire
