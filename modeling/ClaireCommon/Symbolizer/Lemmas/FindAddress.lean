import ClaireCommon.Symbolizer.Lemmas.LineHeader
import ClaireCommon.Symbolizer.Lemmas.LineProgram
import ClaireCommon.Symbolizer.Lemmas.LineSearch
import ClaireCommon.Symbolizer.Lemmas.Path

/-!
This module contains the correctness of `LineNumberVM::FindAddress`: for an address in the line number
program it finds the file and the line of the row of the address.
-/

namespace Claire
namespace Dwarf
namespace LineNumberVM

open Traced

variable {env : Env} {vm : LineNumberVM} {header : LineHeader} {p : Ptr}

theorem getFileName_of_opened (h : vm.Opened env header p) {index : Nat} {file : FileEntry}
    (hfile : header.file index = some file)
    : ∃ name, StringPiece.Covers env name file.name
        ∧ (getFileName env vm index).result = .ok ⟨name, file.directoryIndex⟩ := by
  cases index with
  | zero => contradiction
  | succ index =>
    have ⟨bytes, htable, hcovers⟩ := h.files
    have hcount := h.fileCount
    have hindex : index < header.fileNames.length := by
      apply (List.getElem?_eq_some_iff.mp hfile).choose
    have ⟨name, hname, hskip⟩ := skipToFileName_of_fileTable htable hcovers.holds
      (Nat.le_of_eq hcovers.size.symm) hcovers.size_lt hfile ⟨.null, env.uninitialized⟩
    refine ⟨name, hname, ?_⟩
    unfold getFileName
    rw [result_bind_of_ok (a := ⟨⟩) (Env.dcheck_eq_ok.mpr (by simp))]
    dsimp only
    rw [if_pos (by omega)]
    exact hskip

theorem getIncludeDirectory_of_opened (h : vm.Opened env header p) {index : Nat} {dir : List UInt8}
    (hdir : header.directory index = some dir)
    : ∃ piece, StringPiece.Covers env piece dir
        ∧ (getIncludeDirectory env vm index).result = .ok piece := by
  unfold getIncludeDirectory
  cases index with
  | zero =>
    injection hdir with hdir
    subst hdir
    exact ⟨.null, ⟨trivial, rfl⟩, rfl⟩
  | succ index =>
    have ⟨bytes, htable, hcovers⟩ := h.directories
    have hcount := h.directoryCount
    have hindex : index < header.includeDirectories.length := by
      apply (List.getElem?_eq_some_iff.mp hdir).choose
    have ⟨piece, hpiece, hskip⟩ := skipToDirectory_of_directoryTable htable hcovers.holds
      (Nat.le_of_eq hcovers.size.symm) hcovers.size_lt hdir .null
    refine ⟨piece, hpiece, ?_⟩
    rw [if_neg (by omega), result_bind_of_ok (a := ⟨⟩) (Reader.check_eq_ok.mpr (by simp; omega))]
    exact hskip

-- The file is made of the compilation directory and of pieces with the names of the header.
structure Finds (env : Env) (result : Except Stop Found) (compilationDirectory : StringPiece)
    (dir name : List UInt8) (line : Nat) : Prop where
  found : ∃ dirPiece namePiece, StringPiece.Covers env dirPiece dir
    ∧ StringPiece.Covers env namePiece name
    ∧ result = (Path.create env compilationDirectory dirPiece namePiece).result.map
        fun path => some (path, line)
  total : Readable env compilationDirectory → ∃ path, result = .ok (some (path, line))

theorem finds_of_opened (h : vm.Opened env header p) {index line : Nat} {file : FileEntry}
    {dir : List UInt8} (hfile : header.file index = some file)
    (hdir : header.directory file.directoryIndex = some dir)
    : Finds env (found env vm index line).result vm.compilationDirectory dir file.name line := by
  have ⟨name, hname, hgetFile⟩ := getFileName_of_opened h hfile
  have ⟨piece, hpiece, hgetDir⟩ := getIncludeDirectory_of_opened h hdir
  have hindex : index ≠ 0 := by
    intro hzero
    subst hzero
    contradiction
  have hresult : (found env vm index line).result
      = (Path.create env vm.compilationDirectory piece name).result.map
          fun path => some (path, line) := by
    unfold found
    rw [if_neg hindex, result_bind_of_ok hgetFile, result_bind_of_ok hgetDir, result_bind]
    cases (Path.create env vm.compilationDirectory piece name).result <;> rfl
  constructor
  . exact ⟨piece, name, hpiece, hname, hresult⟩
  . intro hreadable
    have ⟨path, hpath⟩ := Path.create_ok hreadable ⟨dir, hpiece⟩ ⟨file.name, hname⟩
    refine ⟨path, ?_⟩
    rw [hresult, hpath]
    rfl

theorem findAddress_of_lookup (h : vm.Opened env header p) (hrange : header.lineRange ≠ 0)
    {sequences : List LineSequence} {program : List UInt8} {target : Nat}
    (hprogram : Op.EncodesAll header (sequences.flatMap LineSequence.ops) program)
    (hholds : env.Holds (p.add header.programOffset) program)
    (hend : header.programOffset + program.length = header.unitEnd)
    (hcovered : ∃ sequence ∈ sequences, IsCovered target (header.sequenceRows sequence))
    : ∃ row, header.lookup sequences target = some row
        ∧ (vm.findAddress env target).result = (found env vm row.file row.line).result := by
  have ⟨row, hlookup, hsearch⟩ := @searchRows_of_lookup header target 0 0 sequences hcovered
  have hsize : program.length < header.unitLength - header.headerLength := by
    unfold LineHeader.programOffset LineHeader.unitEnd at hend
    omega
  have hstart : header.start.endSequence = false := rfl
  have hyields := yields_of_encodesAll h.interprets hrange hprogram hstart hholds hsize
  have hlen := hyields.length_le
  refine ⟨row, hlookup, ?_⟩
  unfold findAddress
  rw [h.data, reset_eq_start h.interprets]
  apply loop_findAddressRound_of_yields hyields (by omega) hsearch
  unfold rounds
  simp only [Ptr.block_add] at hlen ⊢
  omega

def HeaderAt (env : Env) (p : Ptr) (header : LineHeader) : Prop :=
  ∃ bytes, header.Encodes bytes ∧ env.Holds p bytes

theorem addressesFound {data compilationDirectory : StringPiece}
    (hcreate : (create env data compilationDirectory).result = .ok vm)
    : ∃ header, HeaderAt env data.data header
        ∧ (∀ header', HeaderAt env data.data header' → header' = header)
        ∧ (header.lineRange ≠ 0 → ∀ sequences program target,
          Op.EncodesAll header (sequences.flatMap LineSequence.ops) program →
          env.Holds (data.data.add header.programOffset) program →
          header.programOffset + program.length = header.unitEnd →
          (∃ sequence ∈ sequences, IsCovered target (header.sequenceRows sequence)) →
          ∃ row, header.lookup sequences target = some row ∧ ∀ file dir,
            header.file row.file = some file → header.directory file.directoryIndex = some dir →
            Finds env (vm.findAddress env target).result compilationDirectory dir file.name
              row.line) := by
  have ⟨header, bytes, hencodes, hbytes, hopened, hdirectory⟩ := opened_of_create hcreate
  refine ⟨header, ⟨bytes, hencodes, hbytes⟩, ?_, ?_⟩
  . intro header' ⟨bytes', hencodes', hbytes'⟩
    exact header_unique hencodes' hencodes hbytes' hbytes
  . intro hrange sequences program target hprogram hholds hend hcovered
    have ⟨row, hlookup, hfind⟩ := findAddress_of_lookup hopened hrange hprogram hholds hend hcovered
    refine ⟨row, hlookup, ?_⟩
    intro file dir hfile hdir
    rw [hfind, ← hdirectory]
    exact finds_of_opened hopened hfile hdir

/-! A unit of version 2 with the directory `d`, its file `f` and a program of one sequence. -/

def exampleHeader : LineHeader where
  is64Bits := false
  unitLength := 47
  version := 2
  headerLength := 23
  minLength := 1
  defaultIsStmt := 1
  lineBase := -5
  lineRange := 14
  opcodeBase := 10
  standardOpcodeLengths := [0, 1, 1, 1, 1, 0, 0, 0, 1]
  includeDirectories := [[0x64]]
  fileNames := [⟨[0x66], 1⟩]

def exampleSequence : LineSequence where
  body := [.setAddress 0x10, .copy, .special 75, .advancePc 4]
  unended := by decide

def exampleProgram : List UInt8 :=
  [0x00, 0x09, 0x02, 0x10, 0, 0, 0, 0, 0, 0, 0] ++ ([0x01] ++ ([75] ++ ([0x02, 0x04]
    ++ ([0x00, 0x01, 0x01] ++ []))))

def exampleUnit : List UInt8 :=
  exampleHeader.fields ++ ([0x64] ++ [0] ++ [0])
    ++ ([0x66] ++ [0] ++ [0x01] ++ [0x00] ++ [0x00] ++ [0])

def exampleEnv : Env := .ofSection .debugLine (exampleUnit ++ exampleProgram) (by decide)

theorem exampleTables_encodes {header : LineHeader} (hwellFormed : header.WellFormed)
    (hdirs : header.includeDirectories = [[0x64]]) (hfiles : header.fileNames = [⟨[0x66], 1⟩])
    : header.Encodes (header.fields ++ ([0x64] ++ [0] ++ [0])
        ++ ([0x66] ++ [0] ++ [0x01] ++ [0x00] ++ [0x00] ++ [0])) := by
  have hfile : FileEntry.Encodes ⟨[0x66], 1⟩ ([0x66] ++ [0] ++ [0x01] ++ [0x00] ++ [0x00]) := by
    apply @FileEntry.encodes_of_lt [0x66] 0x01 <;> decide
  apply LineHeader.Encodes.mk hwellFormed
  . rw [hdirs]
    exact .cons (by decide) (by decide) .nil
  . rw [hfiles]
    exact .cons hfile .nil

theorem exampleHeader_encodes : exampleHeader.Encodes exampleUnit :=
  exampleTables_encodes ⟨by decide, by decide, by decide, by decide, by decide, by decide, by decide,
    by decide, by decide⟩ rfl rfl

theorem exampleProgram_encodes : Op.EncodesAll exampleHeader exampleSequence.ops exampleProgram := by
  apply Op.EncodesAll.cons
  . exact @Op.Encodes.extended _ _ 0x02 [0x09] [0x10, 0, 0, 0, 0, 0, 0, 0] rfl
      (@isUint64_singleton 0x09 (by decide)) ⟨by decide, rfl⟩
  apply Op.EncodesAll.cons
  . exact @Op.Encodes.standard _ _ 0x01 [] rfl (by decide) rfl
  apply Op.EncodesAll.cons
  . exact .special (by decide)
  apply Op.EncodesAll.cons
  . exact @Op.Encodes.standard _ _ 0x02 [0x04] rfl (by decide) (@isUint64_singleton 0x04 (by decide))
  apply Op.EncodesAll.cons
  . exact @Op.Encodes.extended _ _ 0x01 [0x01] [] rfl (@isUint64_singleton 0x01 (by decide)) rfl
  exact .nil

theorem addressesFound_example
    : ∃ vm path, (create exampleEnv ⟨⟨.debugLine, 0⟩, 51⟩ .null).result = .ok vm
        ∧ (vm.findAddress exampleEnv 0x15).result = .ok (some (path, 5)) := by
  have haccepted : (create exampleEnv ⟨⟨.debugLine, 0⟩, 51⟩ .null).result.toBool = true := by
    decide +kernel
  have ⟨vm, hcreate⟩ := Traced.exists_ok_of_toBool haccepted
  have ⟨header, _, hunique, hfound⟩ := addressesFound hcreate
  have heq := hunique exampleHeader ⟨exampleUnit, exampleHeader_encodes, by decide⟩
  subst heq
  have ⟨row, hlookup, hrow⟩ := hfound (by decide) [exampleSequence] exampleProgram 0x15
    (by simpa using exampleProgram_encodes) (by decide) (by decide) (by decide)
  have hrowFile : (exampleHeader.lookup [exampleSequence] 0x15).map (·.file) = some 1 := by decide
  have hrowLine : (exampleHeader.lookup [exampleSequence] 0x15).map (·.line) = some 5 := by decide
  rw [hlookup] at hrowFile hrowLine
  injection hrowFile with hrowFile
  injection hrowLine with hrowLine
  dsimp only at hrowFile hrowLine
  have ⟨path, hpath⟩ := (hrow ⟨[0x66], 1⟩ [0x64] (by rw [hrowFile]; rfl) rfl).total readable_null
  rw [hrowLine] at hpath
  exact ⟨vm, path, hcreate, hpath⟩

end LineNumberVM
end Dwarf
end Claire
