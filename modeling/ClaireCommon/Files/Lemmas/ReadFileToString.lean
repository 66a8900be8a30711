import ClaireCommon.Files.Impl.FileUtil

/-!
This module contains when `ReadFileToString` returns the whole file or an error: its loop ends at the
first error with the status of it, which is not returned.
-/

namespace Claire
namespace FileUtil

variable {lib : CLibrary} {content data : List UInt8} {file : SequentialFile}

-- No call fails from the call `i` on until the end of the file is seen, `rest` bytes are in front of it.
def CLibrary.ReadsAll (lib : CLibrary) (i rest : Nat) : Prop :=
  ∀ j ≤ rest / spaceSize, lib.freadFails (i + j) = none

theorem CLibrary.readsAll_of_lt {i rest : Nat} (hlt : rest < spaceSize)
    : lib.ReadsAll i rest ↔ lib.freadFails i = none := by
  unfold ReadsAll
  rw [Nat.div_eq_of_lt hlt]
  simp

theorem CLibrary.readsAll_add {i rest : Nat}
    : lib.ReadsAll i (rest + spaceSize) ↔ lib.freadFails i = none ∧ lib.ReadsAll (i + 1) rest := by
  unfold ReadsAll
  rw [Nat.add_div_right rest (by decide)]
  constructor
  . intro h
    refine ⟨h 0 (Nat.zero_le _), ?_⟩
    intro j hj
    have := h (j + 1) (by omega)
    rw [Nat.add_assoc, Nat.add_comm 1]
    exact this
  . intro ⟨hfirst, h⟩ j hj
    cases j with
    | zero => exact hfirst
    | succ j =>
      have := h j (by omega)
      rw [Nat.add_assoc, Nat.add_comm 1] at this
      exact this

theorem read_of_none {n : Nat} (h : lib.freadFails file.freads = none)
    : file.read lib n = (.kOk, file.rest.take n, { file with
        rest := file.rest.drop n, freads := file.freads + 1,
        feof := file.feof || file.rest.length < n }) := by
  unfold SequentialFile.read SequentialFile.fread
  rw [h]
  simp
  omega

theorem readFrom_of_nil {file' : SequentialFile}
    (h : file.read lib spaceSize = (.kOk, [], file')) : readFrom lib file data = (.kOk, data, file') := by
  unfold readFrom
  rw [h]
  simp [Status.isNonzero]

theorem readFrom_of_fragment {fragment : List UInt8} {file' : SequentialFile}
    (h : file.read lib spaceSize = (.kOk, fragment, file')) (hne : fragment ≠ [])
    : readFrom lib file data = readFrom lib file' (data ++ fragment) := by
  rw [readFrom]
  rw [h]
  simp [Status.isNonzero, hne]

-- Behind the end of the file an error is taken for the end.
theorem readFrom_of_feof (hrest : file.rest = []) (hfeof : file.feof = true)
    : (readFrom lib file data).1 = .kOk ∧ (readFrom lib file data).2.1 = data := by
  have hread : file.read lib spaceSize = (.kOk, [], (file.fread lib spaceSize).2) := by
    unfold SequentialFile.read SequentialFile.fread
    simp [hrest, hfeof]
  rw [readFrom_of_nil hread]
  exact ⟨rfl, rfl⟩

theorem readFrom_of_full (hfails : lib.freadFails file.freads = none)
    (hle : spaceSize ≤ file.rest.length)
    : readFrom lib file data = readFrom lib { file with
        rest := file.rest.drop spaceSize, freads := file.freads + 1 } (data ++ file.rest.take spaceSize) := by
  have hpos : 0 < spaceSize := by decide
  have hne : file.rest.take spaceSize ≠ [] := by
    intro hnil
    have hlength := congrArg List.length hnil
    rw [List.length_take, List.length_nil] at hlength
    omega
  have hfeof : (file.feof || decide (file.rest.length < spaceSize)) = file.feof := by
    rw [decide_eq_false (by omega), Bool.or_false]
  rw [readFrom_of_fragment (read_of_none hfails) hne, hfeof]

theorem readFrom_of_readsAll (h : lib.ReadsAll file.freads file.rest.length)
    : (readFrom lib file data).1 = .kOk ∧ (readFrom lib file data).2.1 = data ++ file.rest := by
  induction hlength : file.rest.length using Nat.strongRecOn generalizing file data with
  | ind length ih =>
    rw [hlength] at h
    by_cases hlt : length < spaceSize
    . have hread := read_of_none (n := spaceSize) ((CLibrary.readsAll_of_lt hlt).mp h)
      rw [List.take_of_length_le (by omega), List.drop_of_length_le (by omega)] at hread
      by_cases hempty : file.rest = []
      . rw [hempty] at hread
        rw [readFrom_of_nil hread, hempty, List.append_nil]
        exact ⟨rfl, rfl⟩
      . rw [readFrom_of_fragment hread hempty]
        apply readFrom_of_feof rfl
        simp [hlength, hlt]
    . have hsplit : length = length - spaceSize + spaceSize := by omega
      have hpos : 0 < spaceSize := by decide
      rw [hsplit, CLibrary.readsAll_add] at h
      rw [readFrom_of_full h.1 (by omega)]
      have hrest : (file.rest.drop spaceSize).length = length - spaceSize := by
        rw [List.length_drop, hlength]
      have hih := @ih (length - spaceSize) (by omega) (data ++ file.rest.take spaceSize) { file with
        rest := file.rest.drop spaceSize, freads := file.freads + 1 } (by rw [hrest]; exact h.2) hrest
      dsimp only at hih
      rw [List.append_assoc, List.take_append_drop] at hih
      exact hih

-- The calls that are made for a file of `length` bytes, until its end is seen, succeed.
def CLibrary.ReadsFile (lib : CLibrary) (length : Nat) : Prop :=
  ∀ i ≤ length / 8192, lib.freadFails i = none

theorem CLibrary.readsFile_iff {length : Nat} : lib.ReadsFile length ↔ lib.ReadsAll 0 length := by
  unfold ReadsFile ReadsAll
  simp only [Nat.zero_add]
  rfl

structure ReadsTruth (lib : CLibrary) (content : List UInt8) : Prop where
  kOk_iff : (readFileToString lib content).1 = .kOk ↔
    lib.fopenSucceeds = true ∧ lib.ReadsFile content.length
  data_eq : (readFileToString lib content).1 = .kOk → (readFileToString lib content).2.1 = content

theorem readsTruth_iff
    : ReadsTruth lib content ↔ (lib.fopenSucceeds = true → lib.ReadsFile content.length) := by
  have hopened (hopen : lib.fopenSucceeds = true) : (readFileToString lib content).1 = .kOk ∧
      (readFileToString lib content).2.1 = (readFrom lib (.create content) []).2.1 := by
    unfold readFileToString newSequentialFile
    rw [hopen]
    exact ⟨rfl, rfl⟩
  constructor
  . intro h hopen
    exact (h.kOk_iff.mp (hopened hopen).1).2
  . intro h
    cases hopen : lib.fopenSucceeds with
    | false =>
      have hfailed : (readFileToString lib content).1 = .kIOError := by
        unfold readFileToString newSequentialFile
        rw [hopen]
        rfl
      constructor
      . rw [hfailed, hopen]
        simp
      . rw [hfailed]
        intro hok
        contradiction
    | true =>
      have ⟨hstatus, hdata⟩ := hopened hopen
      constructor
      . rw [hstatus, hopen]
        simp [h hopen]
      . intro _
        rw [hdata, (readFrom_of_readsAll (CLibrary.readsFile_iff.mp (h hopen))).2]
        rfl

def brokenDisk : CLibrary where
  fopenSucceeds := true
  fwriteAccepts _ := 0
  freadFails _ := some 0
  fcloseSucceeds _ := true
  unlinkSucceeds := true

-- The first call fails, and the empty string is returned as the content.
theorem not_readsTruth_brokenDisk
    : (readFileToString brokenDisk [0x61]).1 = .kOk ∧ ¬ReadsTruth brokenDisk [0x61] := by
  have hstatus : (readFileToString brokenDisk [0x61]).1 = .kOk := rfl
  refine ⟨hstatus, ?_⟩
  intro h
  have hnone := (h.kOk_iff.mp hstatus).2 0 (Nat.zero_le _)
  contradiction

end FileUtil
end Claire
