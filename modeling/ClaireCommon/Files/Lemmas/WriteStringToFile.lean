import Mathlib.Algebra.GroupWithZero.Nat
import ClaireCommon.Files.Impl.FileUtil

/-!
This module contains when `WriteStringToFile` reports the truth: it closes the stream itself where
`Append` has failed, not where it has succeeded, and believes what that close returns.
-/

namespace Claire
namespace FileUtil

variable {lib : CLibrary} {data : List UInt8}

-- From the call `j` on some calls accept `rest` bytes, and none of them accepts nothing.
def CLibrary.AcceptsFrom (lib : CLibrary) (j rest : Nat) : Prop :=
  ∃ m, rest ≤ ((List.range m).map fun i => lib.fwriteAccepts (j + i)).sum ∧
    ∀ i < m, lib.fwriteAccepts (j + i) ≠ 0

-- The first call may accept nothing, it is repeated.
def CLibrary.AcceptsAll (lib : CLibrary) (length : Nat) : Prop :=
  lib.AcceptsFrom 1 (length - lib.fwriteAccepts 0)

theorem CLibrary.acceptsFrom_zero {j : Nat} : lib.AcceptsFrom j 0 := by
  refine ⟨0, Nat.zero_le _, ?_⟩
  intro i hi
  contradiction

theorem CLibrary.sum_range_succ (j m : Nat)
    : ((List.range (m + 1)).map fun i => lib.fwriteAccepts (j + i)).sum
        = lib.fwriteAccepts j + ((List.range m).map fun i => lib.fwriteAccepts (j + 1 + i)).sum := by
  rw [List.range_succ_eq_map, List.map_cons, List.sum_cons, List.map_map]
  congr 3
  funext i
  rw [Function.comp_apply, Nat.succ_eq_add_one, Nat.add_comm i, ← Nat.add_assoc]

theorem CLibrary.acceptsFrom_iff {j rest : Nat} (hrest : 0 < rest)
    : lib.AcceptsFrom j rest ↔ lib.fwriteAccepts j ≠ 0 ∧
        lib.AcceptsFrom (j + 1) (rest - lib.fwriteAccepts j) := by
  constructor
  . intro ⟨m, hsum, hne⟩
    cases m with
    | zero => simp at hsum; omega
    | succ m =>
      rw [sum_range_succ] at hsum
      refine ⟨hne 0 (Nat.zero_lt_succ m), m, by omega, ?_⟩
      intro i hi
      have := hne (i + 1) (by omega)
      rw [Nat.add_assoc, Nat.add_comm 1]
      exact this
  . intro ⟨hfirst, m, hsum, hne⟩
    refine ⟨m + 1, ?_, ?_⟩
    . rw [sum_range_succ]
      omega
    . intro i hi
      cases i with
      | zero => exact hfirst
      | succ i =>
        have := hne i (by omega)
        rw [Nat.add_assoc, Nat.add_comm 1] at this
        exact this

namespace WritableFile

variable {file : WritableFile} {n : Nat}

theorem fwrite_eq {x : Nat} {file' : WritableFile} (h : file.fwrite lib data = (x, file'))
    : x = min (lib.fwriteAccepts file.fwrites) data.length ∧ file' = { file with
        accepted := file.accepted ++ data.take x, fwrites := file.fwrites + 1 } := by
  injection h with hx hfile
  rw [← hfile, ← hx]
  exact ⟨rfl, rfl⟩

theorem appendFrom_eq_kOk
    : (file.appendFrom lib data n).1 = .kOk ↔ lib.AcceptsFrom file.fwrites (data.length - n) := by
  fun_induction appendFrom lib file data n with
  | case1 file n hlt file' hfwrite =>
    have ⟨hx, _⟩ := fwrite_eq hfwrite
    rw [List.length_drop] at hx
    rw [CLibrary.acceptsFrom_iff (by omega)]
    constructor
    . intro h
      contradiction
    . intro ⟨haccepts, _⟩
      omega
  | case2 file n hlt x file' hfwrite hx ih =>
    have ⟨hmin, hfile⟩ := fwrite_eq hfwrite
    rw [List.length_drop] at hmin
    have hrest : data.length - (n + x) = data.length - n - lib.fwriteAccepts file.fwrites := by omega
    rw [ih, CLibrary.acceptsFrom_iff (j := file.fwrites) (by omega), hfile, hrest]
    constructor
    . intro h
      exact ⟨by omega, h⟩
    . intro h
      exact h.2
  | case3 file n hge =>
    have hrest : data.length - n = 0 := by omega
    rw [hrest]
    simp [CLibrary.acceptsFrom_zero]

theorem accepted_appendFrom (haccepted : file.accepted = data.take n)
    (hok : (file.appendFrom lib data n).1 = .kOk) : (file.appendFrom lib data n).2.accepted = data := by
  fun_induction appendFrom lib file data n with
  | case1 => contradiction
  | case2 file n hlt x file' hfwrite hx ih =>
    apply ih _ hok
    have ⟨_, hfile⟩ := fwrite_eq hfwrite
    rw [hfile, haccepted, List.take_add]
  | case3 file n hge =>
    dsimp only
    rw [haccepted, List.take_of_length_le (by omega)]

theorem fcloses_appendFrom : (file.appendFrom lib data n).2.fcloses = file.fcloses := by
  fun_induction appendFrom lib file data n with
  | case1 file n hlt file' hfwrite =>
    dsimp only
    rw [(fwrite_eq hfwrite).2]
  | case2 file n hlt x file' hfwrite hx ih => rw [ih, (fwrite_eq hfwrite).2]
  | case3 => rfl

theorem append_eq_kOk : (create.append lib data).1 = .kOk ↔ lib.AcceptsAll data.length := by
  unfold append
  cases hfwrite : create.fwrite lib data with
  | mk n file =>
    have ⟨hn, hfile⟩ := fwrite_eq hfwrite
    dsimp only
    have hrest : data.length - n = data.length - lib.fwriteAccepts 0 := by
      have hzero : create.fwrites = 0 := rfl
      rw [hzero] at hn
      omega
    rw [appendFrom_eq_kOk, hrest, hfile]
    rfl

theorem accepted_append (hok : (create.append lib data).1 = .kOk)
    : (create.append lib data).2.accepted = data := by
  unfold append at hok ⊢
  cases hfwrite : create.fwrite lib data with
  | mk n file =>
    rw [hfwrite] at hok
    apply accepted_appendFrom _ hok
    rw [(fwrite_eq hfwrite).2]
    rfl

theorem fcloses_append : (create.append lib data).2.fcloses = [] := by
  unfold append
  cases hfwrite : create.fwrite lib data with
  | mk n file =>
    dsimp only
    rw [fcloses_appendFrom, (fwrite_eq hfwrite).2]
    rfl

end WritableFile

-- `written` is what became of the file, where it was created.
structure Truthful (data : List UInt8) (status : Status) (written : Option Written) : Prop where
  kOk : status = .kOk → ∃ w, written = some w ∧ w.file.accepted = data ∧
    w.file.fcloses.getLast? = some true
  cleansUp : ∀ w, written = some w → status ≠ .kOk → w.deleted = true
  closesOnce : ∀ w, written = some w → w.file.fcloses.length = 1

def ReportsTruth (lib : CLibrary) (data : List UInt8) : Prop :=
  Truthful data (writeStringToFile lib data).1 (writeStringToFile lib data).2

theorem writeStringToFile_of_fopen_fails (h : lib.fopenSucceeds = false)
    : writeStringToFile lib data = (.kIOError, none) := by
  unfold writeStringToFile newWritableFile
  rw [h]
  rfl

theorem writeStringToFile_of_accepts (hopen : lib.fopenSucceeds = true)
    (hok : (WritableFile.create.append lib data).1 = .kOk)
    : writeStringToFile lib data = (.kOk, some
        ⟨{ (WritableFile.create.append lib data).2 with fcloses := [lib.fcloseSucceeds 0] }, false⟩) := by
  have hfcloses := @WritableFile.fcloses_append lib data
  unfold writeStringToFile newWritableFile
  rw [hopen]
  cases happend : WritableFile.create.append lib data with
  | mk s file =>
    rw [happend] at hok hfcloses
    dsimp only at hok hfcloses
    subst hok
    simp [happend, Status.isNonzero, WritableFile.destroy, WritableFile.fclose, hfcloses]

-- The stream is closed twice.
theorem fcloses_of_not_accepts (hopen : lib.fopenSucceeds = true)
    (herror : (WritableFile.create.append lib data).1 ≠ .kOk)
    : ∃ w, (writeStringToFile lib data).2 = some w ∧ w.file.fcloses.length = 2 := by
  have hfcloses := @WritableFile.fcloses_append lib data
  unfold writeStringToFile newWritableFile
  rw [hopen]
  cases happend : WritableFile.create.append lib data with
  | mk s file =>
    rw [happend] at herror hfcloses
    dsimp only at herror hfcloses
    have hnonzero : s.isNonzero = true := by
      unfold Status.isNonzero
      exact decide_eq_true herror
    simp only [happend, hnonzero, ↓reduceIte]
    refine ⟨_, rfl, ?_⟩
    unfold WritableFile.close
    dsimp only
    split
    . simp [WritableFile.destroy, WritableFile.fclose, hfcloses]
    . simp [WritableFile.destroy, WritableFile.fclose, hfcloses]

theorem reportsTruth_iff
    : ReportsTruth lib data ↔
        (lib.fopenSucceeds = true → lib.AcceptsAll data.length ∧ lib.fcloseSucceeds 0 = true) := by
  unfold ReportsTruth
  rw [← WritableFile.append_eq_kOk]
  cases hopen : lib.fopenSucceeds with
  | false =>
    rw [writeStringToFile_of_fopen_fails hopen]
    constructor
    . intro _ h
      contradiction
    . intro _
      constructor
      . intro h
        contradiction
      . intro w h
        contradiction
      . intro w h
        contradiction
  | true =>
    by_cases hok : (WritableFile.create.append lib data).1 = .kOk
    . rw [writeStringToFile_of_accepts hopen hok]
      constructor
      . intro h _
        have ⟨w, hw, _, hlast⟩ := h.kOk rfl
        injection hw with hw
        rw [← hw] at hlast
        exact ⟨hok, by simpa using hlast⟩
      . intro h
        have hclose := (h rfl).2
        constructor
        . intro _
          refine ⟨_, rfl, WritableFile.accepted_append hok, ?_⟩
          rw [hclose]
          rfl
        . intro w _ hne
          contradiction
        . intro w hw
          injection hw with hw
          rw [← hw]
          rfl
    . constructor
      . intro h
        have ⟨w, hw, hlength⟩ := fcloses_of_not_accepts hopen hok
        have hone := h.closesOnce w hw
        omega
      . intro h
        exact absurd (h rfl).1 hok

def fullDisk : CLibrary where
  fopenSucceeds := true
  fwriteAccepts _ := 0
  freadFails _ := none
  fcloseSucceeds _ := true
  unlinkSucceeds := true

-- No byte was accepted, and yet the status is `kOk`.
theorem not_reportsTruth_fullDisk
    : (writeStringToFile fullDisk [0x61]).1 = .kOk ∧ ¬ReportsTruth fullDisk [0x61] := by
  have hstatus : (writeStringToFile fullDisk [0x61]).1 = .kOk := by
    simp [writeStringToFile, newWritableFile, fullDisk, WritableFile.append, WritableFile.fwrite,
      WritableFile.appendFrom, WritableFile.close, WritableFile.fclose, Status.isNonzero]
  refine ⟨hstatus, ?_⟩
  intro h
  have ⟨w, hw, hlength⟩ := @fcloses_of_not_accepts fullDisk [0x61] rfl (by
    rw [ne_eq, WritableFile.append_eq_kOk, CLibrary.AcceptsAll, CLibrary.acceptsFrom_iff (by decide)]
    simp [fullDisk])
  have hone := h.closesOnce w hw
  omega

end FileUtil
end Claire
