import ClaireCommon.Logging.Impl.LoggerFiles
import ClaireCommon.Logging.Lemmas.LogFile
import ClaireCommon.Logging.Lemmas.Logger

/-!
This module contains that the logger never has to wait for its files: what it has taken from its buffers
is in them, and on the disk as far as it has been told to flush.
-/

namespace Claire
namespace Logger

variable {s s' : Logger} {labels : List Label} {label : Label}

theorem output_check (s : Logger) (time : List UInt8)
    : (s.check time).output = ((s.call? (.check time)).elim s.output fun call => call.onOneFile s.output) := by
  unfold check call?
  dsimp only
  split
  . next hempty =>
    rw [List.isEmpty_iff.mp hempty]
    rfl
  . split <;> rfl

theorem output_write {i : Nat} (hwriter : s.writer = .writing i)
    : (s.write i).output = ((s.call? .write).elim s.output fun call => call.onOneFile s.output) := by
  unfold write call?
  rw [hwriter]
  dsimp only
  cases s.buffersToWrite[i]? <;> rfl

theorem output_recycle (s : Logger) : s.recycle.output = s.output := by
  unfold recycle
  split
  . rfl
  . split <;> rfl

theorem output_test (s : Logger) : s.test.output = s.output := by
  unfold test
  split
  . split <;> rfl
  . rfl

theorem output_of_stepped (h : Stepped s label s') (hbegin : label ≠ .begin)
    : s'.output = (s.call? label).elim s.output fun call => call.onOneFile s.output := by
  cases h with
  | append happend =>
    rw [append_frame happend]
    rfl
  | begin _ => contradiction
  | test _ => exact output_test s
  | lock _ htake =>
    rw [take_frame htake]
    rfl
  | wake _ htake =>
    rw [take_frame htake]
    rfl
  | check _ time => exact output_check s time
  | write hwriter => exact output_write hwriter
  | recycle _ => exact output_recycle s
  | _ => rfl

theorem hasBegun_of_call {call : LogFile.Call} (h : Stepped s label s') (hcall : s.call? label = some call)
    : s.writer.hasBegun := by
  cases h with
  | check hwriter _ => rw [hwriter]; rfl
  | write hwriter => rw [hwriter]; rfl
  | flush hwriter => rw [hwriter]; rfl
  | finish hwriter => rw [hwriter]; rfl
  | _ => contradiction

theorem hasBegun_test (s : Logger) : s.test.writer.hasBegun := by
  unfold test
  split
  . split <;> rfl
  . rfl

theorem hasBegun_check (s : Logger) (time : List UInt8) : (s.check time).writer.hasBegun := by
  unfold check
  split
  . rfl
  . split <;> rfl

theorem hasBegun_write (s : Logger) (i : Nat) : (s.write i).writer.hasBegun := by
  unfold write
  split <;> rfl

theorem hasBegun_recycle (s : Logger) : s.recycle.writer.hasBegun := by
  unfold recycle
  split
  . rfl
  . split <;> rfl

theorem hasBegun_of_stepped (h : Stepped s label s') (hinv : s.Inv) (hbegin : label ≠ .begin)
    : s'.writer.hasBegun = s.writer.hasBegun := by
  cases h with
  | append happend => rw [append_frame happend]
  | start hidle hrunning =>
    rw [hinv.idle hidle]
    rfl
  | begin _ => contradiction
  | test hwriter => rw [hasBegun_test, hwriter]; rfl
  | wait hwriter => rw [hwriter]; rfl
  | lock hwriter htake => rw [take_frame htake, hwriter]; rfl
  | wake hwriter htake => rw [take_frame htake, hwriter]; rfl
  | check hwriter time => rw [hasBegun_check, hwriter]; rfl
  | write hwriter => rw [hasBegun_write, hwriter]; rfl
  | recycle hwriter => rw [hasBegun_recycle, hwriter]; rfl
  | flush hwriter => rw [hwriter]; rfl
  | finish hwriter => rw [hwriter]; rfl
  | _ => rfl

open LogFile

variable {system : System} {settings : Settings} {link : Option Entry} {others : List (List UInt8 × Nat)}

structure OnFiles.Follows (system : System) (settings : Settings) (link : Option Entry)
    (others : List (List UInt8 × Nat)) (calls : List Call) (s : OnFiles) : Prop where
  output : s.logger.output = oneFile calls
  files : ∀ files, s.files = some files → Rolling.run system settings link others calls = some files
  begun : s.files.isSome = s.logger.writer.hasBegun
  notBegun : s.files = none → calls = []

theorem follows_begin {t : OnFiles} (hstep : t.logger.step .begin = some s')
    (hcreate : ∃ files, Rolling.run system settings link others [] = some files)
    : ∃ files, t.stepFiles system settings link others .begin = some files ∧
        OnFiles.Follows system settings link others [] ⟨s', files⟩ := by
  have ⟨files, hfiles⟩ := hcreate
  have hfiles' : Rolling.create system settings link others = some files := by
    have ⟨files', hcreated, hrun⟩ := Option.bind_eq_some_iff.mp hfiles
    injection hrun with hrun
    rw [hcreated, hrun]
  cases stepped_of_step hstep with
  | begin hwriter =>
    refine ⟨some files, ?_, rfl, ?_, rfl, fun _ => rfl⟩
    . rw [OnFiles.stepFiles, if_pos rfl, hfiles']
      rfl
    . intro files' heq
      injection heq with heq
      rw [← heq, hfiles]

theorem OnFiles.Follows.step {calls : List Call} {t : OnFiles}
    (h : t.Follows system settings link others calls) (hinv : t.logger.Inv)
    (hstep : t.logger.step label = some s') (hbegin : label ≠ .begin)
    (hnext : ∀ call, ∃ files, Rolling.run system settings link others (calls ++ [call]) = some files)
    : ∃ files, t.stepFiles system settings link others label = some files ∧
        OnFiles.Follows system settings link others (calls ++ (t.logger.call? label).toList) ⟨s', files⟩ := by
  have hstepped := stepped_of_step hstep
  have houtput := output_of_stepped hstepped hbegin
  have hbegun := hasBegun_of_stepped hstepped hinv hbegin
  unfold OnFiles.stepFiles
  rw [if_neg hbegin]
  cases hcall : t.logger.call? label with
  | none =>
    rw [hcall] at houtput
    rw [Option.toList_none, List.append_nil]
    exact ⟨t.files, rfl, houtput.trans h.output, h.files, h.begun.trans hbegun.symm, h.notBegun⟩
  | some call =>
    rw [hcall] at houtput
    have hsome := h.begun.trans (hasBegun_of_call hstepped hcall)
    have ⟨files, hfiles⟩ := Option.isSome_iff_exists.mp hsome
    have ⟨files', hfiles'⟩ := hnext call
    have hcalled : files.step system settings call = some files' := by
      have ⟨created, hcreated, hrun⟩ := Option.bind_eq_some_iff.mp hfiles'
      have ⟨before, hbefore, hlast⟩ := Machine.run_concat_eq_some.mp hrun
      have hfiles := h.files files hfiles
      rw [Rolling.run, hcreated, Option.bind_some, hbefore] at hfiles
      injection hfiles with hfiles
      rw [← hfiles, hlast]
    refine ⟨some files', ?_, ?_, ?_, ?_, fun hnone => by contradiction⟩
    . dsimp only
      rw [hfiles, Option.bind_some, hcalled]
      rfl
    . rw [Option.toList_some, oneFile, List.foldl_append]
      exact houtput.trans (congrArg call.onOneFile h.output)
    . intro files'' heq
      injection heq with heq
      rw [Option.toList_some, hfiles', heq]
    . exact hsome.symm.trans (h.begun.trans hbegun.symm)

theorem exists_follows (hworks : system.Works) (hticks : system.Ticks (3 * labels.length + 2))
    (hfresh : Rolling.Fresh system settings (3 * labels.length + 2) link)
    (others : List (List UInt8 × Nat)) (hrun : run labels = some s)
    : ∃ calls files, calls.length ≤ labels.length ∧
        OnFiles.run system settings link others labels = some ⟨s, files⟩ ∧
        OnFiles.Follows system settings link others calls ⟨s, files⟩ := by
  have hexists : ∀ calls : List Call, calls.length ≤ labels.length →
      ∃ files, Rolling.run system settings link others calls = some files := by
    intro calls hlength
    have hle : 3 * calls.length + 2 ≤ 3 * labels.length + 2 := by omega
    have ⟨files, hfiles, _⟩ := Rolling.exists_run hworks hticks hfresh others calls hle
    exact ⟨files, hfiles⟩
  have h := Machine.run_induction (P := fun before s => before.length ≤ labels.length →
    ∃ calls files, calls.length ≤ before.length ∧
      OnFiles.run system settings link others before = some ⟨s, files⟩ ∧
      OnFiles.Follows system settings link others calls ⟨s, files⟩) ?_ ?_ hrun
  . exact h (Nat.le_refl _)
  . intro _
    refine ⟨[], none, Nat.le_refl _, rfl, rfl, ?_, rfl, fun _ => rfl⟩
    intro files heq
    contradiction
  . intro before m label m' hm ih hstep hle
    rw [List.length_append, List.length_singleton] at hle ⊢
    have ⟨calls, files, hlength, honFiles, hfollows⟩ := ih (by omega)
    have hconcat {files'} (h : OnFiles.stepFiles system settings link others ⟨m, files⟩ label = some files')
        : OnFiles.run system settings link others (before ++ [label]) = some ⟨m', files'⟩ := by
      rw [Machine.run_concat_eq_some]
      refine ⟨_, honFiles, ?_⟩
      unfold OnFiles.step
      dsimp only
      rw [hstep, Option.bind_eq_bind, Option.bind_some, h]
      rfl
    by_cases hbegin : label = .begin
    . subst hbegin
      have ⟨files', hfiles', hfollows'⟩ := follows_begin (t := ⟨m, files⟩) hstep (hexists [] (Nat.zero_le _))
      exact ⟨[], files', Nat.zero_le _, hconcat hfiles', hfollows'⟩
    . have ⟨files', hfiles', hfollows'⟩ := hfollows.step (run_inv hm) hstep hbegin fun call =>
        hexists _ (by rw [List.length_append, List.length_singleton]; omega)
      refine ⟨_, files', ?_, hconcat hfiles', hfollows'⟩
      have : (m.call? label).toList.length ≤ 1 := by cases m.call? label <;> simp
      rw [List.length_append]
      dsimp only
      omega

structure Reaches (labels : List Label) (s : Logger) (files : Rolling) : Prop where
  -- What is in the files and what is still in the buffers is what has been appended.
  contents : (files.allParts.filter fun part => !part.deleted).flatMap (fun part => part.file.accepted)
    ++ bytes s.unwritten ++ s.pendingBytes = messages labels
  onDisk : s.output.flushed ≤ files.onDisk
  names : (files.allParts.map Part.name).Pairwise (· < ·)

end Logger
end Claire
