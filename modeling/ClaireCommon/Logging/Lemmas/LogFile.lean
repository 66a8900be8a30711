import ClaireCommon.Logging.Impl.LogFile
import ClaireCommon.Time.Lemmas.Timestamp

/-!
This module contains that the log file keeps all messages in order and in whole, whenever it is rolled,
and that a file which it deletes is an empty one. For whoever appends and flushes it is one file.
-/

namespace Claire

namespace FileUtil
namespace WritableFile

variable {lib : CLibrary}

theorem appendFrom_of_accepts (haccepts : ∀ k, 0 < lib.fwriteAccepts k) (file : WritableFile)
    {data : List UInt8} {n : Nat} (hn : n ≤ data.length)
    : (file.appendFrom lib data n).2.accepted = file.accepted ++ data.drop n
        ∧ (file.appendFrom lib data n).2.fcloses = file.fcloses := by
  fun_induction appendFrom lib file data n with
  | case1 file n hlt file' hfwrite =>
    have hx := congrArg Prod.fst hfwrite
    have := haccepts file.fwrites
    simp only [fwrite, List.length_drop] at hx
    omega
  | case2 file n hlt x file' hfwrite hx ih =>
    simp only [fwrite, Prod.mk.injEq, List.length_drop] at hfwrite
    have ⟨haccepted, hfcloses⟩ := ih (by omega)
    rw [haccepted, hfcloses, ← hfwrite.2]
    refine ⟨?_, rfl⟩
    dsimp only
    rw [hfwrite.1, List.append_assoc, ← List.drop_drop, List.take_append_drop]
  | case3 file n hge =>
    have heq : n = data.length := by omega
    simp [heq]

theorem append_of_accepts (haccepts : ∀ k, 0 < lib.fwriteAccepts k) (file : WritableFile)
    (data : List UInt8)
    : (file.append lib data).2.accepted = file.accepted ++ data
        ∧ (file.append lib data).2.fcloses = file.fcloses := by
  have hle : (file.fwrite lib data).1 ≤ data.length := Nat.min_le_right (lib.fwriteAccepts file.fwrites) _
  have ⟨haccepted, hfcloses⟩ := appendFrom_of_accepts haccepts (file.fwrite lib data).2 hle
  refine ⟨haccepted.trans ?_, hfcloses⟩
  dsimp only [fwrite]
  rw [List.append_assoc, List.take_append_drop]

end WritableFile
end FileUtil

namespace LogFile

variable {system : System} {settings : Settings}

theorem Settings.getLogFileName_lt (settings : Settings) {t u : Int} (ht : Timestamp.InTexts t)
    (hu : Timestamp.InTexts u) (h : t < u) : settings.getLogFileName t < settings.getLogFileName u := by
  have hlt := Timestamp.toFormattedString_lt ht hu h
  have hlength := (Timestamp.length_toFormattedString ht).trans (Timestamp.length_toFormattedString hu).symm
  simp only [Settings.getLogFileName, List.append_assoc]
  iterate 3 apply List.append_left_lt
  exact FixedWidth.append_lt_of_lt hlength hlt _ _

-- The clock goes on between two of the first `limit` readings, and it stands within the years of four
-- digits.
structure System.Ticks (system : System) (limit : Nat) : Prop where
  inTexts : ∀ n < limit, Timestamp.InTexts (system.clock n)
  first : Timestamp.kMicroSecondsPerSecond ≤ system.clock 0
  lt : ∀ n, n + 1 < limit → system.clock n < system.clock (n + 1)

structure System.Works (system : System) : Prop where
  fopen : ∀ n, (system.lib n).fopenSucceeds
  accepts : ∀ n k, 0 < (system.lib n).fwriteAccepts k
  fclose : ∀ n k, (system.lib n).fcloseSucceeds k
  fflush : ∀ n, system.fflushSucceeds n

variable {limit : Nat}

theorem System.Ticks.lt_of_lt (h : system.Ticks limit) {n m : Nat} (hlt : n < m) (hm : m < limit)
    : system.clock n < system.clock m := by
  induction hlt with
  | refl => exact h.lt n hm
  | step _ ih => exact Int.lt_trans (ih (Nat.lt_of_succ_lt hm)) (h.lt _ hm)

def nameAt (system : System) (settings : Settings) (n : Nat) : List UInt8 :=
  settings.getLogFileName (system.clock n)

theorem System.Ticks.nameAt_lt (h : system.Ticks limit) {n m : Nat} (hlt : n < m) (hm : m < limit)
    : nameAt system settings n < nameAt system settings m :=
  settings.getLogFileName_lt (h.inTexts n (Nat.lt_trans hlt hm)) (h.inTexts m hm) (h.lt_of_lt hlt hm)

namespace Rolling

variable {s s' : Rolling} {messages : List (List UInt8)}

-- The files before the `n`-th reading of the clock hold the messages, and those that are closed do so
-- on the disk.
structure Good (system : System) (settings : Settings) (n : Nat) (messages : List (List UInt8))
    (s : Rolling) : Prop where
  groups : ∃ groups : List (List (List UInt8)), groups.flatten = messages ∧
    s.allParts.map (fun part => part.file.accepted) = groups.map List.flatten
  closed : ∀ part ∈ s.parts, part.flushed = part.file.accepted.length
  deleted : ∀ part ∈ s.parts, part.deleted → part.file.accepted = []
  flushed : ∀ part, s.file = some part → part.flushed ≤ part.file.accepted.length
  kept : ∀ part, s.file = some part → part.deleted = false
  names : (s.allParts.map Part.name).Pairwise (· < ·)
  older : ∀ part ∈ s.allParts, ∃ k < n, part.name = nameAt system settings k

variable {n m : Nat}

theorem Good.mono (h : Good system settings n messages s) (hle : n ≤ m)
    : Good system settings m messages s :=
  { h with
    older := by
      intro part hpart
      have ⟨k, hk, hname⟩ := h.older part hpart
      exact ⟨k, Nat.lt_of_lt_of_le hk hle, hname⟩ }

theorem Good.setFile (h : Good system settings n messages s) {part : Part} (hfile : s.file = some part)
    (part' : Part) (hname : part'.name = part.name)
    (hdeleted : part'.deleted = part.deleted) {data : List (List UInt8)}
    (haccepted : part'.file.accepted = part.file.accepted ++ data.flatten)
    (hflushed : part'.flushed ≤ part'.file.accepted.length)
    (hs : s' = { s' with parts := s.parts, file := some part' })
    : Good system settings n (messages ++ data) s' := by
  have hnames : s'.allParts.map Part.name = s.allParts.map Part.name := by
    rw [hs, allParts, allParts, hfile]
    simp [hname]
  constructor
  . have ⟨groups, hmessages, hgroups⟩ := h.groups
    rw [allParts, hfile, Option.toList_some, List.map_append, List.map_singleton] at hgroups
    have ⟨before, last, hsplit, hbefore, hlast⟩ := List.append_eq_map_iff.mp hgroups
    have ⟨group, hgroup, heq⟩ := List.map_eq_singleton_iff.mp hlast
    refine ⟨before ++ [group ++ data], ?_, ?_⟩
    . rw [← hmessages, hsplit, hgroup]
      simp
    . rw [hs, allParts, Option.toList_some, List.map_append, ← hbefore, List.map_singleton, haccepted,
        ← heq]
      simp
  . rw [hs]
    exact h.closed
  . rw [hs]
    exact h.deleted
  . rw [hs]
    intro part'' hpart
    injection hpart with hpart
    exact hpart ▸ hflushed
  . rw [hs]
    intro part'' hpart
    injection hpart with hpart
    rw [← hpart, hdeleted]
    exact h.kept part hfile
  . rw [hnames]
    exact h.names
  . intro part'' hpart
    have hmem : part''.name ∈ s'.allParts.map Part.name := List.mem_map_of_mem hpart
    rw [hnames, List.mem_map] at hmem
    have ⟨old, hold, heq⟩ := hmem
    rw [← heq]
    exact h.older old hold

theorem accepted_close (lib : FileUtil.CLibrary) (part : Part)
    : (part.close lib).file.accepted = part.file.accepted := rfl

theorem flushed_close {lib : FileUtil.CLibrary} (hfclose : ∀ k, lib.fcloseSucceeds k) (part : Part)
    : (part.close lib).flushed = part.file.accepted.length := by
  simp [Part.close, Part.flush, FileUtil.WritableFile.fclose, hfclose]

theorem Good.openFile (hworks : system.Works) (hticks : system.Ticks limit) (hm : m < limit)
    (h : Good system settings n messages s) (hle : n ≤ m)
    (hopen : s.openFile system (nameAt system settings m) = some s')
    : Good system settings (m + 1) messages s' := by
  unfold Rolling.openFile at hopen
  rw [if_pos (hworks.fopen _)] at hopen
  injection hopen with hopen
  have hparts : s'.parts = s.parts ++ (s.file.map (Part.close (system.lib s.parts.length))).toList := by
    rw [← hopen]
  have hfile : s'.file = some (.create (nameAt system settings m)) := by rw [← hopen]
  have hnames : s'.allParts.map Part.name = s.allParts.map Part.name ++ [nameAt system settings m] := by
    rw [allParts, allParts, hparts, hfile]
    cases s.file <;> simp [Part.close, Part.flush, Part.create]
  have hmem : ∀ part ∈ s'.parts, part ∈ s.parts ∨
      ∃ old, s.file = some old ∧ part = old.close (system.lib s.parts.length) := by
    intro part hpart
    rw [hparts, List.mem_append, Option.mem_toList, Option.map_eq_some_iff] at hpart
    rcases hpart with hpart | ⟨old, hold, heq⟩
    . exact Or.inl hpart
    . exact Or.inr ⟨old, hold, heq.symm⟩
  constructor
  . have ⟨groups, hmessages, hgroups⟩ := h.groups
    refine ⟨groups ++ [[]], ?_, ?_⟩
    . simp [hmessages]
    . have haccepted : s'.allParts.map (fun part => part.file.accepted)
          = s.allParts.map (fun part => part.file.accepted) ++ [[]] := by
        rw [allParts, allParts, hparts, hfile]
        cases s.file <;> simp [accepted_close] <;> rfl
      rw [haccepted, hgroups, List.map_append]
      rfl
  . intro part hpart
    rcases hmem part hpart with hpart | ⟨old, hold, heq⟩
    . exact h.closed part hpart
    . rw [heq, accepted_close, flushed_close (hworks.fclose _)]
  . intro part hpart hdeleted
    rcases hmem part hpart with hpart | ⟨old, hold, heq⟩
    . exact h.deleted part hpart hdeleted
    . have hkept := h.kept old hold
      rw [heq] at hdeleted
      exact absurd hdeleted (by simp [Part.close, Part.flush, hkept])
  . intro part hpart
    rw [hfile] at hpart
    injection hpart with hpart
    rw [← hpart]
    exact Nat.le_refl _
  . intro part hpart
    rw [hfile] at hpart
    injection hpart with hpart
    rw [← hpart]
    rfl
  . rw [hnames, List.pairwise_append]
    refine ⟨h.names, List.pairwise_singleton _ _, ?_⟩
    intro name hname name' hname'
    rw [List.mem_map] at hname
    have ⟨part, hpart, heq⟩ := hname
    have ⟨k, hk, holder⟩ := h.older part hpart
    rw [List.mem_singleton.mp hname', ← heq, holder]
    exact hticks.nameAt_lt (by omega) hm
  . intro part hpart
    have hname : part.name ∈ s'.allParts.map Part.name := List.mem_map_of_mem hpart
    rw [hnames, List.mem_append, List.mem_map, List.mem_singleton] at hname
    rcases hname with ⟨old, hold, heq⟩ | heq
    . have ⟨k, hk, holder⟩ := h.older old hold
      exact ⟨k, by omega, heq ▸ holder⟩
    . exact ⟨m, Nat.lt_succ_self m, heq⟩

def mark (fname : List UInt8) (part : Part) : Part :=
  if part.name = fname then { part with deleted := true } else part

@[simp]
theorem name_mark (fname : List UInt8) (part : Part) : (mark fname part).name = part.name := by
  unfold mark
  split <;> rfl

@[simp]
theorem file_mark (fname : List UInt8) (part : Part) : (mark fname part).file = part.file := by
  unfold mark
  split <;> rfl

@[simp]
theorem flushed_mark (fname : List UInt8) (part : Part) : (mark fname part).flushed = part.flushed := by
  unfold mark
  split <;> rfl

theorem deleted_mark {fname : List UInt8} {part : Part} (h : (mark fname part).deleted = true)
    : part.deleted = true ∨ part.name = fname := by
  unfold mark at h
  split at h
  . next heq => exact Or.inr heq
  . exact Or.inl h

theorem delete_eq (s : Rolling) (fname : List UInt8)
    : s.delete fname = { s with
        parts := s.parts.map (mark fname), file := s.file.map (mark fname)
        others := s.others.filter fun other => other.1 ≠ fname } := rfl

theorem allParts_delete (s : Rolling) (fname : List UInt8)
    : (s.delete fname).allParts = s.allParts.map (mark fname) := by
  rw [delete_eq, allParts, allParts]
  cases s.file <;> simp

-- A closed file of the size zero was never written to.
theorem Good.accepted_eq_nil (h : Good system settings n messages s) {fname : List UInt8}
    (hsize : s.sizeOf fname = some 0) {part : Part} (hpart : part ∈ s.parts) (hname : part.name = fname)
    : part.file.accepted = [] := by
  by_cases hdeleted : part.deleted = true
  . exact h.deleted part hpart hdeleted
  . have hmem : part ∈ s.allParts.filter fun part => part.name = fname ∧ !part.deleted := by
      rw [List.mem_filter]
      refine ⟨List.mem_append_left _ hpart, ?_⟩
      simp [hname, hdeleted]
    unfold sizeOf at hsize
    dsimp only at hsize
    rw [if_neg (List.ne_nil_of_mem hmem)] at hsize
    injection hsize with hsize
    have hsum := (Nat.add_eq_zero_iff.mp hsize).1
    have hzero := List.sum_eq_zero_iff_forall_eq_nat.mp hsum part.flushed (List.mem_map_of_mem hmem)
    rw [h.closed part hpart] at hzero
    exact List.eq_nil_of_length_eq_zero hzero

theorem Good.delete (h : Good system settings n messages s) {fname : List UInt8}
    (hsize : s.sizeOf fname = some 0) (hother : ∀ part, s.file = some part → part.name ≠ fname)
    : Good system settings n messages (s.delete fname) := by
  constructor
  . rw [allParts_delete, List.map_map]
    have haccepted : (fun part => part.file.accepted) ∘ mark fname
        = fun part : Part => part.file.accepted := by
      funext part
      simp
    rw [haccepted]
    exact h.groups
  . intro part hpart
    rw [delete_eq, List.mem_map] at hpart
    have ⟨old, hold, heq⟩ := hpart
    rw [← heq, flushed_mark, file_mark]
    exact h.closed old hold
  . intro part hpart hdeleted
    rw [delete_eq, List.mem_map] at hpart
    have ⟨old, hold, heq⟩ := hpart
    rw [← heq] at hdeleted
    rw [← heq, file_mark]
    rcases deleted_mark hdeleted with hdeleted | hname
    . exact h.deleted old hold hdeleted
    . exact h.accepted_eq_nil hsize hold hname
  . intro part hpart
    rw [delete_eq, Option.map_eq_some_iff] at hpart
    have ⟨old, hold, heq⟩ := hpart
    rw [← heq, flushed_mark, file_mark]
    exact h.flushed old hold
  . intro part hpart
    rw [delete_eq, Option.map_eq_some_iff] at hpart
    have ⟨old, hold, heq⟩ := hpart
    rw [← heq, mark, if_neg (hother old hold)]
    exact h.kept old hold
  . rw [allParts_delete, List.map_map]
    have hname : Part.name ∘ mark fname = Part.name := by
      funext part
      simp
    rw [hname]
    exact h.names
  . intro part hpart
    rw [allParts_delete, List.mem_map] at hpart
    have ⟨old, hold, heq⟩ := hpart
    rw [← heq, name_mark]
    exact h.older old hold

theorem Good.congr (h : Good system settings n messages s) (hparts : s'.parts = s.parts)
    (hfile : s'.file = s.file) : Good system settings n messages s' := by
  have hall : s'.allParts = s.allParts := by rw [allParts, allParts, hparts, hfile]
  constructor
  . exact hall ▸ h.groups
  . exact hparts ▸ h.closed
  . exact hparts ▸ h.deleted
  . exact hfile ▸ h.flushed
  . exact hfile ▸ h.kept
  . exact hall ▸ h.names
  . exact hall ▸ h.older

def onDisk (s : Rolling) : Nat := (s.allParts.map Part.flushed).sum

-- The link does not lead to a file that is still to be opened.
def LinkOld (system : System) (settings : Settings) (limit n : Nat) (s : Rolling) : Prop :=
  ∀ fname, s.link = some (.symlink fname) → ∀ k, n ≤ k → k < limit → fname ≠ nameAt system settings k

structure Unlinked (s s' : Rolling) : Prop where
  files : s'.parts = s.parts ∧ s'.file = s.file ∨ ∃ fname, s.link = some (.symlink fname) ∧
    s.sizeOf fname = some 0 ∧ s'.parts = (s.delete fname).parts ∧ s'.file = (s.delete fname).file
  link : s'.link = s.link ∨ s'.link = none
  reads : s'.reads = s.reads

theorem unlinked_unlink (s : Rolling) (settings : Settings) (calls : NameCalls)
    : Unlinked s (s.unlink settings calls) := by
  unfold Rolling.unlink
  split
  . next fname hlink =>
    split
    . split
      . next hcalls =>
        have hsize := hcalls.2.2.1
        split
        . exact ⟨Or.inr ⟨fname, hlink, hsize, rfl, rfl⟩, Or.inr rfl, rfl⟩
        . exact ⟨Or.inr ⟨fname, hlink, hsize, rfl, rfl⟩, Or.inl rfl, rfl⟩
      . split
        . exact ⟨Or.inl ⟨rfl, rfl⟩, Or.inr rfl, rfl⟩
        . exact ⟨Or.inl ⟨rfl, rfl⟩, Or.inl rfl, rfl⟩
    . exact ⟨Or.inl ⟨rfl, rfl⟩, Or.inl rfl, rfl⟩
  . split
    . exact ⟨Or.inl ⟨rfl, rfl⟩, Or.inr rfl, rfl⟩
    . exact ⟨Or.inl ⟨rfl, rfl⟩, Or.inl rfl, rfl⟩
  . exact ⟨Or.inl ⟨rfl, rfl⟩, Or.inl rfl, rfl⟩

theorem Unlinked.good (hunlinked : Unlinked s s') (h : Good system settings n messages s)
    (hother : ∀ fname, s.link = some (.symlink fname) → ∀ part, s.file = some part → part.name ≠ fname)
    : Good system settings n messages s' := by
  rcases hunlinked.files with ⟨hparts, hfile⟩ | ⟨fname, hlink, hsize, hparts, hfile⟩
  . exact h.congr hparts hfile
  . exact (h.delete hsize (hother fname hlink)).congr hparts hfile

theorem Unlinked.onDisk (hunlinked : Unlinked s s') : s'.onDisk = s.onDisk := by
  rcases hunlinked.files with ⟨hparts, hfile⟩ | ⟨fname, hlink, hsize, hparts, hfile⟩
  . rw [Rolling.onDisk, Rolling.onDisk, allParts, allParts, hparts, hfile]
  . have hall : s'.allParts = (s.delete fname).allParts := by rw [allParts, hparts, hfile, allParts]
    rw [Rolling.onDisk, Rolling.onDisk, hall, allParts_delete, List.map_map]
    congr 2
    funext part
    simp

theorem Unlinked.isSome (hunlinked : Unlinked s s') : s'.file.isSome = s.file.isSome := by
  rcases hunlinked.files with ⟨hparts, hfile⟩ | ⟨fname, hlink, hsize, hparts, hfile⟩
  . rw [hfile]
  . rw [hfile, delete_eq, Option.isSome_map]

theorem symlink_files (calls : NameCalls) (name : List UInt8) (s : Rolling)
    : (s.symlink calls name).parts = s.parts ∧ (s.symlink calls name).file = s.file
        ∧ (s.symlink calls name).reads = s.reads := by
  unfold Rolling.symlink
  split <;> exact ⟨rfl, rfl, rfl⟩

theorem link_symlink {calls : NameCalls} {name fname : List UInt8}
    (h : (s.symlink calls name).link = some (.symlink fname))
    : s.link = some (.symlink fname) ∨ fname = name := by
  unfold Rolling.symlink at h
  split at h
  . injection h with h
    injection h with h
    exact Or.inr h.symm
  . exact Or.inl h

structure Rolled (system : System) (settings : Settings) (limit : Nat)
    (messages : List (List UInt8)) (s s' : Rolling) : Prop where
  good : Good system settings s'.reads messages s'
  link : LinkOld system settings limit s'.reads s'
  reads : s'.reads ≤ s.reads + 2
  onDisk : s.onDisk ≤ s'.onDisk
  isSome : s.file.isSome ∨ s.lastRoll < s.now system → s'.file.isSome

theorem exists_openFile (hworks : system.Works) (s : Rolling) (name : List UInt8)
    : ∃ s', s.openFile system name = some s' ∧ s'.file = some (.create name) ∧ s'.link = s.link
        ∧ s'.reads = s.reads := by
  unfold Rolling.openFile
  rw [if_pos (hworks.fopen _)]
  exact ⟨_, rfl, rfl, rfl, rfl⟩

theorem onDisk_openFile (hworks : system.Works) (h : Good system settings n messages s)
    {name : List UInt8} (hopen : s.openFile system name = some s') : s.onDisk ≤ s'.onDisk := by
  unfold Rolling.openFile at hopen
  rw [if_pos (hworks.fopen _)] at hopen
  injection hopen with hopen
  rw [← hopen, Rolling.onDisk, Rolling.onDisk, allParts, allParts]
  cases hfile : s.file with
  | none => simp
  | some part =>
    have hle := h.flushed part hfile
    simp [flushed_close (hworks.fclose _), Part.create]
    omega

theorem Good.openNamed (hworks : system.Works) (hticks : system.Ticks limit)
    (h : Good system settings n messages s) (hlink : LinkOld system settings limit n s) (hle : n ≤ m)
    (hm : m < limit) (hreads : s.reads = m + 1) (calls : NameCalls)
    : ∃ s', (s.openFile system (nameAt system settings m)).map
          (fun s => (s.unlink settings calls).symlink calls (nameAt system settings m)) = some s'
        ∧ Rolled system settings limit messages s s' ∧ s'.reads = m + 1 ∧ s'.file.isSome := by
  have ⟨t, hopen, hfile, hsame, htreads⟩ := exists_openFile hworks s (nameAt system settings m)
  have hunlinked := unlinked_unlink t settings calls
  have ⟨hparts, hfiles, hread⟩ := symlink_files calls (nameAt system settings m) (t.unlink settings calls)
  have hreads' : ((t.unlink settings calls).symlink calls (nameAt system settings m)).reads = m + 1 := by
    rw [hread, hunlinked.reads, htreads, hreads]
  have hother : ∀ fname, t.link = some (.symlink fname) → ∀ part, t.file = some part → part.name ≠ fname := by
    intro fname hfname part hpart heq
    rw [hfile] at hpart
    injection hpart with hpart
    rw [hsame] at hfname
    apply hlink fname hfname m hle hm
    rw [← heq, ← hpart]
    rfl
  have hisSome : ((t.unlink settings calls).symlink calls (nameAt system settings m)).file.isSome := by
    rw [hfiles, hunlinked.isSome, hfile]
    rfl
  refine ⟨_, by rw [hopen]; rfl, ⟨?_, ?_, by omega, ?_, fun _ => hisSome⟩, hreads', hisSome⟩
  . rw [hreads']
    exact (hunlinked.good (h.openFile hworks hticks hm hle hopen) hother).congr hparts hfiles
  . rw [hreads']
    intro fname hfname k hk hlt
    rcases link_symlink hfname with hfname | hname
    . rcases hunlinked.link with hold | hnone
      . rw [hold, hsame] at hfname
        exact hlink fname hfname k (by omega) hlt
      . rw [hnone] at hfname
        contradiction
    . rw [hname]
      have hless : nameAt system settings m < nameAt system settings k := hticks.nameAt_lt (by omega) hlt
      intro heq
      rw [heq] at hless
      exact List.lt_irrefl _ hless
  . have hdisk : ((t.unlink settings calls).symlink calls (nameAt system settings m)).onDisk
        = (t.unlink settings calls).onDisk := by
      rw [Rolling.onDisk, Rolling.onDisk, allParts, allParts, hparts, hfiles]
    rw [hdisk, hunlinked.onDisk]
    exact onDisk_openFile hworks h hopen

theorem Good.rollFile (hworks : system.Works) (hticks : system.Ticks limit)
    (h : Good system settings s.reads messages s) (hlink : LinkOld system settings limit s.reads s)
    (hlimit : s.reads + 2 ≤ limit)
    : ∃ s', s.rollFile system settings = some s' ∧ Rolled system settings limit messages s s' := by
  unfold Rolling.rollFile
  dsimp only
  split
  . have h' : Good system settings s.reads messages { s with
        reads := s.reads + 2, lastRoll := s.now system, lastFlush := s.now system,
        lastPeriod := period (s.now system) } := h.congr rfl rfl
    have ⟨s', hs', ⟨hgood, hlink', _, hdisk, _⟩, hreads, hisSome⟩ := h'.openNamed hworks hticks hlink
      (Nat.le_succ s.reads) hlimit rfl (system.nameCalls s.allParts.length)
    exact ⟨s', hs', hgood, hlink', by omega, hdisk, fun _ => hisSome⟩
  . next hnow =>
    refine ⟨_, rfl, (h.mono (Nat.le_add_right _ 2)).congr rfl rfl, ?_, Nat.le_refl _, Nat.le_refl _, ?_⟩
    . intro fname hfname k hk
      exact hlink fname hfname k (Nat.le_trans (Nat.le_add_right _ 2) hk)
    . intro hcases
      exact hcases.resolve_right hnow

structure Runs (system : System) (settings : Settings) (limit : Nat) (messages : List (List UInt8))
    (s : Rolling) : Prop where
  good : Good system settings s.reads messages s
  link : LinkOld system settings limit s.reads s
  isSome : s.file.isSome

theorem Rolled.runs (h : Rolled system settings limit messages s s') (hisSome : s.file.isSome)
    : Runs system settings limit messages s' where
  good := h.good
  link := h.link
  isSome := h.isSome (Or.inl hisSome)

theorem onDisk_setFile (s s' : Rolling) {part part' : Part} (hfile : s.file = some part)
    (hs : s' = { s' with parts := s.parts, file := some part' })
    : s'.onDisk + part.flushed = s.onDisk + part'.flushed := by
  rw [hs, onDisk, onDisk, allParts, allParts, hfile]
  simp
  omega

theorem Good.contents (h : Good system settings n messages s)
    : s.allParts.flatMap (fun part => part.file.accepted) = messages.flatten := by
  have ⟨groups, hmessages, hgroups⟩ := h.groups
  rw [← hmessages, List.flatMap_def, hgroups, List.flatten_flatten]

theorem Good.onDisk_eq (h : Good system settings n messages s)
    (hflushed : ∀ part, s.file = some part → part.flushed = part.file.accepted.length)
    : s.onDisk = messages.flatten.length := by
  rw [← h.contents, List.length_flatMap, onDisk]
  congr 1
  apply List.map_congr_left
  intro part hpart
  rw [allParts, List.mem_append, Option.mem_toList] at hpart
  rcases hpart with hpart | hpart
  . exact h.closed part hpart
  . exact hflushed part hpart

theorem Runs.flushFile (hworks : system.Works) (h : Runs system settings limit messages s)
    : ∃ s', s.flushFile system = some s' ∧ Runs system settings limit messages s' ∧ s.onDisk ≤ s'.onDisk
        ∧ s'.reads = s.reads ∧ s'.onDisk = messages.flatten.length := by
  have ⟨part, hfile⟩ := Option.isSome_iff_exists.mp h.isSome
  have hflushed : (part.flush (system.fflushSucceeds s.fflushes)).flushed = part.file.accepted.length := by
    simp [Part.flush, hworks.fflush]
  have hflush : s.flushFile system = some { s with
      file := some (part.flush (system.fflushSucceeds s.fflushes)), fflushes := s.fflushes + 1 } := by
    simp [Rolling.flushFile, hfile]
  have hgood : Good system settings s.reads (messages ++ []) { s with
      file := some (part.flush (system.fflushSucceeds s.fflushes)), fflushes := s.fflushes + 1 } :=
    h.good.setFile hfile (part.flush (system.fflushSucceeds s.fflushes)) rfl rfl (by simp [Part.flush])
    (Nat.le_of_eq hflushed) rfl
  rw [List.append_nil] at hgood
  refine ⟨_, hflush, ⟨hgood, h.link, rfl⟩, ?_, rfl, ?_⟩
  . have hdisk := onDisk_setFile s { s with
        file := some (part.flush (system.fflushSucceeds s.fflushes)), fflushes := s.fflushes + 1 } hfile rfl
    have hle := h.good.flushed part hfile
    omega
  . apply hgood.onDisk_eq
    intro part' hpart
    injection hpart with hpart
    rw [← hpart]
    exact hflushed

theorem Runs.checkTime (hworks : system.Works) (hticks : system.Ticks limit)
    (h : Runs system settings limit messages s) (hlimit : s.reads + 3 ≤ limit)
    : ∃ s', s.checkTime system settings = some s' ∧ Runs system settings limit messages s'
        ∧ s.onDisk ≤ s'.onDisk ∧ s'.reads ≤ s.reads + 3 := by
  have htick : Runs system settings limit messages { s with count := 0, reads := s.reads + 1 } := by
    refine ⟨(h.good.mono (Nat.le_succ _)).congr rfl rfl, ?_, h.isSome⟩
    intro fname hfname k hk
    exact h.link fname hfname k (Nat.le_of_succ_le hk)
  unfold Rolling.checkTime
  dsimp only
  split
  . have ⟨s', hs', hrolled⟩ := htick.good.rollFile hworks hticks htick.link hlimit
    exact ⟨s', hs', hrolled.runs htick.isSome, hrolled.onDisk, hrolled.reads⟩
  . split
    . have hflush : Runs system settings limit messages { s with
          count := 0, reads := s.reads + 1, lastFlush := s.now system } :=
        ⟨htick.good.congr rfl rfl, htick.link, htick.isSome⟩
      have ⟨s', hs', hruns, hdisk, hreads, _⟩ := hflush.flushFile hworks
      exact ⟨s', hs', hruns, hdisk, by rw [hreads]; exact Nat.add_le_add_left (by decide) _⟩
    . exact ⟨_, rfl, htick, Nat.le_refl _, Nat.add_le_add_left (by decide) _⟩

theorem Runs.setAppended (hworks : system.Works) (h : Runs system settings limit messages s) {part : Part}
    (hfile : s.file = some part) (data : List UInt8)
    : Runs system settings limit (messages ++ [data]) { s with
        file := some { part with file := (part.file.append (system.lib s.parts.length) data).2 } } := by
  have ⟨haccepted, _⟩ := FileUtil.WritableFile.append_of_accepts (hworks.accepts s.parts.length)
    part.file data
  refine ⟨?_, h.link, rfl⟩
  apply h.good.setFile hfile
    { part with file := (part.file.append (system.lib s.parts.length) data).2 } rfl rfl
    (by simpa using haccepted) _ rfl
  have hle := h.good.flushed part hfile
  dsimp only
  rw [haccepted, List.length_append]
  omega

theorem Runs.appendUnLocked (hworks : system.Works) (hticks : system.Ticks limit)
    (h : Runs system settings limit messages s) (hlimit : s.reads + 3 ≤ limit) (data : List UInt8)
    : ∃ s', s.appendUnLocked system settings data = some s'
        ∧ Runs system settings limit (messages ++ [data]) s' ∧ s.onDisk ≤ s'.onDisk
        ∧ s'.reads ≤ s.reads + 3 := by
  have ⟨part, hfile⟩ := Option.isSome_iff_exists.mp h.isSome
  have happended := h.setAppended hworks hfile data
  have hdisk := onDisk_setFile s { s with
      file := some { part with file := (part.file.append (system.lib s.parts.length) data).2 } } hfile rfl
  have hle := Nat.le_of_eq (Nat.add_right_cancel hdisk).symm
  unfold Rolling.appendUnLocked
  rw [hfile]
  dsimp only
  split
  . have ⟨s', hs', hrolled⟩ := happended.good.rollFile hworks hticks happended.link
      (Nat.le_of_succ_le hlimit)
    refine ⟨s', hs', hrolled.runs happended.isSome, Nat.le_trans hle hrolled.onDisk, ?_⟩
    exact Nat.le_succ_of_le hrolled.reads
  . split
    . have ⟨s', hs', hruns, hdisk', hreads⟩ := happended.checkTime hworks hticks hlimit
      exact ⟨s', hs', hruns, Nat.le_trans hle hdisk', hreads⟩
    . exact ⟨_, rfl, ⟨happended.good.congr rfl rfl, happended.link, rfl⟩, hle, Nat.le_add_right _ 3⟩

end Rolling

def Call.onOneFile (file : LogFile) : Call → LogFile
  | .append data => file.append data
  | .flush => file.flush

def Call.message? : Call → Option (List UInt8)
  | .append data => some data
  | .flush => none

def messagesOf (calls : List Call) : List (List UInt8) := calls.filterMap Call.message?

def oneFile (calls : List Call) : LogFile := calls.foldl Call.onOneFile .create

namespace Rolling

variable {s s' : Rolling} {messages : List (List UInt8)} {n : Nat}

-- A link that was there before does not lead to a file that is still to be opened.
def Fresh (system : System) (settings : Settings) (limit : Nat) (link : Option Entry) : Prop :=
  ∀ fname, link = some (.symlink fname) → ∀ k < limit, fname ≠ nameAt system settings k

structure Keeps (calls : List Call) (s : Rolling) : Prop where
  groups : ∃ groups : List (List (List UInt8)), groups.flatten = messagesOf calls ∧
    s.allParts.map (fun part => part.file.accepted) = groups.map List.flatten
  contents : (s.allParts.filter fun part => !part.deleted).flatMap (fun part => part.file.accepted)
    = (oneFile calls).appended
  onDisk : (oneFile calls).flushed ≤ s.onDisk
  closed : ∀ part ∈ s.parts, part.flushed = part.file.accepted.length
  names : (s.allParts.map Part.name).Pairwise (· < ·)

theorem lastRoll_lt (hticks : system.Ticks limit) (hlimit : 2 ≤ limit) (link : Option Entry)
    (others : List (List UInt8 × Nat))
    : (unopened link others).lastRoll < (unopened link others).now system := by
  have hfirst := hticks.first
  have hseconds := (hticks.inTexts 0 (by omega)).parts.1
  unfold Timestamp.kMicroSecondsPerSecond at hfirst
  change 0 < Timestamp.secondsSinceEpoch (system.clock 0)
  omega

theorem exists_create (hworks : system.Works) (hticks : system.Ticks limit) (hlimit : 2 ≤ limit)
    {link : Option Entry} (hfresh : Fresh system settings limit link)
    (others : List (List UInt8 × Nat))
    : ∃ s, create system settings link others = some s ∧ Runs system settings limit [] s
        ∧ s.reads ≤ 2 := by
  have hgood : Good system settings 0 [] (unopened link others) := by
    refine ⟨⟨[], rfl, rfl⟩, ?_, ?_, ?_, ?_, ?_, ?_⟩ <;> simp [unopened, allParts]
  have ⟨s, hs, hrolled⟩ := Good.rollFile (s := unopened link others) hworks hticks hgood
    (fun fname hfname k _ => hfresh fname hfname k) hlimit
  have hisSome := hrolled.isSome (Or.inr (lastRoll_lt hticks hlimit link others))
  exact ⟨s, hs, ⟨hrolled.good, hrolled.link, hisSome⟩, hrolled.reads⟩

structure RunsAs (system : System) (settings : Settings) (limit : Nat) (calls : List Call)
    (s : Rolling) : Prop where
  runs : Runs system settings limit (messagesOf calls) s
  appended : (oneFile calls).appended = (messagesOf calls).flatten
  onDisk : (oneFile calls).flushed ≤ s.onDisk
  reads : s.reads ≤ 3 * calls.length + 2

theorem RunsAs.step (hworks : system.Works) (hticks : system.Ticks limit) {calls : List Call}
    (h : RunsAs system settings limit calls s) (call : Call)
    (hlimit : 3 * (calls ++ [call]).length + 2 ≤ limit)
    : ∃ s', s.step system settings call = some s' ∧ RunsAs system settings limit (calls ++ [call]) s' := by
  have hfile : oneFile (calls ++ [call]) = call.onOneFile (oneFile calls) := by
    simp [oneFile]
  have hmessages : messagesOf (calls ++ [call]) = messagesOf calls ++ call.message?.toList := by
    apply Machine.filterMap_concat
  have hreads := h.reads
  rw [List.length_append, List.length_singleton] at hlimit
  cases call with
  | append data =>
    have ⟨s', hs', hruns, hdisk, hreads'⟩ := h.runs.appendUnLocked hworks hticks (by omega) data
    refine ⟨s', hs', ?_, ?_, ?_, ?_⟩
    . rw [hmessages]
      exact hruns
    . rw [hfile, hmessages, List.flatten_append]
      dsimp only [Call.onOneFile, LogFile.append]
      rw [h.appended]
      simp [Call.message?]
    . rw [hfile]
      exact Nat.le_trans h.onDisk hdisk
    . rw [List.length_append, List.length_singleton]
      omega
  | flush =>
    have ⟨s', hs', hruns, _, hreads', hdisk⟩ := h.runs.flushFile hworks
    refine ⟨s', hs', ?_, ?_, ?_, ?_⟩
    . rw [hmessages, Call.message?, Option.toList_none, List.append_nil]
      exact hruns
    . rw [hfile, hmessages, Call.message?, Option.toList_none, List.append_nil]
      exact h.appended
    . rw [hfile, hdisk, ← h.appended]
      exact Nat.le_refl _
    . rw [List.length_append, List.length_singleton]
      omega

theorem exists_run (hworks : system.Works) (hticks : system.Ticks limit)
    {link : Option Entry} (hfresh : Fresh system settings limit link)
    (others : List (List UInt8 × Nat)) (calls : List Call) (hlimit : 3 * calls.length + 2 ≤ limit)
    : ∃ s, run system settings link others calls = some s ∧ RunsAs system settings limit calls s := by
  induction calls using List.reverseRecOn with
  | nil =>
    have ⟨s, hs, hruns, hreads⟩ := exists_create hworks hticks hlimit hfresh others
    refine ⟨s, ?_, hruns, rfl, Nat.zero_le _, hreads⟩
    rw [run, hs]
    rfl
  | append_singleton calls call ih =>
    have hle := hlimit
    rw [List.length_append, List.length_singleton] at hle
    have ⟨s, hs, hruns⟩ := ih (by omega)
    have ⟨s', hs', hruns'⟩ := hruns.step hworks hticks call hlimit
    refine ⟨s', ?_, hruns'⟩
    have ⟨t, ht, hrun⟩ := Option.bind_eq_some_iff.mp hs
    rw [run, ht, Option.bind_some, Machine.run_concat_eq_some]
    exact ⟨s, hrun, hs'⟩

-- No file that was there before loses anything, what is deleted of them is empty.
def Spares (s s' : Rolling) : Prop :=
  ∀ name size, s.others.lookup name = some size → 0 < size → s'.others.lookup name = some size

theorem Spares.of_eq (h : s'.others = s.others) : Spares s s' := by
  intro name size hsize _
  rw [h, hsize]

theorem Spares.trans {t : Rolling} (h : Spares s t) (h' : Spares t s') : Spares s s' := by
  intro name size hsize hpos
  exact h' name size (h name size hsize hpos) hpos

theorem lookup_filter_ne {others : List (List UInt8 × Nat)} {name fname : List UInt8} (hne : name ≠ fname)
    : (others.filter fun other => other.1 ≠ fname).lookup name = others.lookup name := by
  induction others with
  | nil => rfl
  | cons other others ih =>
    rw [List.filter_cons]
    split
    . rw [List.lookup_cons, List.lookup_cons, ih]
    . next hother =>
      have heq : other.1 = fname := by simpa using hother
      rw [ih, List.lookup_cons, beq_eq_false_iff_ne.mpr (heq ▸ hne)]

theorem spares_delete {fname : List UInt8} (hsize : s.sizeOf fname = some 0) : Spares s (s.delete fname) := by
  intro name size hname hpos
  rw [delete_eq, lookup_filter_ne _, hname]
  intro heq
  rw [heq] at hname
  unfold sizeOf at hsize
  dsimp only at hsize
  rw [hname] at hsize
  split at hsize
  . injection hsize with hsize
    omega
  . injection hsize with hsize
    rw [Option.getD_some] at hsize
    omega

theorem spares_unlink (s : Rolling) (settings : Settings) (calls : NameCalls)
    : Spares s (s.unlink settings calls) := by
  unfold Rolling.unlink
  split
  . split
    . split
      . next hcalls =>
        have hspares := spares_delete hcalls.2.2.1
        split
        . exact hspares.trans (.of_eq rfl)
        . exact hspares
      . split <;> exact .of_eq rfl
    . exact .of_eq rfl
  . split <;> exact .of_eq rfl
  . exact .of_eq rfl

theorem spares_symlink (s : Rolling) (calls : NameCalls) (name : List UInt8)
    : Spares s (s.symlink calls name) := by
  unfold Rolling.symlink
  split <;> exact .of_eq rfl

theorem spares_openFile {name : List UInt8} (h : s.openFile system name = some s') : Spares s s' := by
  unfold Rolling.openFile at h
  rw [Option.ite_none_right_eq_some] at h
  obtain ⟨_, h⟩ := h
  injection h with h
  rw [← h]
  exact .of_eq rfl

theorem spares_rollFile (h : s.rollFile system settings = some s') : Spares s s' := by
  unfold Rolling.rollFile at h
  dsimp only at h
  split at h
  . have ⟨t, hopen, heq⟩ := Option.map_eq_some_iff.mp h
    rw [← heq]
    have hopened := spares_openFile hopen
    exact (hopened.trans (spares_unlink _ _ _)).trans (spares_symlink _ _ _)
  . injection h with h
    rw [← h]
    exact .of_eq rfl

theorem spares_flushFile (h : s.flushFile system = some s') : Spares s s' := by
  unfold Rolling.flushFile at h
  split at h
  . injection h with h
    rw [← h]
    exact .of_eq rfl
  . contradiction

theorem spares_checkTime (h : s.checkTime system settings = some s') : Spares s s' := by
  unfold Rolling.checkTime at h
  dsimp only at h
  split at h
  . have hspares := spares_rollFile h
    exact hspares
  . split at h
    . have hspares := spares_flushFile h
      exact hspares
    . injection h with h
      rw [← h]
      exact .of_eq rfl

theorem spares_step {call : Call} (h : s.step system settings call = some s') : Spares s s' := by
  cases call with
  | append data =>
    dsimp only [Rolling.step] at h
    unfold Rolling.appendUnLocked at h
    split at h
    . dsimp only at h
      split at h
      . have hspares := spares_rollFile h
        exact hspares
      . split at h
        . have hspares := spares_checkTime h
          exact hspares
        . injection h with h
          rw [← h]
          exact .of_eq rfl
    . contradiction
  | flush => exact spares_flushFile h

theorem spares_run {link : Option Entry} {others : List (List UInt8 × Nat)} {calls : List Call}
    (hrun : run system settings link others calls = some s) : Spares (unopened link others) s := by
  have ⟨t, ht, hsteps⟩ := Option.bind_eq_some_iff.mp hrun
  apply Machine.run_invariant (P := fun s => Spares (unopened link others) s) _ (spares_rollFile ht) hsteps
  intro m call m' hspares hstep
  exact hspares.trans (spares_step hstep)

theorem Good.contents_kept (h : Good system settings n messages s)
    : (s.allParts.filter fun part => !part.deleted).flatMap (fun part => part.file.accepted)
        = s.allParts.flatMap fun part => part.file.accepted := by
  have hempty : ∀ part ∈ s.allParts, part.deleted = true → part.file.accepted = [] := by
    intro part hpart hdeleted
    rw [allParts, List.mem_append, Option.mem_toList] at hpart
    rcases hpart with hpart | hpart
    . exact h.deleted part hpart hdeleted
    . rw [h.kept part hpart] at hdeleted
      contradiction
  generalize s.allParts = parts at hempty
  induction parts with
  | nil => rfl
  | cons part parts ih =>
    have ih := ih fun part hpart => hempty part (List.mem_cons_of_mem _ hpart)
    rw [List.filter_cons]
    split
    . rw [List.flatMap_cons, List.flatMap_cons, ih]
    . next hdeleted =>
      rw [List.flatMap_cons, ih, hempty part List.mem_cons_self (by simpa using hdeleted)]
      rfl

theorem RunsAs.keeps {calls : List Call} (h : RunsAs system settings limit calls s)
    : Keeps calls s where
  groups := h.runs.good.groups
  contents := by rw [h.runs.good.contents_kept, h.runs.good.contents, h.appended]
  onDisk := h.onDisk
  closed := h.runs.good.closed
  names := h.runs.good.names

def exampleSystem : System where
  clock := fun n => 1388534400000000 + 1000000 * n
  lib := fun _ => ⟨true, fun _ => 1, fun _ => none, fun _ => true, true⟩
  fflushSucceeds := fun _ => true
  nameCalls := fun _ => ⟨true, true, true, true, true, true⟩

def exampleSettings : Settings where
  maxLogSize := 0
  logbufsecs := 30
  logDir := [0x2f, 0x74, 0x6d, 0x70]
  baseName := [0x61]
  host := [0x68]
  pid := [0x31]
  user := [0x75]

def exampleCalls : List Call := [.append [1, 2], .flush, .append [3]]

theorem works_exampleSystem : exampleSystem.Works := by
  constructor <;> simp [exampleSystem]

theorem ticks_exampleSystem {n : Nat} (h : n < 1000) : exampleSystem.Ticks n := by
  constructor
  . intro m hm
    constructor
    . dsimp only [exampleSystem]
      omega
    . dsimp only [exampleSystem, Timestamp.endOfTexts, Timestamp.kMicroSecondsPerSecond]
      omega
  . decide
  . intro m _
    dsimp only [exampleSystem]
    omega

theorem fresh_none (limit : Nat) : Fresh system settings limit none := by
  intro fname h
  contradiction

-- Nothing prevents the calls on names, and the texts of the links are read where the links are.
structure Links (system : System) (settings : Settings) : Prop where
  access : ∀ n, (system.nameCalls n).access
  unlinkLink : ∀ n, (system.nameCalls n).unlinkLink
  symlink : ∀ n, (system.nameCalls n).symlink
  resolve : ∀ n, settings.resolve (nameAt system settings n) = nameAt system settings n

theorem resolve_getLogFileName {settings : Settings}
    (h : settings.logDir = [] ∨ settings.logDir.head? = some 0x2f) (t : Int)
    : settings.resolve (settings.getLogFileName t) = settings.getLogFileName t := by
  unfold Settings.resolve
  split
  . rfl
  . next hrelative =>
    rcases h with hempty | habsolute
    . simp [Settings.directory, hempty]
    . have hhead : settings.directory.head? = some 0x2f := by
        unfold Settings.directory
        split
        . simp [habsolute]
        . exact habsolute
      apply absurd _ hrelative
      simp [Settings.getLogFileName, hhead]

theorem isSome_sizeOf (s : Rolling) (name : List UInt8)
    : (s.sizeOf name).isSome ↔ (∃ part ∈ s.allParts, part.name = name ∧ part.deleted = false) ∨
        (s.others.lookup name).isSome := by
  have hnamed : (∃ part ∈ s.allParts, part.name = name ∧ part.deleted = false) ↔
      s.allParts.filter (fun part => part.name = name ∧ !part.deleted) ≠ [] := by
    rw [ne_eq, List.filter_eq_nil_iff]
    simp
  rw [hnamed]
  unfold sizeOf
  dsimp only
  split
  . next hnil => exact ⟨Or.inr, fun h => h.resolve_left (absurd hnil)⟩
  . next hne => exact ⟨fun _ => Or.inl hne, fun _ => rfl⟩

theorem isSome_sizeOf_openFile {name fname : List UInt8} (hopen : s.openFile system name = some s')
    (h : (s.sizeOf fname).isSome) : (s'.sizeOf fname).isSome := by
  unfold openFile at hopen
  rw [Option.ite_none_right_eq_some] at hopen
  obtain ⟨_, hopen⟩ := hopen
  injection hopen with hopen
  rw [isSome_sizeOf] at h ⊢
  rcases h with ⟨part, hpart, hname, hdeleted⟩ | hothers
  . left
    rw [allParts, List.mem_append, Option.mem_toList] at hpart
    rcases hpart with hpart | hpart
    . refine ⟨part, ?_, hname, hdeleted⟩
      rw [← hopen]
      exact List.mem_append_left _ (List.mem_append_left _ hpart)
    . refine ⟨part.close (system.lib s.parts.length), ?_, hname, hdeleted⟩
      rw [← hopen, hpart]
      exact List.mem_append_left _ (List.mem_append_right _ (by simp))
  . right
    rw [← hopen]
    exact hothers

def Leads (settings : Settings) (s : Rolling) : Prop :=
  ∀ fname, s.link = some (.symlink fname) → (s.sizeOf (settings.resolve fname)).isSome

theorem link_unlink {calls : NameCalls} (haccess : calls.access) (hunlink : calls.unlinkLink)
    (h : Leads settings s) : (s.unlink settings calls).link = none := by
  unfold Rolling.unlink
  split
  . next fname hlink =>
    rw [if_pos ⟨haccess, h fname hlink⟩]
    dsimp only
    rw [if_pos hunlink]
  . rw [if_pos ⟨haccess, hunlink⟩]
  . next hnone => exact hnone

def Linked (s : Rolling) : Prop := s.link = s.file.map fun part => .symlink part.name

theorem linked_openNamed (hworks : system.Works) (hlinks : Links system settings) (i : Nat)
    (hleads : Leads settings s) {name : List UInt8} (hs : (s.openFile system name).map
      (fun s => (s.unlink settings (system.nameCalls i)).symlink (system.nameCalls i) name) = some s')
    : Linked s' := by
  have ⟨t, hopen, hfile, hsame, _⟩ := exists_openFile hworks s name
  rw [hopen] at hs
  injection hs with hs
  have hnone : (t.unlink settings (system.nameCalls i)).link = none := by
    apply link_unlink (hlinks.access i) (hlinks.unlinkLink i)
    intro fname hlink
    rw [hsame] at hlink
    exact isSome_sizeOf_openFile hopen (hleads fname hlink)
  have hname : (t.unlink settings (system.nameCalls i)).file.map (fun part => Entry.symlink part.name)
      = some (.symlink name) := by
    rcases (unlinked_unlink t settings (system.nameCalls i)).files with ⟨_, h⟩ | ⟨fname, _, _, _, h⟩
    . rw [h, hfile]
      rfl
    . rw [h, delete_eq, hfile, Option.map_map]
      simp [Part.create]
  have hlink : ((t.unlink settings (system.nameCalls i)).symlink (system.nameCalls i) name).link
      = some (.symlink name) := by
    unfold Rolling.symlink
    rw [if_pos ⟨hlinks.symlink i, hnone⟩]
  dsimp only at hs
  unfold Linked
  rw [← hs, (symlink_files _ _ _).2.1, hname, hlink]

theorem linked_rollFile (hworks : system.Works) (hlinks : Links system settings)
    (hleads : Leads settings s) (hnow : s.now system > s.lastRoll ∨ Linked s)
    (hroll : s.rollFile system settings = some s') : Linked s' := by
  unfold Rolling.rollFile at hroll
  dsimp only at hroll
  split at hroll
  . have hleads' : Leads settings { s with
        reads := s.reads + 2, lastRoll := s.now system, lastFlush := s.now system,
        lastPeriod := period (s.now system) } := hleads
    exact linked_openNamed hworks hlinks s.allParts.length hleads' hroll
  . next hnot =>
    injection hroll with hroll
    rw [← hroll]
    exact hnow.resolve_left hnot

theorem Runs.leads (hlinks : Links system settings) (h : Runs system settings limit messages s)
    (hlinked : Linked s) : Leads settings s := by
  intro fname hlink
  have ⟨part, hfile⟩ := Option.isSome_iff_exists.mp h.isSome
  rw [hlinked, hfile] at hlink
  injection hlink with hlink
  injection hlink with hlink
  have hmem : part ∈ s.allParts := List.mem_append_right _ (by simp [hfile])
  have ⟨k, _, hname⟩ := h.good.older part hmem
  rw [isSome_sizeOf]
  left
  refine ⟨part, hmem, ?_, h.good.kept part hfile⟩
  rw [← hlink, hname, hlinks.resolve]

theorem linked_flushFile (h : s.flushFile system = some s') (hlinked : Linked s) : Linked s' := by
  unfold Rolling.flushFile at h
  split at h
  . next part hfile =>
    injection h with h
    unfold Linked at hlinked ⊢
    rw [← h, hlinked, hfile]
    rfl
  . contradiction

theorem Runs.linked_checkTime (hworks : system.Works) (hlinks : Links system settings)
    (hruns : Runs system settings limit messages s) (hlinked : Linked s)
    (h : s.checkTime system settings = some s') : Linked s' := by
  have hleads := hruns.leads hlinks hlinked
  unfold Rolling.checkTime at h
  dsimp only at h
  split at h
  . have hleads' : Leads settings { s with count := 0, reads := s.reads + 1 } := hleads
    have hlinked' : Linked { s with count := 0, reads := s.reads + 1 } := hlinked
    exact linked_rollFile hworks hlinks hleads' (Or.inr hlinked') h
  . split at h
    . have hlinked' : Linked { s with
          count := 0, reads := s.reads + 1, lastFlush := s.now system } := hlinked
      exact linked_flushFile h hlinked'
    . injection h with h
      rw [← h]
      exact hlinked

theorem Runs.linked_appendUnLocked (hworks : system.Works) (hlinks : Links system settings)
    (hruns : Runs system settings limit messages s) (hlinked : Linked s) {data : List UInt8}
    (h : s.appendUnLocked system settings data = some s') : Linked s' := by
  have ⟨part, hfile⟩ := Option.isSome_iff_exists.mp hruns.isSome
  have happended := hruns.setAppended hworks hfile data
  have hlinked' : Linked { s with
      file := some { part with file := (part.file.append (system.lib s.parts.length) data).2 } } := by
    unfold Linked at hlinked ⊢
    rw [hlinked, hfile]
    rfl
  unfold Rolling.appendUnLocked at h
  rw [hfile] at h
  dsimp only at h
  split at h
  . exact linked_rollFile hworks hlinks (happended.leads hlinks hlinked') (Or.inr hlinked') h
  . split at h
    . exact happended.linked_checkTime hworks hlinks hlinked' h
    . injection h with h
      rw [← h]
      exact hlinked'

theorem Runs.linked_step (hworks : system.Works) (hlinks : Links system settings)
    (hruns : Runs system settings limit messages s) (hlinked : Linked s) {call : Call}
    (h : s.step system settings call = some s') : Linked s' := by
  cases call with
  | append data => exact hruns.linked_appendUnLocked hworks hlinks hlinked h
  | flush => exact linked_flushFile h hlinked

theorem links_exampleSettings : Links exampleSystem exampleSettings where
  access := fun _ => rfl
  unlinkLink := fun _ => rfl
  symlink := fun _ => rfl
  resolve := fun _ => resolve_getLogFileName (Or.inr rfl) _

end Rolling
end LogFile
end Claire
