import ClaireCommon.Symbolizer.Lemmas.PathRendering

/-!
This module contains when a path stands for the file name that its parts resolve to: always, but for
a relative file without any directory, which becomes absolute.
-/

namespace Claire
namespace Dwarf

open Separators Traced

variable {env : Env} {text before after part file : List UInt8}

theorem strip_of_relative (h : ¬IsAbsolute text) (keepInitialSlash : Bool)
    : strip keepInitialSlash text = dropTrailing slash text := by
  unfold strip trim
  rw [if_neg (by simp [h]), dropLeading_eq_self h]

theorem isAbsolute_append (h : part ≠ []) : IsAbsolute (part ++ after) ↔ IsAbsolute part := by
  cases part with
  | nil => contradiction
  | cons c part => exact Iff.rfl

theorem not_isAbsolute_nil : ¬IsAbsolute [] := by decide

theorem isAbsolute_strip : IsAbsolute (strip true text) ↔ IsAbsolute text := by
  by_cases habsolute : IsAbsolute text
  . unfold strip
    rw [if_pos ⟨rfl, habsolute⟩]
    exact ⟨fun _ => habsolute, fun _ => rfl⟩
  . rw [strip_of_relative habsolute]
    cases text with
    | nil => exact Iff.rfl
    | cons c text =>
      rw [dropTrailing_cons]
      split
      . split
        . next heq =>
          rw [heq] at habsolute
          exact absurd rfl habsolute
        . exact Iff.rfl
      . exact Iff.rfl

theorem collapse_slash_trim (before part after : List UInt8)
    : collapse slash (before ++ slash :: (trim slash part ++ slash :: after))
        = collapse slash (before ++ slash :: (part ++ slash :: after)) := by
  have hdrop := @collapse_dropTrailing _ _ slash (before ++ [slash]) (dropLeading slash part) after
  simp only [List.append_assoc, List.nil_append, List.cons_append] at hdrop
  unfold trim
  rw [hdrop, collapse_dropLeading]

theorem collapse_strip (before part after : List UInt8)
    : collapse slash (before ++ strip true part ++ slash :: after)
        = collapse slash (before ++ part ++ slash :: after) := by
  by_cases habsolute : IsAbsolute part
  . cases part with
    | nil => exact absurd habsolute not_isAbsolute_nil
    | cons c part =>
      have hc : c = slash := Option.some.inj habsolute
      have hlead : trim slash (slash :: part) = trim slash part := by
        simp [trim, dropLeading]
      unfold strip
      rw [if_pos ⟨rfl, habsolute⟩, hc, hlead]
      simp only [List.append_assoc, List.cons_append]
      exact collapse_slash_trim before part after
  . rw [strip_of_relative habsolute, collapse_dropTrailing]

theorem canonical_strip_file (before : List UInt8) (h : ¬IsAbsolute file)
    : canonical slash (before ++ slash :: strip false file)
        = canonical slash (before ++ slash :: file) := by
  have hdrop := @canonical_dropTrailing _ _ slash (before ++ [slash]) file
  simp only [List.append_assoc, List.singleton_append] at hdrop
  rw [strip_of_relative h, hdrop]

theorem canonical_absolute_file (h : IsAbsolute file)
    : canonical slash (slash :: strip false file) = canonical slash file := by
  cases file with
  | nil => exact absurd h not_isAbsolute_nil
  | cons c file =>
    have hc : c = slash := Option.some.inj h
    have hlead : trim slash (slash :: file) = trim slash file := by
      simp [trim, dropLeading]
    have hdrop := @canonical_dropTrailing _ _ slash [slash] (dropLeading slash file)
    have hcollapse := @collapse_dropLeading _ _ slash [] file []
    simp only [List.nil_append, List.append_nil] at hcollapse
    unfold strip
    rw [if_neg (by simp), hc, hlead]
    unfold trim
    rw [← List.singleton_append, hdrop, List.singleton_append]
    unfold canonical
    rw [hcollapse]

theorem canonical_dir_file (dir : List UInt8) (h : ¬IsAbsolute file)
    : canonical slash (strip true dir ++ slash :: strip false file)
        = canonical slash (dir ++ slash :: file) := by
  rw [canonical_strip_file _ h]
  unfold canonical
  have hstrip := collapse_strip [] dir file
  rw [List.nil_append, List.nil_append] at hstrip
  rw [hstrip]

theorem canonical_dirs_file (baseDir : List UInt8) {subDir : List UInt8} (hsub : ¬IsAbsolute subDir)
    (h : ¬IsAbsolute file)
    : canonical slash
          (strip true baseDir ++ slash :: (strip false subDir ++ slash :: strip false file))
        = canonical slash (baseDir ++ slash :: (subDir ++ slash :: file)) := by
  have hstrip : strip false subDir = strip true subDir := by
    rw [strip_of_relative hsub, strip_of_relative hsub]
  have hfile := canonical_strip_file (strip true baseDir ++ slash :: strip true subDir) h
  have hsubDir := collapse_strip (strip true baseDir ++ [slash]) subDir file
  have hbaseDir := collapse_strip [] baseDir (subDir ++ slash :: file)
  simp only [List.append_assoc, List.cons_append, List.nil_append] at hfile hsubDir hbaseDir
  rw [hstrip, hfile]
  unfold canonical
  rw [hsubDir, hbaseDir]

namespace PathText

variable {t : PathText}

structure Resolves (t : PathText) (text : List UInt8) : Prop where
  canonical : canonical slash text = canonical slash t.resolve
  absolute : IsAbsolute text ↔ IsAbsolute t.file ∨ IsAbsolute t.subDir ∨ IsAbsolute t.baseDir

theorem strip_file_ne_nil (h : ∃ c ∈ file, c ≠ slash) : strip false file ≠ [] := by
  unfold strip
  rw [if_neg (by simp)]
  exact trim_ne_nil h

theorem file_ne_nil (h : ∃ c ∈ t.file, c ≠ slash) : t.file ≠ [] := by
  have ⟨c, hc, _⟩ := h
  exact List.ne_nil_of_mem hc

inductive Created (t : PathText) : Prop
  | absoluteFile (hfile : IsAbsolute t.file)
      (hrender : t.create.render = slash :: strip false t.file)
  | absoluteSubDir (hfile : ¬IsAbsolute t.file) (hsubDir : IsAbsolute t.subDir)
      (hrender : t.create.render = strip true t.subDir ++ slash :: strip false t.file)
  | noBaseDir (hfile : ¬IsAbsolute t.file) (hsubDir : ¬IsAbsolute t.subDir)
      (hbaseDir : t.baseDir = [])
      (hrender : t.create.render = strip true t.subDir ++ slash :: strip false t.file)
  | noSubDir (hfile : ¬IsAbsolute t.file) (hsubDir : t.subDir = []) (hbaseDir : t.baseDir ≠ [])
      (hrender : t.create.render = strip true t.baseDir ++ slash :: strip false t.file)
  | both (hfile : ¬IsAbsolute t.file) (hsubDir : ¬IsAbsolute t.subDir) (hne : t.subDir ≠ [])
      (hbaseDir : t.baseDir ≠ [])
      (hrender : t.create.render
        = strip true t.baseDir ++ slash :: (strip false t.subDir ++ slash :: strip false t.file))

theorem render_stripParts (baseDir subDir : List UInt8) (h : ∃ c ∈ file, c ≠ slash)
    : (stripParts ⟨baseDir, subDir, file⟩).render
        = strip true baseDir ++ slashed (strip false subDir) ++ slash :: strip false file := by
  unfold render stripParts
  dsimp only
  rw [slashed.eq_def (strip false file), if_neg (strip_file_ne_nil h)]

theorem render_stripParts_dir (dir : List UInt8) (h : ∃ c ∈ file, c ≠ slash)
    : (stripParts ⟨dir, [], file⟩).render = strip true dir ++ slash :: strip false file := by
  rw [render_stripParts dir [] h, strip_nil, slashed, if_pos rfl, List.append_nil]

theorem created (h : ∃ c ∈ t.file, c ≠ slash) : t.Created := by
  have hcreate : t.create = t.clearDirs.clearBaseDir.fillBaseDir.stripParts := if_neg (file_ne_nil h)
  by_cases hfile : IsAbsolute t.file
  . apply Created.absoluteFile hfile
    have hparts : t.clearDirs.clearBaseDir.fillBaseDir = ⟨[], [], t.file⟩ := by
      simp [clearDirs, clearBaseDir, fillBaseDir, hfile]
    rw [hcreate, hparts, render_stripParts_dir [] h]
    rfl
  . have hdirs : t.clearDirs = t := if_neg hfile
    rw [hdirs] at hcreate
    by_cases hsubDir : IsAbsolute t.subDir
    . apply Created.absoluteSubDir hfile hsubDir
      have hparts : t.clearBaseDir.fillBaseDir = ⟨t.subDir, [], t.file⟩ := by
        simp [clearBaseDir, fillBaseDir, hsubDir]
      rw [hcreate, hparts, render_stripParts_dir t.subDir h]
    . have hsame : t.clearBaseDir = t := if_neg hsubDir
      rw [hsame] at hcreate
      by_cases hbaseDir : t.baseDir = []
      . apply Created.noBaseDir hfile hsubDir hbaseDir
        have hparts : t.fillBaseDir = ⟨t.subDir, [], t.file⟩ := by
          simp [fillBaseDir, hbaseDir]
        rw [hcreate, hparts, render_stripParts_dir t.subDir h]
      . have hparts : t.fillBaseDir = t := if_neg hbaseDir
        rw [hparts] at hcreate
        by_cases hne : t.subDir = []
        . apply Created.noSubDir hfile hne hbaseDir
          have hparts' : t = ⟨t.baseDir, [], t.file⟩ := by rw [← hne]
          rw [hcreate, hparts', render_stripParts_dir t.baseDir h]
        . apply Created.both hfile hsubDir hne hbaseDir
          have hstrip : strip false t.subDir ≠ [] := by
            have := strip_ne_nil hne
            rwa [strip_of_relative hsubDir] at this ⊢
          have hrender := render_stripParts t.baseDir t.subDir h
          rw [slashed, if_neg hstrip, List.append_assoc] at hrender
          rw [hcreate]
          exact hrender

-- A path without directories does not start with a slash, and still gets one.
theorem not_resolves_of_relative (h : ∃ c ∈ t.file, c ≠ slash) (hbaseDir : t.baseDir = [])
    (hsubDir : t.subDir = []) (hfile : ¬IsAbsolute t.file) : ¬t.Resolves t.create.render := by
  intro hresolves
  have hcreate : t.create = stripParts ⟨[], [], t.file⟩ := by
    simp [create, file_ne_nil h, clearDirs, clearBaseDir, fillBaseDir, hfile, hbaseDir, hsubDir,
      not_isAbsolute_nil]
  have habsolute : IsAbsolute t.create.render := by
    rw [hcreate, render_stripParts_dir [] h]
    rfl
  have hpart := hresolves.absolute.mp habsolute
  rw [hbaseDir, hsubDir] at hpart
  simp only [hfile, not_isAbsolute_nil, or_self] at hpart

theorem resolves_of_nonempty (h : ∃ c ∈ t.file, c ≠ slash)
    (hparts : ¬(t.baseDir = [] ∧ t.subDir = [] ∧ ¬IsAbsolute t.file))
    : t.Resolves t.create.render := by
  cases created h with
  | absoluteFile hfile hrender =>
    rw [hrender]
    constructor
    . rw [canonical_absolute_file hfile, resolve, if_pos hfile]
    . exact ⟨fun _ => Or.inl hfile, fun _ => rfl⟩
  | absoluteSubDir hfile hsubDir hrender =>
    have hne : t.subDir ≠ [] := by
      intro hempty
      rw [hempty] at hsubDir
      exact not_isAbsolute_nil hsubDir
    rw [hrender]
    constructor
    . rw [canonical_dir_file _ hfile, resolve, if_neg hfile, if_pos hsubDir, joined, if_neg hne]
    . rw [isAbsolute_append (strip_ne_nil hne), isAbsolute_strip]
      exact ⟨fun _ => Or.inr (Or.inl hsubDir), fun _ => hsubDir⟩
  | noBaseDir hfile hsubDir hbaseDir hrender =>
    have hne : t.subDir ≠ [] := fun hempty => hparts ⟨hbaseDir, hempty, hfile⟩
    rw [hrender]
    constructor
    . rw [canonical_dir_file _ hfile, resolve, if_neg hfile, if_neg hsubDir, hbaseDir, joined,
        if_pos rfl, joined, if_neg hne]
    . rw [isAbsolute_append (strip_ne_nil hne), isAbsolute_strip, hbaseDir]
      simp only [hfile, hsubDir, not_isAbsolute_nil, or_self]
  | noSubDir hfile hsubDir hbaseDir hrender =>
    have hsub : ¬IsAbsolute t.subDir := by
      rw [hsubDir]
      exact not_isAbsolute_nil
    rw [hrender]
    constructor
    . rw [canonical_dir_file _ hfile, resolve, if_neg hfile, if_neg hsub, joined, if_neg hbaseDir,
        joined, if_pos hsubDir]
    . rw [isAbsolute_append (strip_ne_nil hbaseDir), isAbsolute_strip]
      simp only [hfile, hsub, false_or]
  | both hfile hsubDir hne hbaseDir hrender =>
    rw [hrender]
    constructor
    . rw [canonical_dirs_file _ hsubDir hfile, resolve, if_neg hfile, if_neg hsubDir, joined,
        if_neg hbaseDir, joined, if_neg hne]
    . rw [isAbsolute_append (strip_ne_nil hbaseDir), isAbsolute_strip]
      simp only [hfile, hsubDir, false_or]

theorem resolves_iff (h : ∃ c ∈ t.file, c ≠ slash)
    : t.Resolves t.create.render
        ↔ ¬(t.baseDir = [] ∧ t.subDir = [] ∧ ¬IsAbsolute t.file) := by
  constructor
  . intro hresolves ⟨hbaseDir, hsubDir, hfile⟩
    exact not_resolves_of_relative h hbaseDir hsubDir hfile hresolves
  . exact resolves_of_nonempty h

end PathText

namespace Path

variable {baseDir subDir file : StringPiece} {t : PathText} {path : Path}

theorem toString_resolves_iff (h : Covers env ⟨baseDir, subDir, file⟩ t)
    (hfile : ∃ c ∈ t.file, c ≠ slash)
    (hcreate : (create env baseDir subDir file).result = .ok path)
    (htoString : (path.toString env []).result = .ok (some text))
    : t.Resolves text ↔ ¬(t.baseDir = [] ∧ t.subDir = [] ∧ ¬IsAbsolute t.file) := by
  have ⟨path', hcreate', hpath⟩ := create_covers h
  rw [hcreate] at hcreate'
  injection hcreate' with hcreate'
  rw [← hcreate'] at hpath
  rw [toString_eq hpath t.hasBaseDir_create (Nat.zero_le _)] at htoString
  injection htoString with htoString
  have htext := (fitting_eq_some htoString).1
  rw [List.nil_append] at htext
  rw [htext]
  exact PathText.resolves_iff hfile

-- The file is `a.c`, the directories are `/usr/` and `src`.
theorem toString_resolves_iff_example
    : PathText.Resolves ⟨[0x2f, 0x75, 0x73, 0x72, 0x2f], [0x73, 0x72, 0x63], [0x61, 0x2e, 0x63]⟩
          [0x2f, 0x75, 0x73, 0x72, 0x2f, 0x73, 0x72, 0x63, 0x2f, 0x61, 0x2e, 0x63]
        ↔ ¬(([0x2f, 0x75, 0x73, 0x72, 0x2f] : List UInt8) = []
          ∧ ([0x73, 0x72, 0x63] : List UInt8) = [] ∧ ¬IsAbsolute [0x61, 0x2e, 0x63]) := by
  have h : Covers pathEnv
      ⟨⟨⟨.debugStr, 0⟩, 5⟩, ⟨⟨.debugStr, 5⟩, 3⟩, ⟨⟨.debugStr, 8⟩, 3⟩⟩
      ⟨[0x2f, 0x75, 0x73, 0x72, 0x2f], [0x73, 0x72, 0x63], [0x61, 0x2e, 0x63]⟩ :=
    ⟨⟨by decide, rfl⟩, ⟨by decide, rfl⟩, ⟨by decide, rfl⟩⟩
  exact toString_resolves_iff h ⟨0x61, by decide, by decide⟩ rfl rfl

-- A relative file alone, `a.c`, becomes `/a.c`.
theorem toString_not_resolves
    : (create pathEnv .null .null ⟨⟨.debugStr, 8⟩, 3⟩).result
          = .ok ⟨.null, .null, ⟨⟨.debugStr, 8⟩, 3⟩⟩
        ∧ ((⟨.null, .null, ⟨⟨.debugStr, 8⟩, 3⟩⟩ : Path).toString pathEnv []).result
          = .ok (some [0x2f, 0x61, 0x2e, 0x63])
        ∧ ¬PathText.Resolves ⟨[], [], [0x61, 0x2e, 0x63]⟩ [0x2f, 0x61, 0x2e, 0x63] := by
  refine ⟨rfl, rfl, ?_⟩
  intro h
  have hpart := h.absolute.mp rfl
  revert hpart
  decide

end Path
end Dwarf
end Claire
