import ClaireCommon.Strings.Lemmas.StringPiece
import ClaireCommon.Symbolizer.Impl.Read
import ClaireCommon.Symbolizer.PathText

/-!
This module contains the proof that a path can be made of any pieces that can be read, and what its
parts say.
-/

namespace Claire
namespace Dwarf

open Separators Traced

variable {env : Env}

def Readable (env : Env) (s : StringPiece) : Prop := ∃ text, s.Covers env text

theorem readable_null : Readable env .null := ⟨[], trivial, rfl⟩

theorem slash_eq : slash = 0x2f := rfl

theorem skipSlashes_eq {p : Ptr} {n : Nat} {rest : List UInt8}
    (h : env.Holds p (List.replicate n slash ++ rest)) (hrest : rest.head? ≠ some slash)
    : (skipSlashes env p (n + rest.length)).result = .ok (p.add n) := by
  induction n generalizing p with
  | zero =>
    cases rest with
    | nil => rfl
    | cons byte rest =>
      have hne : byte ≠ 0x2f := by
        intro heq
        rw [heq] at hrest
        exact hrest rfl
      rw [Nat.zero_add, List.length_cons]
      unfold skipSlashes
      rw [result_bind_of_ok (Env.peek_eq_ok.mpr h.1), if_neg hne]
      rfl
  | succ n ih =>
    rw [Nat.add_right_comm]
    unfold skipSlashes
    rw [result_bind_of_ok (Env.peek_eq_ok.mpr h.1), if_pos slash_eq, ih h.2, Ptr.add_add, Nat.add_comm]

theorem dropSlashes_eq {p : Ptr} {n : Nat} {body : List UInt8}
    (h : env.Holds p (body ++ List.replicate n slash)) (hbody : body.getLast? ≠ some slash)
    : (dropSlashes env p (body.length + n)).result = .ok (p.add body.length) := by
  induction n with
  | zero =>
    cases hlength : body.length with
    | zero => rfl
    | succ k =>
      have hbyte := List.getElem?_eq_getElem (l := body) (i := k) (by omega)
      have hne : body[k] ≠ 0x2f := by
        intro heq
        rw [List.getLast?_eq_getElem?, hlength, Nat.add_sub_cancel, hbyte, heq] at hbody
        exact hbody rfl
      have hholds := (Env.holds_append.mp h).1
      unfold dropSlashes
      rw [result_bind_of_ok (Env.peek_eq_ok.mpr (hholds.getElem? hbyte)), if_neg hne]
      rfl
  | succ n ih =>
    have hsplit : body ++ List.replicate (n + 1) slash
        = (body ++ List.replicate n slash) ++ [slash] := by
      rw [List.replicate_succ', List.append_assoc]
    rw [hsplit, Env.holds_append] at h
    have hbyte := h.2.1
    rw [List.length_append, List.length_replicate] at hbyte
    rw [← Nat.add_assoc]
    unfold dropSlashes
    rw [result_bind_of_ok (Env.peek_eq_ok.mpr hbyte), if_pos slash_eq]
    exact ih h.1

theorem covers_assign {p : Ptr} {text : List UInt8} (h : env.Holds p text)
    : (StringPiece.assign p (p.add text.length)).Covers env text where
  holds := h
  size := StringPiece.distance_add p h.length_lt

-- The last of the slashes in front of the text stays.
theorem covers_assign_slash {p : Ptr} {n : Nat} {text : List UInt8}
    (h : env.Holds p (List.replicate (n + 1) slash ++ text))
    : (StringPiece.assign (p.add n) ((p.add (n + 1)).add text.length)).Covers env (slash :: text) := by
  have hstop : (p.add (n + 1)).add text.length = (p.add n).add (slash :: text).length := by
    rw [Ptr.add_add, Ptr.add_add, List.length_cons, Nat.add_right_comm, Nat.add_assoc]
  rw [List.replicate_succ', List.append_assoc, Env.holds_append, List.length_replicate] at h
  rw [hstop]
  exact covers_assign h.2

theorem stripSlashes_covers {s : StringPiece} {text : List UInt8} (h : s.Covers env text)
    (keepInitialSlash : Bool)
    : ∃ s', (stripSlashes env s keepInitialSlash).result = .ok s'
        ∧ s'.Covers env (strip keepInitialSlash text) := by
  have ⟨n, hn⟩ := exists_leading slash text
  have ⟨k, hk⟩ := exists_trailing slash (dropLeading slash text)
  have hhead := head?_dropLeading_ne slash text
  have hlast := getLast?_dropTrailing_ne slash (dropLeading slash text)
  have hholds := h.holds
  have hsize := h.size
  rw [hn] at hholds hsize
  rw [List.length_append, List.length_replicate] at hsize
  have hrest := (Env.holds_append.mp hholds).2
  rw [List.length_replicate] at hrest
  unfold stripSlashes
  split
  . next hempty =>
    have hnil : text = [] := by
      rw [StringPiece.isEmpty, h.size] at hempty
      simpa using hempty
    refine ⟨s, rfl, ?_⟩
    rw [hnil] at h ⊢
    cases keepInitialSlash <;> exact h
  . have hskip := skipSlashes_eq hholds hhead
    rw [hsize, result_bind_of_ok hskip]
    have hbehind : s.stop.offset - (s.data.add n).offset
        = (dropTrailing slash (dropLeading slash text)).length + k := by
      have hlength := congrArg List.length hk
      rw [List.length_append, List.length_replicate] at hlength
      simp only [StringPiece.stop, Ptr.offset_add]
      omega
    generalize hbody : dropLeading slash text = body at *
    rw [hk] at hrest
    have hdrop := dropSlashes_eq hrest hlast
    rw [hbehind, result_bind_of_ok hdrop]
    have hstripped := (Env.holds_append.mp hrest).1
    refine ⟨_, rfl, ?_⟩
    unfold strip trim
    rw [hbody]
    cases n with
    | zero =>
      have hrelative : ¬IsAbsolute text := by
        rw [hn]
        exact hhead
      rw [if_neg (by simp [Ptr.add]), if_neg (by simp [hrelative])]
      exact covers_assign hstripped
    | succ n =>
      -- One of the slashes in front of the text may stay.
      have habsolute : IsAbsolute text := by
        rw [hn]
        rfl
      have hmoved : s.data.add (n + 1) ≠ s.data := by
        intro heq
        have := congrArg Ptr.offset heq
        rw [Ptr.offset_add] at this
        omega
      cases keepInitialSlash with
      | false =>
        rw [if_neg (by simp), if_neg (by simp)]
        exact covers_assign hstripped
      | true =>
        rw [hk, ← List.append_assoc] at hholds
        rw [if_pos ⟨rfl, hmoved⟩, if_pos ⟨rfl, habsolute⟩]
        exact covers_assign_slash (Env.holds_append.mp hholds).1

namespace Path

structure Covers (env : Env) (path : Path) (t : PathText) : Prop where
  baseDir : path.baseDir.Covers env t.baseDir
  subDir : path.subDir.Covers env t.subDir
  file : path.file.Covers env t.file

variable {path : Path} {t : PathText}

theorem covers_null : StringPiece.null.Covers env [] := ⟨trivial, rfl⟩

theorem isEmpty_eq {s : StringPiece} {text : List UInt8} (h : s.Covers env text)
    : s.isEmpty = decide (text = []) := by
  unfold StringPiece.isEmpty
  simp only [h.size, List.length_eq_zero_iff]

theorem startsWithSlash_eq {s : StringPiece} {text : List UInt8} (h : s.Covers env text)
    (hne : text ≠ []) : (startsWithSlash env s).result = .ok (decide (IsAbsolute text)) := by
  cases text with
  | nil => contradiction
  | cons byte text =>
    unfold startsWithSlash
    rw [result_bind_of_ok (Env.peek_eq_ok.mpr h.holds.1)]
    simp [IsAbsolute, slash]

theorem isAbsolute_eq {s : StringPiece} {text : List UInt8} (h : s.Covers env text)
    : (isAbsolute env s).result = .ok (decide (IsAbsolute text)) := by
  unfold isAbsolute
  rw [isEmpty_eq h]
  by_cases hnil : text = []
  . rw [hnil]
    rfl
  . simp only [hnil, decide_false, Bool.false_eq_true, ↓reduceIte]
    exact startsWithSlash_eq h hnil

theorem Covers.clearDirs (h : path.Covers env t)
    : (path.clearDirs (decide (IsAbsolute t.file))).Covers env t.clearDirs := by
  unfold Path.clearDirs PathText.clearDirs
  by_cases habsolute : IsAbsolute t.file
  . simp only [habsolute, decide_true, ↓reduceIte]
    exact ⟨covers_null, covers_null, h.file⟩
  . simp only [habsolute, decide_false, Bool.false_eq_true, ↓reduceIte]
    exact h

theorem Covers.clearBaseDir (h : path.Covers env t)
    : (path.clearBaseDir (decide (IsAbsolute t.subDir))).Covers env t.clearBaseDir := by
  unfold Path.clearBaseDir PathText.clearBaseDir
  by_cases habsolute : IsAbsolute t.subDir
  . simp only [habsolute, decide_true, ↓reduceIte]
    exact ⟨covers_null, h.subDir, h.file⟩
  . simp only [habsolute, decide_false, Bool.false_eq_true, ↓reduceIte]
    exact h

theorem Covers.fillBaseDir (h : path.Covers env t) : path.fillBaseDir.Covers env t.fillBaseDir := by
  unfold Path.fillBaseDir PathText.fillBaseDir
  rw [isEmpty_eq h.baseDir]
  by_cases hempty : t.baseDir = []
  . simp only [hempty, decide_true, ↓reduceIte]
    exact ⟨h.subDir, hempty ▸ h.baseDir, h.file⟩
  . simp only [hempty, decide_false, Bool.false_eq_true, ↓reduceIte]
    exact h

theorem normalize_covers (h : path.Covers env t) (hne : t.file ≠ [])
    : ∃ path', (normalize env path).result = .ok path'
        ∧ path'.Covers env t.clearDirs.clearBaseDir.fillBaseDir := by
  unfold normalize
  rw [result_bind_of_ok (startsWithSlash_eq h.file hne)]
  dsimp only
  rw [result_bind_of_ok (isAbsolute_eq h.clearDirs.subDir)]
  exact ⟨_, rfl, h.clearDirs.clearBaseDir.fillBaseDir⟩

theorem create_covers {baseDir subDir file : StringPiece}
    (h : Covers env ⟨baseDir, subDir, file⟩ t)
    : ∃ path, (create env baseDir subDir file).result = .ok path ∧ path.Covers env t.create := by
  unfold create PathText.create
  rw [isEmpty_eq h.file]
  by_cases hempty : t.file = []
  . simp only [hempty, decide_true, ↓reduceIte]
    exact ⟨_, rfl, covers_null, covers_null, hempty ▸ h.file⟩
  . simp only [hempty, decide_false, Bool.false_eq_true, ↓reduceIte]
    have ⟨path, hnormalize, hpath⟩ := normalize_covers h hempty
    rw [result_bind_of_ok hnormalize]
    have ⟨_, hstrip, hbaseDir⟩ := stripSlashes_covers hpath.baseDir true
    rw [result_bind_of_ok hstrip]
    have ⟨_, hstrip, hsubDir⟩ := stripSlashes_covers hpath.subDir false
    rw [result_bind_of_ok hstrip]
    have ⟨_, hstrip, hfile⟩ := stripSlashes_covers hpath.file false
    rw [result_bind_of_ok hstrip]
    exact ⟨_, rfl, hbaseDir, hsubDir, hfile⟩

theorem create_ok {baseDir subDir file : StringPiece} (hbaseDir : Readable env baseDir)
    (hsubDir : Readable env subDir) (hfile : Readable env file)
    : ∃ path, (create env baseDir subDir file).result = .ok path := by
  have ⟨baseDirText, hbaseDir⟩ := hbaseDir
  have ⟨subDirText, hsubDir⟩ := hsubDir
  have ⟨fileText, hfile⟩ := hfile
  have h : Covers env ⟨baseDir, subDir, file⟩ ⟨baseDirText, subDirText, fileText⟩ :=
    ⟨hbaseDir, hsubDir, hfile⟩
  have ⟨path, hcreate, _⟩ := create_covers h
  exact ⟨path, hcreate⟩

end Path
end Dwarf
end Claire
