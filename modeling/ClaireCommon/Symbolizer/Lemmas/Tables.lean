import ClaireCommon.Symbolizer.LineProgram

/-!
This module contains the tables of directories and files: what the loops of `Init` accept is a table,
and `GetIncludeDirectory` and `GetFileName` find its entries again.
-/

namespace Claire
namespace Dwarf
namespace LineNumberVM

open Bytes Traced

variable {env : Env}

theorem directoryTable_of_loop {fuel count count' : Nat} {s s' : StringPiece} (hsize : s.size < 2 ^ 64)
    (h : (loop .stuck (skipDirectoriesRound env) fuel (count, s)).result = .ok (count', s'))
    : ∃ dirs bytes, DirectoryTable dirs bytes ∧ env.Holds s.data bytes
        ∧ count' = count + dirs.length ∧ s'.data = s.data.add bytes.length ∧ s'.size ≤ s.size := by
  induction fuel generalizing count s with
  | zero => contradiction
  | succ fuel ih =>
    have hround : ∀ x, (skipDirectoriesRound env (count, s)).result = .ok x →
        ∃ text, Terminated env s.data text ∧ x = if text = [] then
            .inr (count, ⟨s.data.add 1, s.size - 1⟩)
          else
            .inl (count + 1, ⟨s.data.add (text.length + 1), s.size - (text.length + 1)⟩) := by
      intro x hx
      unfold skipDirectoriesRound at hx
      rw [bind_eq_ok] at hx
      have ⟨⟨ret, rest⟩, hread, hx⟩ := hx
      have ⟨text, htext, hlen, hret, hrest⟩ := (readNullTerminated_eq_ok hsize).mp hread
      subst hret hrest
      injection hx with hx
      refine ⟨text, htext, ?_⟩
      rw [← hx]
      cases text <;> simp [StringPiece.isEmpty]
    cases loop_eq_ok h with
    | inl hleave =>
      have ⟨text, htext, hx⟩ := hround _ hleave
      split at hx
      next hempty =>
        subst hempty
        injection hx with hx
        injection hx with hcount hs
        subst hs
        refine ⟨[], [0], DirectoryTable.nil, htext.holds, by simpa using hcount, rfl, ?_⟩
        exact Nat.sub_le _ _
      next => contradiction
    | inr hcontinue =>
      have ⟨state, hcontinue, hrest⟩ := hcontinue
      have ⟨text, htext, hx⟩ := hround _ hcontinue
      split at hx
      next => contradiction
      next hne =>
        injection hx with hx
        subst hx
        have hsize' : s.size - (text.length + 1) < 2 ^ 64 := by omega
        have ⟨dirs, bytes, htable, hbytes, hcount, hdata, hle⟩ := ih hsize' hrest
        refine ⟨text :: dirs, text ++ [0] ++ bytes, htable.cons hne htext.nonzero, ?_, ?_, ?_, ?_⟩
        . rw [Env.holds_append]
          exact ⟨htext.holds, by simpa using hbytes⟩
        . rw [hcount, List.length_cons]
          omega
        . rw [hdata, Ptr.add_add, List.length_append, List.length_append, List.length_singleton]
        . dsimp only at hle
          omega

theorem readFileName_eq_ok {s s' : StringPiece} {fn : Option FileName} (hsize : s.size < 2 ^ 64)
    (h : (readFileName env s).result = .ok (fn, s'))
    : (env.Holds s.data [0] ∧ fn = none ∧ s' = ⟨s.data.add 1, s.size - 1⟩)
        ∨ ∃ entry bytes, FileEntry.Encodes entry bytes ∧ env.Holds s.data bytes
            ∧ fn = some ⟨⟨s.data, entry.name.length⟩, entry.directoryIndex⟩
            ∧ s' = ⟨s.data.add bytes.length, s.size - (entry.name.length + 1)⟩ := by
  unfold readFileName at h
  rw [bind_eq_ok] at h
  have ⟨⟨ret, rest⟩, hread, h⟩ := h
  have ⟨name, hname, hlen, hret, hrest⟩ := (readNullTerminated_eq_ok hsize).mp hread
  subst hret hrest
  dsimp only at h
  split at h
  next hempty =>
    left
    have hnil : name = [] := by simpa [StringPiece.isEmpty] using hempty
    subst hnil
    injection h with h
    injection h with hfn hs
    exact ⟨hname.holds, hfn.symm, hs.symm⟩
  next hne =>
    right
    rw [bind_eq_ok] at h
    have ⟨⟨index, s1⟩, hindex, h⟩ := h
    rw [bind_eq_ok] at h
    have ⟨⟨time, s2⟩, htime, h⟩ := h
    rw [bind_eq_ok] at h
    have ⟨⟨length, s3⟩, hlength, h⟩ := h
    have ⟨_, _, indexBytes, hindexLeb, hindexHolds, hvalue, hs1⟩ := readULEB_eq_ok.mp hindex
    subst hvalue hs1
    have ⟨_, _, timeBytes, htimeLeb, htimeHolds, _, hs2⟩ := readULEB_eq_ok.mp htime
    subst hs2
    have ⟨_, _, lengthBytes, hlengthLeb, hlengthHolds, _, hs3⟩ := readULEB_eq_ok.mp hlength
    subst hs3
    injection h with h
    injection h with hfn hs
    have hnotnil : name ≠ [] := by
      intro hnil
      rw [hnil] at hne
      contradiction
    refine ⟨⟨name, unsigned indexBytes % 2 ^ 64⟩, name ++ [0] ++ indexBytes ++ timeBytes ++ lengthBytes,
      ?_, ?_, hfn.symm, ?_⟩
    . exact FileEntry.Encodes.mk hnotnil hname.nonzero hindexLeb htimeLeb hlengthLeb
    . simp only [Env.holds_append, List.length_append, List.length_singleton]
      simp only [Ptr.add_add] at *
      exact ⟨⟨⟨Env.holds_append.mp hname.holds, hindexHolds⟩, htimeHolds⟩, hlengthHolds⟩
    . rw [← hs]
      simp only [Ptr.add_add, List.length_append, List.length_singleton]

theorem fileTable_of_loop {fuel count count' : Nat} {s s' : StringPiece} (hsize : s.size < 2 ^ 64)
    (h : (loop .stuck (skipFileNamesRound env) fuel (count, s)).result = .ok (count', s'))
    : ∃ entries bytes, FileTable entries bytes ∧ env.Holds s.data bytes
        ∧ count' = count + entries.length ∧ s'.data = s.data.add bytes.length := by
  induction fuel generalizing count s with
  | zero => contradiction
  | succ fuel ih =>
    cases loop_eq_ok h with
    | inl hleave =>
      unfold skipFileNamesRound at hleave
      rw [bind_eq_ok] at hleave
      have ⟨⟨fn, rest⟩, hread, hleave⟩ := hleave
      cases readFileName_eq_ok hsize hread with
      | inl hend =>
        have ⟨hbytes, hfn, hrest⟩ := hend
        subst hfn hrest
        injection hleave with hleave
        injection hleave with hleave
        injection hleave with hcount hs
        subst hs
        exact ⟨[], [0], FileTable.nil, hbytes, hcount.symm, rfl⟩
      | inr hentry =>
        have ⟨_, _, _, _, hfn, _⟩ := hentry
        subst hfn
        simp at hleave
    | inr hcontinue =>
      have ⟨state, hcontinue, hrest⟩ := hcontinue
      unfold skipFileNamesRound at hcontinue
      rw [bind_eq_ok] at hcontinue
      have ⟨⟨fn, rest⟩, hread, hcontinue⟩ := hcontinue
      cases readFileName_eq_ok hsize hread with
      | inl hend =>
        have ⟨_, hfn, _⟩ := hend
        subst hfn
        simp at hcontinue
      | inr hentry =>
        have ⟨entry, first, hencodes, hfirst, hfn, hs⟩ := hentry
        subst hfn hs
        injection hcontinue with hcontinue
        injection hcontinue with hcontinue
        subst hcontinue
        have hsize' : s.size - (entry.name.length + 1) < 2 ^ 64 := by omega
        have ⟨entries, bytes, htable, hbytes, hcount, hdata⟩ := ih hsize' hrest
        refine ⟨entry :: entries, first ++ bytes, htable.cons hencodes, ?_, ?_, ?_⟩
        . rw [Env.holds_append]
          exact ⟨hfirst, hbytes⟩
        . rw [hcount, List.length_cons]
          omega
        . rw [hdata, Ptr.add_add, List.length_append]

theorem readFileName_of_encodes {entry : FileEntry} {bytes : List UInt8} {s : StringPiece}
    (h : entry.Encodes bytes) (hbytes : env.Holds s.data bytes) (hlen : bytes.length < s.size)
    (hsize : s.size < 2 ^ 64)
    : (readFileName env s).result = .ok (some ⟨⟨s.data, entry.name.length⟩, entry.directoryIndex⟩,
        ⟨s.data.add bytes.length, s.size - (entry.name.length + 1)⟩) := by
  cases h with
  | @mk name index time length hname hnonzero hindex htime hlength =>
    simp only [Env.holds_append, List.length_append, List.length_singleton] at hbytes hlen
    have ⟨⟨⟨hnameBytes, hindexBytes⟩, htimeBytes⟩, hlengthBytes⟩ := hbytes
    have := hindex.isLeb.length_pos
    have hread := (@readNullTerminated_eq_ok env s _ _ hsize).mpr
      ⟨name, ⟨Env.holds_append.mpr hnameBytes, hnonzero⟩, by omega, rfl, rfl⟩
    unfold readFileName
    rw [result_bind_of_ok hread]
    dsimp only
    rw [if_neg (by simpa [StringPiece.isEmpty] using hname)]
    rw [result_bind_of_ok (readULEB_of_holds hindex (by simpa using hindexBytes) (by dsimp only; omega))]
    dsimp only
    rw [result_bind_of_ok (readULEB_of_holds htime (by simpa using htimeBytes) (by dsimp only; omega))]
    dsimp only
    rw [result_bind_of_ok
      (readULEB_of_holds hlength (by simpa [Nat.add_assoc] using hlengthBytes) (by dsimp only; omega))]
    simp only [Ptr.add_add, List.length_append, List.length_singleton]
    rfl

theorem FileEntry.Encodes.length {entry : FileEntry} {bytes : List UInt8} (h : entry.Encodes bytes)
    : entry.name.length + 1 ≤ bytes.length := by
  cases h with
  | mk => simp only [List.length_append, List.length_singleton]; omega

theorem skipToFileName_of_fileTable {entries : List FileEntry} {bytes : List UInt8}
    (h : FileTable entries bytes) {s : StringPiece} (hbytes : env.Holds s.data bytes)
    (hlen : bytes.length ≤ s.size) (hsize : s.size < 2 ^ 64) {index : Nat} {entry : FileEntry}
    (hentry : entries[index]? = some entry) (fn : FileName)
    : ∃ name, StringPiece.Covers env name entry.name
        ∧ (skipToFileName env fn s (index + 1)).result = .ok ⟨name, entry.directoryIndex⟩ := by
  induction h generalizing s index fn with
  | nil => contradiction
  | @cons first entries firstBytes bytes hfirst rest ih =>
    have ⟨hfirstBytes, hrestBytes⟩ := Env.holds_append.mp hbytes
    rw [List.length_append] at hlen
    have hpos : 0 < bytes.length := by
      cases rest with
      | nil => simp
      | cons hsecond =>
        have := FileEntry.Encodes.length hsecond
        rw [List.length_append]
        omega
    have hle := FileEntry.Encodes.length hfirst
    have hread := readFileName_of_encodes hfirst hfirstBytes (by omega) hsize
    unfold skipToFileName
    rw [result_bind_of_ok hread]
    dsimp only
    cases index with
    | zero =>
      injection hentry with hentry
      subst hentry
      refine ⟨_, ?_, rfl⟩
      cases hfirst with
      | mk =>
        simp only [List.append_assoc, Env.holds_append] at hfirstBytes
        exact ⟨hfirstBytes.1, rfl⟩
    | succ index =>
      exact ih hrestBytes (by dsimp only; omega) (by dsimp only; omega) hentry _

theorem skipToDirectory_of_directoryTable {dirs : List (List UInt8)} {bytes : List UInt8}
    (h : DirectoryTable dirs bytes) {s : StringPiece} (hbytes : env.Holds s.data bytes)
    (hlen : bytes.length ≤ s.size) (hsize : s.size < 2 ^ 64) {index : Nat} {dir : List UInt8}
    (hdir : dirs[index]? = some dir) (previous : StringPiece)
    : ∃ piece, StringPiece.Covers env piece dir
        ∧ (skipToDirectory env previous s (index + 1)).result = .ok piece := by
  induction h generalizing s index previous with
  | nil => contradiction
  | @cons first bytes dirs hne hnonzero rest ih =>
    have ⟨hfirstBytes, hrestBytes⟩ := Env.holds_append.mp hbytes
    simp only [List.length_append, List.length_singleton] at hlen hrestBytes
    have hread := (@readNullTerminated_eq_ok env s _ _ hsize).mpr
      ⟨first, ⟨hfirstBytes, hnonzero⟩, by omega, rfl, rfl⟩
    unfold skipToDirectory
    rw [result_bind_of_ok hread]
    dsimp only
    rw [if_neg (by simpa [StringPiece.isEmpty] using hne)]
    cases index with
    | zero =>
      injection hdir with hdir
      subst hdir
      exact ⟨⟨s.data, first.length⟩, ⟨(Env.holds_append.mp hfirstBytes).1, rfl⟩, rfl⟩
    | succ index =>
      exact ih hrestBytes (by dsimp only; omega) (by dsimp only; omega) hdir _

end LineNumberVM
end Dwarf
end Claire
