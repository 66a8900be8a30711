import ClaireCommon.Symbolizer.Lemmas.AddressRanges
import ClaireCommon.Symbolizer.Lemmas.LineHeader

/-!
This module contains that `Init` accepts every header of the line number information.
-/

namespace Claire
namespace Dwarf
namespace LineNumberVM

open Bytes Traced

variable {env : Env}

theorem loop_skipDirectoriesRound {dirs : List (List UInt8)} {bytes : List UInt8}
    (htable : DirectoryTable dirs bytes) {s : StringPiece} {count fuel : Nat}
    (hbytes : env.Holds s.data bytes) (hlen : bytes.length ≤ s.size) (hsize : s.size < 2 ^ 64)
    (hfuel : bytes.length ≤ fuel)
    : (loop .stuck (skipDirectoriesRound env) fuel (count, s)).result
        = .ok (count + dirs.length, ⟨s.data.add bytes.length, s.size - bytes.length⟩) := by
  induction htable generalizing s count fuel with
  | nil =>
    have hread := (@readNullTerminated_eq_ok env s _ _ hsize).mpr
      ⟨[], ⟨hbytes, List.not_mem_nil⟩, hlen, rfl, rfl⟩
    have hround : (skipDirectoriesRound env (count, s)).result
        = .ok (.inr (count, ⟨s.data.add 1, s.size - 1⟩)) := by
      unfold skipDirectoriesRound
      dsimp only
      rw [result_bind_of_ok hread]
      rfl
    cases fuel with
    | zero => contradiction
    | succ fuel => exact loop_leave _ hround
  | @cons dir bytes dirs hdir hnonzero rest ih =>
    rw [List.length_append, List.length_append, List.length_singleton] at hlen hfuel
    rw [Env.holds_append, List.length_append, List.length_singleton] at hbytes
    have hread := (@readNullTerminated_eq_ok env s _ _ hsize).mpr
      ⟨dir, ⟨hbytes.1, hnonzero⟩, by omega, rfl, rfl⟩
    have hround : (skipDirectoriesRound env (count, s)).result
        = .ok (.inl (count + 1, ⟨s.data.add (dir.length + 1), s.size - (dir.length + 1)⟩)) := by
      unfold skipDirectoriesRound
      dsimp only
      rw [result_bind_of_ok hread]
      dsimp only
      rw [if_neg (by simpa [StringPiece.isEmpty] using hdir)]
      rfl
    cases fuel with
    | zero => omega
    | succ fuel =>
      rw [loop_continue _ hround]
      rw [@ih ⟨s.data.add (dir.length + 1), s.size - (dir.length + 1)⟩ _ _ hbytes.2 (by dsimp only; omega)
        (by dsimp only; omega) (by omega)]
      have hcount : count + 1 + dirs.length = count + (dirs.length + 1) := by omega
      simp only [Ptr.add_add, List.length_append, List.length_cons, List.length_nil, Nat.sub_sub, hcount]

theorem loop_skipFileNamesRound {entries : List FileEntry} {bytes : List UInt8}
    (htable : FileTable entries bytes) {s : StringPiece} {count fuel : Nat}
    (hbytes : env.Holds s.data bytes) (hlen : bytes.length < s.size) (hsize : s.size < 2 ^ 64)
    (hfuel : bytes.length ≤ fuel)
    : ∃ size, (loop .stuck (skipFileNamesRound env) fuel (count, s)).result
        = .ok (count + entries.length, ⟨s.data.add bytes.length, size⟩) := by
  induction htable generalizing s count fuel with
  | nil =>
    have hread := (@readNullTerminated_eq_ok env s _ _ hsize).mpr
      ⟨[], ⟨hbytes, List.not_mem_nil⟩, Nat.lt_trans Nat.one_pos hlen, rfl, rfl⟩
    have hround : (skipFileNamesRound env (count, s)).result
        = .ok (.inr (count, ⟨s.data.add 1, s.size - 1⟩)) := by
      unfold skipFileNamesRound readFileName
      dsimp only
      rw [bind_bind, result_bind_of_ok hread]
      rfl
    cases fuel with
    | zero => contradiction
    | succ fuel => exact ⟨_, loop_leave _ hround⟩
  | @cons entry entries first bytes hentry rest ih =>
    have hname := FileEntry.Encodes.length hentry
    rw [List.length_append] at hlen hfuel
    rw [Env.holds_append] at hbytes
    have hread := readFileName_of_encodes hentry hbytes.1 (by omega) hsize
    have hround : (skipFileNamesRound env (count, s)).result = .ok (.inl (count + 1,
        ⟨s.data.add first.length, s.size - (entry.name.length + 1)⟩)) := by
      unfold skipFileNamesRound
      dsimp only
      rw [result_bind_of_ok hread]
      rfl
    cases fuel with
    | zero => omega
    | succ fuel =>
      have ⟨size, hloop⟩ := @ih ⟨s.data.add first.length, s.size - (entry.name.length + 1)⟩ (count + 1) fuel
        hbytes.2 (by dsimp only; omega) (by dsimp only; omega) (by omega)
      have hcount : count + 1 + entries.length = count + (entries.length + 1) := by omega
      refine ⟨size, ?_⟩
      rw [loop_continue _ hround, hloop]
      simp only [Ptr.add_add, List.length_append, List.length_cons, hcount]

theorem DirectoryTable.length_pos {dirs : List (List UInt8)} {bytes : List UInt8}
    (h : DirectoryTable dirs bytes) : 0 < bytes.length := by
  cases h <;> simp

theorem FileTable.length_pos {entries : List FileEntry} {bytes : List UInt8} (h : FileTable entries bytes)
    : 0 < bytes.length := by
  induction h with
  | nil => simp
  | cons _ _ ih =>
    rw [List.length_append]
    omega

theorem readMaxOps_of_holds {version : Nat} {p : Ptr} {size : Nat} (hsize : 1 < size)
    (hholds : env.Holds p (if version = 4 then toLittleEndian 1 1 else []))
    : (readMaxOps env ⟨p, size⟩ version).result
        = .ok ⟨p.add (if version = 4 then 1 else 0), size⟩ := by
  unfold readMaxOps
  split
  . next hversion =>
    rw [if_pos hversion] at hholds
    rw [result_bind_of_ok (read_toLittleEndian (s := ⟨p, size⟩) hholds (by decide) hsize)]
    rfl
  . rfl

theorem exists_create {header : LineHeader} {bytes : List UInt8} {p : Ptr} {size : Nat}
    (h : header.Encodes bytes) (hholds : env.Holds p bytes) (hlength : bytes.length ≤ header.programOffset)
    (hend : header.programOffset ≤ header.unitEnd) (hsize : header.unitEnd ≤ size) (hlt : size < 2 ^ 64)
    (compilationDirectory : StringPiece)
    : ∃ vm, (create env ⟨p, size⟩ compilationDirectory).result = .ok vm := by
  cases h with
  | @mk dirs files hwellFormed hdirs hfiles =>
    have hdirsPos := DirectoryTable.length_pos hdirs
    have hfilesPos := FileTable.length_pos hfiles
    have ⟨hunitLength, hversion, hheaderLength, hminLength, hdefaultIsStmt, hlineBase, hlineRange, hopcodeBase,
      hlengths⟩ := hwellFormed
    unfold LineHeader.unitEnd at hsize hend
    unfold LineHeader.programOffset at hlength hend
    unfold LineHeader.fields at hlength hholds
    generalize hw : (initialLength header.is64Bits header.unitLength).length = w at *
    generalize hops : (if header.version = 4 then toLittleEndian 1 1 else []) = ops at *
    have hopsLength : ops.length = if header.version = 4 then 1 else 0 := by
      rw [← hops]
      split <;> rfl
    simp only [List.append_assoc, List.length_append, length_toLittleEndian, hw, hlengths] at hlength
    simp only [List.append_assoc, Env.holds_append, length_toLittleEndian, Ptr.add_add, hw, hlengths]
      at hholds
    have ⟨hinitial, hversionBytes, hheaderLengthBytes, hminBytes, hopsBytes, hdefaultBytes, hlineBaseBytes,
      hlineRangeBytes, hopcodeBaseBytes, _, hdirsBytes, hfilesBytes⟩ := hholds
    have hoffsetSize : 4 ≤ offsetSize header.is64Bits ∧ offsetSize header.is64Bits ≤ 8 := by
      unfold offsetSize
      split <;> omega
    have hwLength : w = if header.is64Bits then 12 else 4 := by
      rw [← hw, AddressRangeSet.length_initialLength]
    have hallows : ∀ width, width ≤ (if header.is64Bits then 8 else 4) →
        width ≤ size ∧ StringPiece.Allows env ⟨p, size⟩ width := by
      intro width hwidth
      have hle : (if header.is64Bits then 8 else 4) ≤ w := by
        rw [hwLength]
        split <;> omega
      have hlt : width < size := by omega
      exact ⟨Nat.le_of_lt hlt, Or.inr hlt⟩
    have hnext := @next_of_initialLength env header.is64Bits false _ _ _ hunitLength hallows hinitial
    rw [if_pos (by omega), hw] at hnext
    have hread (width n distance size : Nat) (hn : env.Holds (p.add distance) (toLittleEndian width n))
        (hlt : n < 256 ^ width) (hwidth : width < size)
        : (read env width ⟨p.add distance, size⟩).result = .ok (n, ⟨p.add (distance + width), size⟩) := by
      rw [read_toLittleEndian hn hlt hwidth, Ptr.add_add]
    have hversionRead := hread _ _ _ header.unitLength hversionBytes (by omega) (by omega)
    have hheaderLengthLt : header.headerLength < 256 ^ offsetSize header.is64Bits := by
      unfold offsetSize
      split at hunitLength
      . next hbits =>
        rw [if_pos hbits]
        omega
      . next hbits =>
        rw [if_neg hbits]
        omega
    have hheaderLengthRead := hread _ _ _ header.unitLength hheaderLengthBytes hheaderLengthLt (by omega)
    have hminRead := hread _ _ _ header.headerLength hminBytes (by omega) (by omega)
    have hopsRead := @readMaxOps_of_holds env header.version (p.add (w + 2 + offsetSize header.is64Bits + 1))
      header.headerLength (by omega) (by rw [hops]; exact hopsBytes)
    rw [Ptr.add_add, ← hopsLength] at hopsRead
    have hdefaultRead := hread _ _ _ header.headerLength hdefaultBytes (by omega) (by omega)
    have hlineBaseRead := hread _ _ _ header.headerLength hlineBaseBytes (by omega) (by omega)
    have hlineRangeRead := hread _ _ _ header.headerLength hlineRangeBytes (by omega) (by omega)
    have hopcodeBaseRead := hread _ _ _ header.headerLength hopcodeBaseBytes (by omega) (by omega)
    have hadvance : ((⟨p.add (w + 2 + offsetSize header.is64Bits + 1 + ops.length + 1 + 1 + 1 + 1),
        header.headerLength⟩ : StringPiece).advance env (header.opcodeBase - 1)).result = .ok _ :=
      StringPiece.advance_eq_ok.mpr ⟨Or.inr (by dsimp only; omega), rfl⟩
    have hrounds {q : Ptr} {bytes : List UInt8} (hbytes : env.Holds q bytes) (hpos : 0 < bytes.length)
        (size : Nat) : bytes.length ≤ rounds env ⟨q, size⟩ := by
      have hend := hbytes.end_le (List.ne_nil_of_length_pos hpos)
      dsimp only [rounds]
      omega
    have hdirsLoop := @loop_skipDirectoriesRound env _ _ hdirs ⟨p.add _, header.headerLength⟩ 0 _ hdirsBytes
      (by dsimp only; omega) (by dsimp only; split at hunitLength <;> omega)
      (hrounds hdirsBytes hdirsPos header.headerLength)
    dsimp only at hdirsLoop
    rw [Ptr.add_add] at hdirsLoop
    have ⟨size', hfilesLoop⟩ := @loop_skipFileNamesRound env _ _ hfiles
      ⟨p.add _, header.headerLength - dirs.length⟩ 0 _ hfilesBytes (by dsimp only; omega)
      (by dsimp only; split at hunitLength <;> omega)
      (hrounds hfilesBytes hfilesPos (header.headerLength - dirs.length))
    have hcheck {P : Prop} [Decidable P] (hP : P) : (Reader.check (decide P)).result = .ok ⟨⟩ :=
      Reader.check_eq_ok.mpr (decide_eq_true hP)
    have ⟨vm, hinit⟩ : ∃ vm, (init env ⟨p.add w, header.unitLength⟩ header.is64Bits
        compilationDirectory).result = .ok vm := by
      unfold init
      rw [result_bind_of_ok hversionRead]
      dsimp only
      rw [result_bind_of_ok (hcheck hversion), readOffset_eq]
      dsimp only [offsetSize] at *
      rw [result_bind_of_ok hheaderLengthRead]
      dsimp only
      rw [result_bind_of_ok (hcheck hheaderLength), result_bind_of_ok hminRead]
      dsimp only
      rw [result_bind_of_ok hopsRead, result_bind_of_ok hdefaultRead]
      dsimp only
      rw [result_bind_of_ok hlineBaseRead]
      dsimp only
      rw [result_bind_of_ok hlineRangeRead]
      dsimp only
      rw [result_bind_of_ok hopcodeBaseRead]
      dsimp only
      rw [result_bind_of_ok (hcheck (by omega)), result_bind_of_ok hadvance]
      dsimp only
      rw [Ptr.add_add, result_bind_of_ok hdirsLoop]
      dsimp only
      rw [result_bind_of_ok hfilesLoop]
      exact ⟨_, rfl⟩
    refine ⟨vm, ?_⟩
    unfold create Section.create
    rw [result_bind_of_ok hnext]
    exact hinit

end LineNumberVM
end Dwarf
end Claire
