import ClaireCommon.Symbolizer.Lemmas.Step
import ClaireCommon.Symbolizer.Lemmas.Tables

/-!
This module contains what `Init` accepts: every unit it accepts starts with a header of the line number
information, and its fields are those of the header.
-/

namespace Claire
namespace Dwarf

open Bytes Traced

structure Consumed (env : Env) (p : Ptr) (s : StringPiece) (bytes : List UInt8) : Prop where
  holds : env.Holds p bytes
  data : s.data = p.add bytes.length

variable {env : Env} {p : Ptr} {s s' : StringPiece} {bytes more : List UInt8}

theorem Consumed.append (h : Consumed env p s bytes) (hmore : env.Holds s.data more)
    (hdata : s'.data = s.data.add more.length) : Consumed env p s' (bytes ++ more) := by
  constructor
  . rw [Env.holds_append, ← h.data]
    exact ⟨h.holds, hmore⟩
  . rw [hdata, h.data, Ptr.add_add, List.length_append]

theorem Consumed.read {n value : Nat} (h : Consumed env p s bytes)
    (hread : (read env n s).result = .ok (value, s'))
    : Consumed env p s' (bytes ++ toLittleEndian n value) ∧ value < 256 ^ n ∧ s'.size = s.size := by
  have ⟨_, _, value', hlen, hvalue, heq, hs⟩ := read_eq_ok.mp hread
  have hbytes : toLittleEndian n value = value' := by
    rw [heq, ← hlen, toLittleEndian_littleEndian]
  rw [hbytes]
  refine ⟨h.append hvalue ?_, ?_, ?_⟩
  . rw [hs, hlen]
  . rw [heq, ← hlen]
    apply littleEndian_lt
  . rw [hs]

theorem readOffset_eq (is64Bits : Bool)
    : readOffset env s is64Bits = read env (if is64Bits then 8 else 4) s := by
  cases is64Bits <;> rfl

theorem StringPiece.assign_add {n m : Nat} (hle : n ≤ m) (hlt : m < 2 ^ 64)
    : StringPiece.assign (p.add n) (p.add m) = ⟨p.add n, m - n⟩ := by
  have hm : p.add m = (p.add n).add (m - n) := by
    rw [Ptr.add_add]
    congr 1
    omega
  unfold StringPiece.assign
  rw [hm, StringPiece.distance_add _ (by omega)]

theorem StringPiece.covers_assign {bytes : List UInt8} {q : Ptr} (h : env.Holds p bytes)
    (hq : q = p.add bytes.length) : (StringPiece.assign p q).Covers env bytes := by
  have hassign := @StringPiece.assign_add p 0 bytes.length (Nat.zero_le _) h.length_lt
  rw [hq]
  exact hassign ▸ ⟨h, rfl⟩

theorem next_eq_ok {section_ : Section} {chunk : StringPiece}
    (h : ((Section.create s).next env).result = .ok (some chunk, section_))
    : Consumed env s.data chunk (initialLength section_.is64Bits chunk.size)
        ∧ chunk.size < if section_.is64Bits then 2 ^ 64 else 2 ^ 32 - 1 := by
  have hstart : Consumed env s.data s [] := ⟨trivial, rfl⟩
  unfold Section.next Section.create at h
  dsimp only at h
  split at h
  next => simp at h
  next =>
    rw [bind_eq_ok] at h
    have ⟨⟨initial, s1⟩, hinitial, h⟩ := h
    have ⟨hinitialBytes, hinitial, _⟩ := hstart.read hinitial
    rw [bind_eq_ok] at h
    have ⟨⟨length, s2⟩, hlength, h⟩ := h
    rw [bind_eq_ok] at h
    have ⟨_, hcheck, h⟩ := h
    injection h with h
    injection h with hchunk hsection
    injection hchunk with hchunk
    subst hchunk hsection
    dsimp only at *
    by_cases his64 : initial = 2 ^ 32 - 1
    . unfold Section.readUnitLength at hlength
      rw [if_pos (by simpa using his64)] at hlength
      have ⟨hlengthBytes, hlt, _⟩ := hinitialBytes.read hlength
      simp only [his64] at hlengthBytes
      simp only [his64, decide_true, initialLength, if_true]
      exact ⟨⟨hlengthBytes.holds, hlengthBytes.data⟩, hlt⟩
    . unfold Section.readUnitLength at hlength
      rw [if_neg (by simpa using his64)] at hlength
      injection hlength with hlength
      injection hlength with hlength hs
      subst hlength hs
      simp only [his64, decide_false, initialLength, Bool.false_eq_true, if_false]
      exact ⟨⟨hinitialBytes.holds, hinitialBytes.data⟩, by omega⟩

namespace LineNumberVM

theorem readMaxOps_eq_ok {version : Nat} {acc : List UInt8} (hacc : Consumed env p s acc)
    (h : (readMaxOps env s version).result = .ok s')
    : Consumed env p s' (acc ++ if version = 4 then toLittleEndian 1 1 else [])
        ∧ s'.size = s.size := by
  unfold readMaxOps at h
  split at h
  next hversion =>
    rw [bind_eq_ok] at h
    have ⟨⟨maxOps, s1⟩, hmaxOps, h⟩ := h
    rw [bind_eq_ok] at h
    have ⟨_, hcheck, h⟩ := h
    have ⟨hbytes, _, hsize⟩ := hacc.read hmaxOps
    rw [Reader.check_eq_ok] at hcheck
    injection h with h
    subst h
    rw [of_decide_eq_true hcheck] at hbytes
    rw [if_pos hversion]
    exact ⟨hbytes, hsize⟩
  next hversion =>
    injection h with h
    subst h
    rw [if_neg hversion, List.append_nil]
    exact ⟨hacc, rfl⟩

structure Opened (env : Env) (vm : LineNumberVM) (header : LineHeader) (p : Ptr) : Prop where
  interprets : vm.Interprets env header
  data : vm.data = ⟨p.add header.programOffset, header.unitLength - header.headerLength⟩
  directories : ∃ bytes, DirectoryTable header.includeDirectories bytes
    ∧ vm.includeDirectories.Covers env bytes
  directoryCount : vm.includeDirectoryCount = header.includeDirectories.length
  files : ∃ bytes, FileTable header.fileNames bytes ∧ vm.fileNames.Covers env bytes
  fileCount : vm.fileNameCount = header.fileNames.length

theorem toNat_bmod_emod {n : Nat} (h : n < 256) : (((n : Int).bmod (2 ^ 8)) % 2 ^ 8).toNat = n := by
  have hemod : ((n : Int).bmod (2 ^ 8)) % 2 ^ 8 = (n : Int) % 2 ^ 8 := Int.bmod_emod
  omega

theorem opened_of_init {vm : LineNumberVM} {is64Bits : Bool} {compilationDirectory : StringPiece}
    (hunit : Consumed env p s (initialLength is64Bits s.size))
    (hsize : s.size < if is64Bits then 2 ^ 64 else 2 ^ 32 - 1)
    (h : (init env s is64Bits compilationDirectory).result = .ok vm)
    : ∃ header bytes, LineHeader.Encodes header bytes ∧ env.Holds p bytes
        ∧ vm.Opened env header p ∧ vm.compilationDirectory = compilationDirectory := by
  unfold init at h
  rw [bind_eq_ok] at h
  have ⟨⟨version, s1⟩, hversion, h⟩ := h
  rw [bind_eq_ok] at h
  have ⟨_, hversionCheck, h⟩ := h
  rw [readOffset_eq, bind_eq_ok] at h
  have ⟨⟨headerLength, s2⟩, hheaderLength, h⟩ := h
  rw [bind_eq_ok] at h
  have ⟨_, hheaderLengthCheck, h⟩ := h
  dsimp only at h
  rw [bind_eq_ok] at h
  have ⟨⟨minLength, h1⟩, hminLength, h⟩ := h
  dsimp only at h
  rw [bind_eq_ok] at h
  have ⟨h2, hmaxOps, h⟩ := h
  rw [bind_eq_ok] at h
  have ⟨⟨defaultIsStmt, h3⟩, hdefaultIsStmt, h⟩ := h
  rw [bind_eq_ok] at h
  have ⟨⟨lineBase, h4⟩, hlineBase, h⟩ := h
  rw [bind_eq_ok] at h
  have ⟨⟨lineRange, h5⟩, hlineRange, h⟩ := h
  rw [bind_eq_ok] at h
  have ⟨⟨opcodeBase, h6⟩, hopcodeBase, h⟩ := h
  rw [bind_eq_ok] at h
  have ⟨_, hopcodeBaseCheck, h⟩ := h
  rw [bind_eq_ok] at h
  have ⟨h7, hlengths, h⟩ := h
  rw [bind_eq_ok] at h
  have ⟨⟨directoryCount, h8⟩, hdirectories, h⟩ := h
  rw [bind_eq_ok] at h
  have ⟨⟨fileCount, h9⟩, hfiles, h⟩ := h
  injection h with h
  have hlt : s.size < 2 ^ 64 := by
    split at hsize <;> omega
  rw [Reader.check_eq_ok] at hversionCheck hheaderLengthCheck hopcodeBaseCheck
  have hversion2 := of_decide_eq_true hversionCheck
  have hle := of_decide_eq_true hheaderLengthCheck
  have hopcodeBase0 := of_decide_eq_true hopcodeBaseCheck
  have ⟨c1, _, hs1⟩ := hunit.read hversion
  have ⟨c2, _, hs2⟩ := c1.read hheaderLength
  have c2' : Consumed env p ⟨s2.data, headerLength⟩ _ := ⟨c2.holds, c2.data⟩
  have ⟨c3, hminLengthLt, hh1⟩ := c2'.read hminLength
  have ⟨c4, hh2⟩ := readMaxOps_eq_ok c3 hmaxOps
  have ⟨c5, hdefaultIsStmtLt, hh3⟩ := c4.read hdefaultIsStmt
  have ⟨c6, hlineBaseLt, hh4⟩ := c5.read hlineBase
  have ⟨c7, hlineRangeLt, hh5⟩ := c6.read hlineRange
  have ⟨c8, hopcodeBaseLt, hh6⟩ := c7.read hopcodeBase
  have ⟨_, hh7⟩ := StringPiece.advance_eq_ok.mp hlengths
  subst hh7
  dsimp only at hle hh1 hdirectories
  have ⟨dirs, dirBytes, hdirTable, hdirHolds, hdirCount, hdirData, hdirSize⟩ :=
    directoryTable_of_loop (by dsimp only; omega) hdirectories
  dsimp only at hdirSize
  have ⟨entries, fileBytes, hfileTable, hfileHolds, hfileCount, hfileData⟩ :=
    fileTable_of_loop (by dsimp only; omega) hfiles
  have hdirEnd := hdirHolds.end_le (by cases hdirTable <;> simp)
  have ⟨lengths, hlengthsLen, hlengthsHolds⟩ := @Env.exists_holds env h6.data (opcodeBase - 1) (by
    simp only [Ptr.offset_add, Ptr.block_add] at hdirEnd
    omega)
  have c9 : Consumed env p ⟨h6.data.add (opcodeBase - 1), h6.size⟩ _ :=
    c8.append hlengthsHolds (by rw [hlengthsLen])
  have c10 := c9.append hdirHolds hdirData
  have c11 := c10.append hfileHolds hfileData
  refine ⟨{
    is64Bits := is64Bits
    unitLength := s.size
    version := version
    headerLength := headerLength
    minLength := minLength
    defaultIsStmt := defaultIsStmt
    lineBase := (lineBase : Int).bmod (2 ^ 8)
    lineRange := lineRange
    opcodeBase := opcodeBase
    standardOpcodeLengths := lengths
    includeDirectories := dirs
    fileNames := entries }, _, LineHeader.Encodes.mk ?_ hdirTable hfileTable, ?_, ?_, ?_⟩
  . have hbmod := (lineBase : Int).bmod_lt (m := 2 ^ 8) (by decide)
    have hleBmod := (lineBase : Int).le_bmod (m := 2 ^ 8) (by decide)
    exact {
      unitLength := hsize
      version := hversion2
      headerLength := by dsimp only; omega
      minLength := hminLengthLt
      defaultIsStmt := hdefaultIsStmtLt
      lineBase := by dsimp only; omega
      lineRange := hlineRangeLt
      opcodeBase := ⟨by dsimp only; omega, hopcodeBaseLt⟩
      standardOpcodeLengths := hlengthsLen }
  . unfold LineHeader.fields
    dsimp only
    rw [toNat_bmod_emod hlineBaseLt]
    exact c11.holds
  . rw [← h]
    have hstart : s2.data = p.add ((initialLength is64Bits s.size).length + 2 + offsetSize is64Bits) := by
      rw [c2.data]
      simp only [List.length_append, length_toLittleEndian]
      rfl
    constructor
    . exact ⟨rfl, rfl, rfl, rfl, rfl, rfl, by dsimp only; omega, hopcodeBaseLt, hlengthsHolds⟩
    . dsimp only [StringPiece.stop, LineHeader.programOffset]
      rw [StringPiece.assign_add (by omega) (by omega), hs2, hs1, hstart, Ptr.add_add]
    . exact ⟨dirBytes, hdirTable, StringPiece.covers_assign hdirHolds hdirData⟩
    . simpa using hdirCount
    . exact ⟨fileBytes, hfileTable, StringPiece.covers_assign hfileHolds hfileData⟩
    . simpa using hfileCount
  . rw [← h]

theorem opened_of_create {vm : LineNumberVM} {compilationDirectory : StringPiece}
    (h : (create env s compilationDirectory).result = .ok vm)
    : ∃ header bytes, LineHeader.Encodes header bytes ∧ env.Holds s.data bytes
        ∧ vm.Opened env header s.data ∧ vm.compilationDirectory = compilationDirectory := by
  unfold create at h
  rw [bind_eq_ok] at h
  have ⟨⟨chunk, section_⟩, hnext, h⟩ := h
  cases chunk with
  | none => contradiction
  | some chunk =>
    have ⟨hunit, hsize⟩ := next_eq_ok hnext
    exact opened_of_init hunit hsize h

end LineNumberVM
end Dwarf
end Claire
