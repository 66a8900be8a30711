import ClaireCommon.Symbolizer.LineProgram

/-!
This module contains the proof that the bytes of a unit determine its header.
-/

namespace Claire
namespace Dwarf

open Bytes

variable {env : Env} {p : Ptr}

theorem isLeb64_singleton {byte : UInt8} (h : byte.toNat < 128) : IsLeb64 [byte] := by
  constructor
  . apply IsLeb.last h
  . simp

theorem isUint64_singleton {byte : UInt8} (h : byte.toNat < 128) : IsUint64 byte.toNat [byte] where
  leb := isLeb64_singleton h
  value := by simp [unsigned, Nat.mod_eq_of_lt h]
  lt := by omega

theorem FileEntry.encodes_of_lt {name : List UInt8} {index : UInt8} (hname : name ≠ [])
    (hnonzero : 0 ∉ name) (hindex : index.toNat < 128)
    : FileEntry.Encodes ⟨name, index.toNat⟩ (name ++ [0] ++ [index] ++ [0] ++ [0]) := by
  have hzero : IsLeb64 [0] := isLeb64_singleton (by decide)
  have hencodes := FileEntry.Encodes.mk hname hnonzero (isLeb64_singleton hindex) hzero hzero
  have hindex' := isUint64_singleton hindex
  rw [hindex'.value, Nat.mod_eq_of_lt hindex'.lt] at hencodes
  exact hencodes

theorem number_unique {n v v' : Nat} {rest rest' : List UInt8} (hv : v < 256 ^ n) (hv' : v' < 256 ^ n)
    (h : env.Holds p (toLittleEndian n v ++ rest)) (h' : env.Holds p (toLittleEndian n v' ++ rest'))
    : v = v' ∧ env.Holds (p.add n) rest ∧ env.Holds (p.add n) rest' := by
  have ⟨hfirst, hrest⟩ := Env.holds_append.mp h
  have ⟨hfirst', hrest'⟩ := Env.holds_append.mp h'
  have heq := hfirst.unique hfirst' (by simp)
  rw [length_toLittleEndian] at hrest hrest'
  refine ⟨?_, hrest, hrest'⟩
  rw [← littleEndian_toLittleEndian_of_lt hv, heq, littleEndian_toLittleEndian_of_lt hv']

theorem leb_unique {bytes bytes' : List UInt8} (hleb : IsLeb bytes) (hleb' : IsLeb bytes')
    (h : env.Holds p bytes) (h' : env.Holds p bytes') : bytes = bytes' := by
  induction hleb generalizing p bytes' with
  | last hlt =>
    cases hleb' with
    | last hlt' => exact h.unique h' rfl
    | more hge =>
      rw [h.head_eq h'] at hlt
      omega
  | more hge rest ih =>
    cases hleb' with
    | last hlt' =>
      rw [h.head_eq h'] at hge
      omega
    | more hge' rest' => rw [h.head_eq h', ih rest' h.2 h'.2]

theorem leb_append_unique {bytes bytes' rest rest' : List UInt8} (hleb : IsLeb64 bytes)
    (hleb' : IsLeb64 bytes') (h : env.Holds p (bytes ++ rest)) (h' : env.Holds p (bytes' ++ rest'))
    : bytes = bytes' ∧ env.Holds (p.add bytes.length) rest ∧ env.Holds (p.add bytes.length) rest' := by
  have ⟨hfirst, hrest⟩ := Env.holds_append.mp h
  have ⟨hfirst', hrest'⟩ := Env.holds_append.mp h'
  have heq := leb_unique hleb.isLeb hleb'.isLeb hfirst hfirst'
  subst heq
  exact ⟨rfl, hrest, hrest'⟩

theorem text_append_unique {text text' rest rest' : List UInt8} (hnonzero : 0 ∉ text)
    (hnonzero' : 0 ∉ text') (h : env.Holds p (text ++ [0] ++ rest))
    (h' : env.Holds p (text' ++ [0] ++ rest'))
    : text = text' ∧ env.Holds (p.add (text ++ [0]).length) rest
        ∧ env.Holds (p.add (text ++ [0]).length) rest' := by
  have ⟨hfirst, hrest⟩ := Env.holds_append.mp h
  have ⟨hfirst', hrest'⟩ := Env.holds_append.mp h'
  have heq := terminated_unique ⟨hfirst, hnonzero⟩ ⟨hfirst', hnonzero'⟩
  subst heq
  exact ⟨rfl, hrest, hrest'⟩

theorem head_ne_zero {text rest : List UInt8} (hne : text ≠ []) (hnonzero : 0 ∉ text)
    (h : env.Holds p (text ++ rest)) : ¬env.Holds p [0] := by
  intro hzero
  cases text with
  | nil => contradiction
  | cons byte text =>
    rw [List.mem_cons, not_or] at hnonzero
    exact hnonzero.1 (hzero.head_eq h)

theorem directoryTable_unique {dirs dirs' : List (List UInt8)} {bytes bytes' : List UInt8}
    (htable : DirectoryTable dirs bytes) (htable' : DirectoryTable dirs' bytes')
    (h : env.Holds p bytes) (h' : env.Holds p bytes') : dirs = dirs' ∧ bytes = bytes' := by
  induction htable generalizing p dirs' bytes' with
  | nil =>
    cases htable' with
    | nil => exact ⟨rfl, rfl⟩
    | cons hdir hnonzero rest =>
      rw [List.append_assoc] at h'
      exact absurd h (head_ne_zero hdir hnonzero h')
  | cons hdir hnonzero rest ih =>
    cases htable' with
    | nil =>
      rw [List.append_assoc] at h
      exact absurd h' (head_ne_zero hdir hnonzero h)
    | cons hdir' hnonzero' rest' =>
      have ⟨heq, hrest, hrest'⟩ := text_append_unique hnonzero hnonzero' h h'
      have ⟨hdirs, hbytes⟩ := ih rest' hrest hrest'
      rw [heq, hdirs, hbytes]
      exact ⟨rfl, rfl⟩

theorem fileEntry_unique {entry entry' : FileEntry} {bytes bytes' rest rest' : List UInt8}
    (hentry : entry.Encodes bytes) (hentry' : entry'.Encodes bytes')
    (h : env.Holds p (bytes ++ rest)) (h' : env.Holds p (bytes' ++ rest'))
    : entry = entry' ∧ bytes = bytes' := by
  cases hentry with
  | mk hname hnonzero hindex htime hlength =>
    cases hentry' with
    | mk hname' hnonzero' hindex' htime' hlength' =>
      simp only [List.append_assoc] at h h'
      rw [← List.append_assoc] at h h'
      have ⟨heqName, h, h'⟩ := text_append_unique hnonzero hnonzero' h h'
      have ⟨heqIndex, h, h'⟩ := leb_append_unique hindex hindex' h h'
      have ⟨heqTime, h, h'⟩ := leb_append_unique htime htime' h h'
      have ⟨heqLength, _, _⟩ := leb_append_unique hlength hlength' h h'
      rw [heqName, heqIndex, heqTime, heqLength]
      exact ⟨rfl, rfl⟩

theorem fileTable_unique {entries entries' : List FileEntry} {bytes bytes' : List UInt8}
    (htable : FileTable entries bytes) (htable' : FileTable entries' bytes')
    (h : env.Holds p bytes) (h' : env.Holds p bytes') : entries = entries' := by
  have hend : ∀ {entry : FileEntry} {first rest : List UInt8} {q : Ptr}, entry.Encodes first →
      env.Holds q (first ++ rest) → ¬env.Holds q [0] := by
    intro entry first rest q hentry hholds
    cases hentry with
    | mk hname hnonzero =>
      simp only [List.append_assoc] at hholds
      exact head_ne_zero hname hnonzero hholds
  induction htable generalizing p entries' bytes' with
  | nil =>
    cases htable' with
    | nil => rfl
    | cons hentry rest => exact absurd h (hend hentry h')
  | cons hentry rest ih =>
    cases htable' with
    | nil => exact absurd h' (hend hentry h)
    | cons hentry' rest' =>
      have ⟨heq, hbytes⟩ := fileEntry_unique hentry hentry' h h'
      subst hbytes
      rw [heq, ih rest' (Env.holds_append.mp h).2 (Env.holds_append.mp h').2]

theorem initialLength_unique {is64Bits is64Bits' : Bool} {length length' : Nat}
    {rest rest' : List UInt8} (hlt : length < if is64Bits then 2 ^ 64 else 2 ^ 32 - 1)
    (hlt' : length' < if is64Bits' then 2 ^ 64 else 2 ^ 32 - 1)
    (h : env.Holds p (initialLength is64Bits length ++ rest))
    (h' : env.Holds p (initialLength is64Bits' length' ++ rest'))
    : is64Bits = is64Bits' ∧ length = length' := by
  cases is64Bits with
  | false =>
    simp only [initialLength, Bool.false_eq_true, if_false] at h hlt
    cases is64Bits' with
    | false =>
      simp only [initialLength, Bool.false_eq_true, if_false] at h' hlt'
      exact ⟨rfl, (number_unique (by omega) (by omega) h h').1⟩
    | true =>
      simp only [initialLength, if_true, List.append_assoc] at h' hlt'
      have heq := (number_unique (by omega) (by omega) h h').1
      omega
  | true =>
    simp only [initialLength, if_true, List.append_assoc] at h hlt
    cases is64Bits' with
    | false =>
      simp only [initialLength, Bool.false_eq_true, if_false] at h' hlt'
      have heq := (number_unique (by omega) (by omega) h h').1
      omega
    | true =>
      simp only [initialLength, if_true, List.append_assoc] at h' hlt'
      have ⟨_, h, h'⟩ := number_unique (by omega) (by omega) h h'
      exact ⟨rfl, (number_unique (by omega) (by omega) h h').1⟩

theorem header_unique {header header' : LineHeader} {bytes bytes' : List UInt8}
    (hheader : header.Encodes bytes) (hheader' : header'.Encodes bytes')
    (h : env.Holds p bytes) (h' : env.Holds p bytes') : header = header' := by
  cases hheader with
  | @mk dirBytes fileBytes hwell hdirs hfiles =>
    cases hheader' with
    | @mk dirBytes' fileBytes' hwell' hdirs' hfiles' =>
      obtain ⟨is64Bits, unitLength, version, headerLength, minLength, defaultIsStmt, lineBase,
        lineRange, opcodeBase, lengths, dirs, files⟩ := header
      obtain ⟨is64Bits', unitLength', version', headerLength', minLength', defaultIsStmt', lineBase',
        lineRange', opcodeBase', lengths', dirs', files'⟩ := header'
      have ⟨hunitLength, hversion, hheaderLength, hminLength, hdefaultIsStmt, hlineBase, hlineRange,
        hopcodeBase, hlengths⟩ := hwell
      have ⟨hunitLength', hversion', hheaderLength', hminLength', hdefaultIsStmt', hlineBase',
        hlineRange', hopcodeBase', hlengths'⟩ := hwell'
      dsimp only at *
      simp only [LineHeader.fields, List.append_assoc] at h h'
      have ⟨heq64, heqLength⟩ := initialLength_unique hunitLength hunitLength' h h'
      subst heq64 heqLength
      have h := (Env.holds_append.mp h).2
      have h' := (Env.holds_append.mp h').2
      have ⟨heqVersion, h, h'⟩ := number_unique (by omega) (by omega) h h'
      subst heqVersion
      have hoffset : ∀ n ≤ unitLength, n < 256 ^ offsetSize is64Bits := by
        intro n hn
        cases is64Bits <;> simp [offsetSize] at * <;> omega
      have ⟨heqHeaderLength, h, h'⟩ :=
        number_unique (hoffset _ hheaderLength) (hoffset _ hheaderLength') h h'
      have ⟨heqMinLength, h, h'⟩ := number_unique (by omega) (by omega) h h'
      have h := (Env.holds_append.mp h).2
      have h' := (Env.holds_append.mp h').2
      have ⟨heqDefaultIsStmt, h, h'⟩ := number_unique (by omega) (by omega) h h'
      have ⟨heqLineBase, h, h'⟩ := number_unique (by omega) (by omega) h h'
      have ⟨heqLineRange, h, h'⟩ := number_unique (by omega) (by omega) h h'
      have ⟨heqOpcodeBase, h, h'⟩ := number_unique (by omega) (by omega) h h'
      have ⟨hlengthsHolds, h⟩ := Env.holds_append.mp h
      have ⟨hlengthsHolds', h'⟩ := Env.holds_append.mp h'
      have heqLengths := hlengthsHolds.unique hlengthsHolds' (by omega)
      subst heqLengths
      have ⟨hdirsHolds, h⟩ := Env.holds_append.mp h
      have ⟨hdirsHolds', h'⟩ := Env.holds_append.mp h'
      have ⟨heqDirs, heqDirBytes⟩ := directoryTable_unique hdirs hdirs' hdirsHolds hdirsHolds'
      subst heqDirBytes
      have heqFiles := fileTable_unique hfiles hfiles' h h'
      have heqLineBase : lineBase = lineBase' := by omega
      rw [heqHeaderLength, heqMinLength, heqDefaultIsStmt, heqLineBase, heqLineRange, heqOpcodeBase,
        heqDirs, heqFiles]

end Dwarf
end Claire
