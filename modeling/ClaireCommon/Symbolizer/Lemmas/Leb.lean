import ClaireCommon.Symbolizer.Lemmas.Read

/-!
This module contains the proof that reading the shortest LEB128 form of a number gives the number
back and leaves the piece behind it.
-/

namespace Claire
namespace Dwarf

open Bytes

variable {env : Env} {s : StringPiece} {bytes rest : List UInt8}

theorem covers_append_one_lt (h : s.Covers env (bytes ++ rest)) (hne : bytes ≠ [])
    (hrest : rest ≠ [])
    : 1 < s.size := by
  have hbytes := List.length_pos_iff.mpr hne
  have hpos := List.length_pos_iff.mpr hrest
  rw [h.size, List.length_append]
  omega

theorem readULEB_toUnsignedLeb {n : Nat} (hn : n < 2 ^ 64) (hrest : rest ≠ [])
    (h : s.Covers env (toUnsignedLeb n ++ rest))
    : (readULEB env s).result = .ok (n, ⟨s.data.add (toUnsignedLeb n).length, s.size⟩) := by
  have hleb := isLeb64_toUnsignedLeb hn
  have hbytes := (Env.holds_append.mp h.holds).1
  have hsize := covers_append_one_lt h hleb.isLeb.ne_nil hrest
  rw [readULEB_of_holds hleb hbytes hsize, unsigned_toUnsignedLeb, Nat.mod_eq_of_lt hn]

theorem readSLEB_toSignedLeb {i : Int} (hlo : -2 ^ 63 ≤ i) (hhi : i < 2 ^ 63) (hrest : rest ≠ [])
    (h : s.Covers env (toSignedLeb i ++ rest))
    : (readSLEB env s).result = .ok (i, ⟨s.data.add (toSignedLeb i).length, s.size⟩) := by
  have hleb := isLeb64_toSignedLeb hlo hhi
  have hbytes := (Env.holds_append.mp h.holds).1
  have hsize := covers_append_one_lt h hleb.isLeb.ne_nil hrest
  rw [readSLEB_of_holds hleb hbytes hsize, signed_toSignedLeb, int64_of_range hlo hhi]

-- A shift by 64 or more would end in `shiftTooWide` instead of `ok`.
theorem readLEB_toLeb (env : Env) (s : StringPiece) (rest : List UInt8) (hrest : rest ≠ [])
    : (∀ n, n < 2 ^ 64 → s.Covers env (toUnsignedLeb n ++ rest)
          → ∃ s', (readULEB env s).result = .ok (n, s')
              ∧ s'.data = s.data.add (toUnsignedLeb n).length
              ∧ env.Holds s'.data rest)
        ∧ (∀ i, -2 ^ 63 ≤ i → i < 2 ^ 63 → s.Covers env (toSignedLeb i ++ rest)
          → ∃ s', (readSLEB env s).result = .ok (i, s')
              ∧ s'.data = s.data.add (toSignedLeb i).length
              ∧ env.Holds s'.data rest) := by
  constructor
  . intro n hn h
    exact ⟨_, readULEB_toUnsignedLeb hn hrest h, rfl, (Env.holds_append.mp h.holds).2⟩
  . intro i hlo hhi h
    exact ⟨_, readSLEB_toSignedLeb hlo hhi hrest h, rfl, (Env.holds_append.mp h.holds).2⟩

-- Three bytes for each number and a zero behind them
def lebExample : Env := .ofSection .debugInfo [0xe5, 0x8e, 0x26, 0x00] (by decide)

def slebExample : Env := .ofSection .debugInfo [0xc0, 0xbb, 0x78, 0x00] (by decide)

theorem readLEB_toLeb_example
    : (∃ s', (readULEB lebExample ⟨⟨.debugInfo, 0⟩, 4⟩).result = .ok (624485, s')
          ∧ s'.data = ⟨.debugInfo, 3⟩)
        ∧ (∃ s', (readSLEB slebExample ⟨⟨.debugInfo, 0⟩, 4⟩).result = .ok (-123456, s')
          ∧ s'.data = ⟨.debugInfo, 3⟩) := by
  have hn : toUnsignedLeb 624485 = [0xe5, 0x8e, 0x26] := by simp [toUnsignedLeb]
  have hi : toSignedLeb (-123456) = [0xc0, 0xbb, 0x78] := by simp [toSignedLeb]
  constructor
  . have hcovers : StringPiece.Covers lebExample ⟨⟨.debugInfo, 0⟩, 4⟩
        (toUnsignedLeb 624485 ++ [0x00]) := by
      rw [hn]
      exact ⟨⟨rfl, rfl, rfl, rfl, trivial⟩, rfl⟩
    obtain ⟨s', hread, hdata, _⟩ := (readLEB_toLeb _ _ [0x00] (by decide)).1 _ (by decide) hcovers
    rw [hn] at hdata
    exact ⟨s', hread, hdata⟩
  . have hcovers : StringPiece.Covers slebExample ⟨⟨.debugInfo, 0⟩, 4⟩
        (toSignedLeb (-123456) ++ [0x00]) := by
      rw [hi]
      exact ⟨⟨rfl, rfl, rfl, rfl, trivial⟩, rfl⟩
    obtain ⟨s', hread, hdata, _⟩ :=
      (readLEB_toLeb _ _ [0x00] (by decide)).2 _ (by decide) (by decide) hcovers
    rw [hi] at hdata
    exact ⟨s', hread, hdata⟩

end Dwarf
end Claire
