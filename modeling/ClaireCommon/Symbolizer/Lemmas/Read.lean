import ClaireCommon.Strings.Lemmas.StringPiece
import ClaireCommon.Symbolizer.Impl.Read

/-!
This module contains what the functions that read from a `StringPiece` return: exactly when they
succeed, the value they read and where they leave the piece.
-/

namespace Claire
namespace Dwarf

open Bytes Traced

variable {env : Env}

theorem read_eq_ok {n value : Nat} {s s' : StringPiece}
    : (read env n s).result = .ok (value, s')
        ↔ n ≤ s.size ∧ s.Allows env n ∧ ∃ bytes, bytes.length = n ∧ env.Holds s.data bytes
            ∧ value = littleEndian bytes ∧ s' = ⟨s.data.add n, s.size⟩ := by
  unfold read
  simp only [bind_eq_ok, Reader.check_eq_ok, Env.peekMany_eq_ok, StringPiece.advance_eq_ok]
  constructor
  . intro ⟨_, hsize, bytes, ⟨hlen, hbytes⟩, s'', ⟨hallows, hs⟩, _, _, h⟩
    injection h with h
    injection h with hvalue hs'
    subst hs hs' hvalue
    exact ⟨by simpa using hsize, hallows, bytes, hlen, hbytes, rfl, rfl⟩
  . intro ⟨hsize, hallows, bytes, hlen, hbytes, hvalue, hs⟩
    subst hvalue hs
    exact ⟨⟨⟩, by simpa using hsize, bytes, ⟨hlen, hbytes⟩, _, ⟨hallows, rfl⟩, ⟨⟩, rfl, rfl⟩

theorem read_toLittleEndian_of_allows {width n : Nat} {s : StringPiece}
    (h : env.Holds s.data (toLittleEndian width n)) (hn : n < 256 ^ width) (hsize : width ≤ s.size)
    (hallows : s.Allows env width)
    : (read env width s).result = .ok (n, ⟨s.data.add width, s.size⟩) := by
  rw [read_eq_ok]
  refine ⟨hsize, hallows, _, length_toLittleEndian width n, h, ?_, rfl⟩
  rw [littleEndian_toLittleEndian_of_lt hn]

theorem read_toLittleEndian {width n : Nat} {s : StringPiece}
    (h : env.Holds s.data (toLittleEndian width n)) (hn : n < 256 ^ width) (hsize : width < s.size)
    : (read env width s).result = .ok (n, ⟨s.data.add width, s.size⟩) :=
  read_toLittleEndian_of_allows h hn (Nat.le_of_lt hsize) (Or.inr hsize)

theorem readByte_eq_ok {value : Nat} {s s' : StringPiece}
    : (read env 1 s).result = .ok (value, s')
        ↔ 1 ≤ s.size ∧ s.Allows env 1 ∧ ∃ byte, env.Holds s.data [byte]
            ∧ value = byte.toNat ∧ s' = ⟨s.data.add 1, s.size⟩ := by
  rw [read_eq_ok]
  constructor
  . rintro ⟨hsize, hallows, bytes, hlen, hbytes, hvalue, hs⟩
    obtain ⟨byte, hbyte⟩ := List.length_eq_one_iff.mp hlen
    subst hbyte
    exact ⟨hsize, hallows, byte, hbytes, by simpa [littleEndian] using hvalue, hs⟩
  . rintro ⟨hsize, hallows, byte, hbyte, hvalue, hs⟩
    exact ⟨hsize, hallows, [byte], rfl, hbyte, by simpa [littleEndian] using hvalue, hs⟩

theorem and_0x7f (value : Nat) : value &&& 0x7f = value % 128 :=
  Nat.and_two_pow_sub_one_eq_mod value 7

theorem and_0x80_ne_zero {value : Nat} (h : value < 256) : value &&& 0x80 ≠ 0 ↔ 128 ≤ value := by
  have hand : value &&& 0x80 = value / 128 % 2 * 128 := by
    rw [← Nat.toNat_testBit value 7]
    exact Nat.and_two_pow value 7
  omega

theorem and_0x40_ne_zero (value : Nat) : value &&& 0x40 ≠ 0 ↔ 64 ≤ value % 128 := by
  have hand : value &&& 0x40 = value / 64 % 2 * 64 := by
    rw [← Nat.toNat_testBit value 6]
    exact Nat.and_two_pow value 6
  omega

theorem or_shiftLeft {r shift payload : Nat} (hr : r < 2 ^ shift) (hshift : shift < 64)
    : r ||| ((payload <<< shift) % 2 ^ 64) = (r + payload * 2 ^ shift) % 2 ^ 64 := by
  have hlt : r < 2 ^ 64 := Nat.lt_trans hr (Nat.pow_lt_pow_right (by omega) hshift)
  calc r ||| ((payload <<< shift) % 2 ^ 64)
    _ = (r % 2 ^ 64) ||| ((payload <<< shift) % 2 ^ 64) := by rw [Nat.mod_eq_of_lt hlt]
    _ = (r ||| payload <<< shift) % 2 ^ 64 := by rw [Nat.or_mod_two_pow]
    _ = (payload <<< shift + r) % 2 ^ 64 := by
      rw [Nat.or_comm, Nat.shiftLeft_add_eq_or_of_lt hr]
    _ = (r + payload * 2 ^ shift) % 2 ^ 64 := by rw [Nat.shiftLeft_eq, Nat.add_comm]

def ULEB.push (u : ULEB) (byte : UInt8) : ULEB where
  r := u.r ||| (((byte.toNat &&& 0x7f) <<< u.shift) % 2 ^ 64)
  shift := (u.shift + 7) % 256
  s := ⟨u.s.data.add 1, u.s.size⟩

theorem readULEBRound_eq_ok {u : ULEB} {x : ULEB ⊕ (Nat × ULEB)}
    : (readULEBRound env u).result = .ok x
        ↔ u.shift < 64 ∧ 1 ≤ u.s.size ∧ u.s.Allows env 1 ∧ ∃ byte, env.Holds u.s.data [byte]
            ∧ x = if 128 ≤ byte.toNat then .inl (u.push byte) else .inr (byte.toNat, u.push byte) := by
  unfold readULEBRound
  rw [bind_eq_ok]
  constructor
  . intro ⟨⟨value, s⟩, hread, h⟩
    have ⟨hsize, hallows, byte, hbyte, hvalue, hs⟩ := readByte_eq_ok.mp hread
    subst hvalue hs
    dsimp only at h
    split at h
    next => contradiction
    next hshift =>
      simp only [and_0x80_ne_zero byte.toNat_lt] at h
      injection h with h
      exact ⟨by omega, hsize, hallows, byte, hbyte, h.symm⟩
  . intro ⟨hshift, hsize, hallows, byte, hbyte, hx⟩
    refine ⟨_, readByte_eq_ok.mpr ⟨hsize, hallows, byte, hbyte, rfl, rfl⟩, ?_⟩
    dsimp only
    rw [if_neg (by omega), hx]
    simp only [and_0x80_ne_zero byte.toNat_lt]
    rfl

structure ULEB.Partial (u : ULEB) (i : Nat) : Prop where
  shift : u.shift = 7 * i
  bound : u.r < 2 ^ (7 * i)

theorem ULEB.Partial.push_r {u : ULEB} {i : Nat} (h : u.Partial i) (hi : i ≤ 9) (byte : UInt8)
    : (u.push byte).r = (u.r + byte.toNat % 128 * 2 ^ (7 * i)) % 2 ^ 64 := by
  have hbound := h.bound
  rw [← h.shift] at hbound
  have hshift := h.shift
  dsimp only [ULEB.push]
  rw [and_0x7f, or_shiftLeft hbound (by omega), hshift]

theorem ULEB.Partial.push {u : ULEB} {i : Nat} (h : u.Partial i) (hi : i ≤ 8) (byte : UInt8)
    : (u.push byte).Partial (i + 1) := by
  have hshift := h.shift
  have hbound := h.bound
  have hpow : 2 ^ (7 * (i + 1)) = 2 ^ (7 * i) * 128 := by
    rw [Nat.mul_succ, Nat.pow_add]
  have hpayload : byte.toNat % 128 * 2 ^ (7 * i) ≤ 127 * 2 ^ (7 * i) := by
    apply Nat.mul_le_mul_right
    omega
  constructor
  . dsimp only [ULEB.push]
    omega
  . rw [h.push_r (by omega)]
    apply Nat.lt_of_le_of_lt (Nat.mod_le _ _)
    omega

theorem loop_readULEBRound_of_isLeb {bytes : List UInt8} (hleb : IsLeb bytes) {u : ULEB} {i fuel : Nat}
    (hu : u.Partial i) (hi : i + bytes.length ≤ 10) (hbytes : env.Holds u.s.data bytes)
    (hsize : 1 ≤ u.s.size) (hallows : u.s.Allows env 1) (hfuel : bytes.length ≤ fuel)
    : (loop .stuck (readULEBRound env) fuel u).result = .ok ((bytes.getLastD 0).toNat, {
        r := (u.r + unsigned bytes * 2 ^ (7 * i)) % 2 ^ 64
        shift := 7 * (i + bytes.length)
        s := ⟨u.s.data.add bytes.length, u.s.size⟩ }) := by
  induction hleb generalizing u i fuel with
  | @last byte h =>
    rw [List.length_singleton] at *
    have hfuel : fuel = (fuel - 1) + 1 := by omega
    have hround : (readULEBRound env u).result = .ok (.inr (byte.toNat, u.push byte)) := by
      rw [readULEBRound_eq_ok]
      refine ⟨by rw [hu.shift]; omega, hsize, hallows, byte, hbytes, ?_⟩
      rw [if_neg (by omega)]
    rw [hfuel, loop_leave _ hround]
    have hr := hu.push_r (by omega) byte
    have hshift := hu.shift
    have hpush : u.push byte = ⟨(u.push byte).r, (u.shift + 7) % 256, ⟨u.s.data.add 1, u.s.size⟩⟩ := rfl
    rw [hpush, hr]
    simp only [List.getLastD_cons, List.getLastD_nil, unsigned]
    congr 3
    omega
  | @more byte bytes h rest ih =>
    rw [List.length_cons] at *
    have hpos := rest.length_pos
    have hfuel' : fuel = (fuel - 1) + 1 := by omega
    have hround : (readULEBRound env u).result = .ok (.inl (u.push byte)) := by
      rw [readULEBRound_eq_ok]
      refine ⟨by rw [hu.shift]; omega, hsize, hallows, byte, ⟨hbytes.1, trivial⟩, ?_⟩
      rw [if_pos h]
    rw [hfuel', loop_continue _ hround]
    rw [ih (hu.push (by omega) byte) (by omega) hbytes.2 hsize hallows (by omega)]
    rw [rest.getLastD_cons, hu.push_r (by omega), unsigned]
    have hvalue : u.r + byte.toNat % 128 * 2 ^ (7 * i) + unsigned bytes * 2 ^ (7 * (i + 1))
        = u.r + (byte.toNat % 128 + 128 * unsigned bytes) * 2 ^ (7 * i) := by
      rw [Nat.mul_succ, Nat.pow_add]
      ring
    rw [Nat.mod_add_mod, hvalue, Nat.add_assoc, Nat.add_comm 1]
    dsimp only [ULEB.push]
    rw [Ptr.add_add, Nat.add_comm 1]

theorem isLeb_of_loop_readULEBRound {fuel i value : Nat} {u u' : ULEB}
    (hi : i ≤ 10) (hu : u.shift = 7 * i)
    (h : (loop .stuck (readULEBRound env) fuel u).result = .ok (value, u'))
    : 1 ≤ u.s.size ∧ u.s.Allows env 1
        ∧ ∃ bytes, IsLeb bytes ∧ i + bytes.length ≤ 10 ∧ env.Holds u.s.data bytes := by
  induction fuel generalizing i u with
  | zero => contradiction
  | succ fuel ih =>
    cases loop_eq_ok h with
    | inl hround =>
      have ⟨hshift, hsize, hallows, byte, hbyte, hx⟩ := readULEBRound_eq_ok.mp hround
      split at hx
      next => contradiction
      next hlast =>
        refine ⟨hsize, hallows, [byte], IsLeb.last (by omega), ?_, hbyte⟩
        rw [List.length_singleton]
        omega
    | inr hround =>
      have ⟨u'', hround, hrest⟩ := hround
      have ⟨hshift, hsize, hallows, byte, hbyte, hx⟩ := readULEBRound_eq_ok.mp hround
      split at hx
      next hmore =>
        injection hx with hx
        subst hx
        have hpush : (u.push byte).shift = 7 * (i + 1) := by
          dsimp only [ULEB.push]
          omega
        have ⟨_, _, bytes, hleb, hlen, hbytes⟩ := ih (by omega) hpush hrest
        refine ⟨hsize, hallows, byte :: bytes, IsLeb.more hmore hleb, ?_, hbyte.1, hbytes⟩
        rw [List.length_cons]
        omega
      next => contradiction

theorem readULEBFull_of_isLeb {bytes : List UInt8} {s : StringPiece} (hleb : IsLeb64 bytes)
    (hbytes : env.Holds s.data bytes) (hsize : 1 ≤ s.size) (hallows : s.Allows env 1)
    : (readULEBFull env s).result = .ok ((bytes.getLastD 0).toNat, {
        r := unsigned bytes % 2 ^ 64
        shift := 7 * bytes.length
        s := ⟨s.data.add bytes.length, s.size⟩ }) := by
  have hinitial : ULEB.Partial { r := 0, shift := 0, s := s } 0 := ⟨rfl, Nat.one_pos⟩
  have hend := hbytes.end_le hleb.isLeb.ne_nil
  have hfuel : bytes.length ≤ rounds env s := by
    unfold rounds
    omega
  have hloop := loop_readULEBRound_of_isLeb hleb.isLeb hinitial (by simpa using hleb.length_le)
    hbytes hsize hallows hfuel
  simpa [readULEBFull] using hloop

theorem readULEBFull_eq_ok {value : Nat} {s : StringPiece} {u : ULEB}
    : (readULEBFull env s).result = .ok (value, u)
        ↔ 1 ≤ s.size ∧ s.Allows env 1 ∧ ∃ bytes, IsLeb64 bytes ∧ env.Holds s.data bytes
            ∧ value = (bytes.getLastD 0).toNat
            ∧ u = ⟨unsigned bytes % 2 ^ 64, 7 * bytes.length, ⟨s.data.add bytes.length, s.size⟩⟩ := by
  constructor
  . intro h
    have ⟨hsize, hallows, bytes, hleb, hlen, hbytes⟩ :=
      isLeb_of_loop_readULEBRound (i := 0) (by omega) rfl h
    have hleb : IsLeb64 bytes := ⟨hleb, by omega⟩
    rw [readULEBFull_of_isLeb hleb hbytes hsize hallows] at h
    injection h with h
    injection h with hvalue hu
    exact ⟨hsize, hallows, bytes, hleb, hbytes, hvalue.symm, hu.symm⟩
  . intro ⟨hsize, hallows, bytes, hleb, hbytes, hvalue, hu⟩
    rw [hvalue, hu]
    exact readULEBFull_of_isLeb hleb hbytes hsize hallows

theorem readULEB_eq_ok {value : Nat} {s s' : StringPiece}
    : (readULEB env s).result = .ok (value, s')
        ↔ 1 ≤ s.size ∧ s.Allows env 1 ∧ ∃ bytes, IsLeb64 bytes ∧ env.Holds s.data bytes
            ∧ value = unsigned bytes % 2 ^ 64 ∧ s' = ⟨s.data.add bytes.length, s.size⟩ := by
  unfold readULEB
  rw [bind_eq_ok]
  constructor
  . intro ⟨⟨_, u⟩, hfull, h⟩
    have ⟨hsize, hallows, bytes, hleb, hbytes, _, hu⟩ := readULEBFull_eq_ok.mp hfull
    subst hu
    injection h with h
    injection h with hvalue hs
    exact ⟨hsize, hallows, bytes, hleb, hbytes, hvalue.symm, hs.symm⟩
  . intro ⟨hsize, hallows, bytes, hleb, hbytes, hvalue, hs⟩
    refine ⟨_, readULEBFull_of_isLeb hleb hbytes hsize hallows, ?_⟩
    rw [hvalue, hs]
    rfl

theorem readULEB_of_holds {bytes : List UInt8} {s : StringPiece} (hleb : IsLeb64 bytes)
    (hbytes : env.Holds s.data bytes) (hsize : 1 < s.size)
    : (readULEB env s).result
        = .ok (unsigned bytes % 2 ^ 64, ⟨s.data.add bytes.length, s.size⟩) := by
  rw [readULEB_eq_ok]
  exact ⟨by omega, Or.inr hsize, bytes, hleb, hbytes, rfl, rfl⟩

theorem or_negative {r shift : Nat} (hr : r < 2 ^ shift) (hshift : shift < 64)
    : r ||| (2 ^ 64 - 1 <<< shift) = r + (2 ^ 64 - 2 ^ shift) := by
  have hpow : 2 ^ 64 = 2 ^ (64 - shift) * 2 ^ shift := by
    rw [← Nat.pow_add]
    congr 1
    omega
  have hones : 2 ^ 64 - 1 <<< shift = (2 ^ (64 - shift) - 1) <<< shift := by
    rw [Nat.shiftLeft_eq, Nat.shiftLeft_eq, Nat.sub_mul, ← hpow]
  rw [hones, Nat.or_comm, ← Nat.shiftLeft_add_eq_or_of_lt hr, ← hones, Nat.shiftLeft_eq, Nat.one_mul]
  omega

-- The tenth byte reaches the highest bit, the source extends the sign only before it.
theorem signExtend_eq {bytes : List UInt8} (hleb : IsLeb64 bytes)
    : ((if 7 * bytes.length < 64 ∧ (bytes.getLastD 0).toNat &&& 0x40 ≠ 0 then
        unsigned bytes % 2 ^ 64 ||| (2 ^ 64 - 1 <<< (7 * bytes.length))
      else
        unsigned bytes % 2 ^ 64 : Nat) : Int) = signed bytes % 2 ^ 64 := by
  have hlt := unsigned_lt bytes
  rw [hleb.isLeb.signed_eq]
  simp only [and_0x40_ne_zero]
  by_cases hlen : 7 * bytes.length < 64
  . have hpow : 2 ^ (7 * bytes.length) < 2 ^ 64 := Nat.pow_lt_pow_right (by omega) hlen
    have hmod : unsigned bytes % 2 ^ 64 = unsigned bytes := by
      apply Nat.mod_eq_of_lt
      omega
    rw [hmod]
    by_cases hsign : (bytes.getLastD 0).toNat % 128 < 64
    . rw [if_neg (by omega), if_pos hsign]
      omega
    . have hcast : ((2 ^ (7 * bytes.length) : Nat) : Int) = 2 ^ (7 * bytes.length) := by push_cast; rfl
      rw [if_pos (by omega), if_neg hsign, or_negative hlt hlen, ← hcast]
      omega
  . have hten : bytes.length = 10 := by
      have := hleb.length_le
      omega
    rw [if_neg (by omega), hten]
    split <;> omega

theorem readSLEB_of_holds {bytes : List UInt8} {s : StringPiece} (hleb : IsLeb64 bytes)
    (hbytes : env.Holds s.data bytes) (hsize : 1 < s.size)
    : (readSLEB env s).result
        = .ok (int64 (signed bytes), ⟨s.data.add bytes.length, s.size⟩) := by
  unfold readSLEB
  rw [result_bind_of_ok (readULEBFull_of_isLeb hleb hbytes (by omega) (Or.inr hsize))]
  dsimp only
  rw [signExtend_eq hleb, int64_emod]
  rfl

-- `text` is what the source calls null-terminated, without the zero.
structure Terminated (env : Env) (p : Ptr) (text : List UInt8) : Prop where
  holds : env.Holds p (text ++ [0])
  nonzero : 0 ∉ text

theorem terminated_unique {p : Ptr} {text text' : List UInt8} (h : Terminated env p text)
    (h' : Terminated env p text') : text = text' := by
  induction text generalizing p text' with
  | nil =>
    cases text' with
    | nil => rfl
    | cons byte' text' =>
      have hnonzero' := h'.nonzero
      rw [List.mem_cons, not_or] at hnonzero'
      exact absurd (h.holds.head_eq h'.holds) hnonzero'.1
  | cons byte text ih =>
    have hnonzero := h.nonzero
    rw [List.mem_cons, not_or] at hnonzero
    cases text' with
    | nil => exact absurd (h'.holds.head_eq h.holds) hnonzero.1
    | cons byte' text' =>
      have hnonzero' := h'.nonzero
      rw [List.mem_cons, not_or] at hnonzero'
      have heq := @ih (p.add 1) text' ⟨h.holds.2, hnonzero.2⟩ ⟨h'.holds.2, hnonzero'.2⟩
      rw [h.holds.head_eq h'.holds, heq]

theorem readNullTerminated_eq_ok {s s' ret : StringPiece} (hsize : s.size < 2 ^ 64)
    : (readNullTerminated env s).result = .ok (ret, s')
        ↔ ∃ text, Terminated env s.data text ∧ text.length < s.size ∧ ret = ⟨s.data, text.length⟩
            ∧ s' = ⟨s.data.add (text.length + 1), s.size - (text.length + 1)⟩ := by
  unfold readNullTerminated
  rw [bind_eq_ok]
  have hrest : ∀ n < s.size, StringPiece.assign ((s.data.add n).add 1) s.stop
      = ⟨s.data.add (n + 1), s.size - (n + 1)⟩ := by
    intro n hn
    have hstop : s.stop = (s.data.add (n + 1)).add (s.size - (n + 1)) := by
      rw [StringPiece.stop, Ptr.add_add]
      congr 1
      omega
    rw [hstop, StringPiece.assign, Ptr.add_add, StringPiece.distance_add _ (by omega)]
  have hret : ∀ n < s.size, (StringPiece.ofRange env s.data (s.data.add n)).result
      = .ok ⟨s.data, n⟩ := by
    intro n hn
    unfold StringPiece.ofRange
    rw [result_bind_of_ok (a := ⟨⟩) (Env.dassert_eq_ok.mpr (Or.inr (by simp)))]
    rw [StringPiece.assign, StringPiece.distance_add _ (by omega)]
    rfl
  constructor
  . intro ⟨found, hfound, h⟩
    cases found with
    | none => contradiction
    | some p =>
      have ⟨text, hholds, hnonzero, hlen, hp⟩ := Env.memchr_eq_some.mp hfound
      subst hp
      dsimp only at h
      rw [result_bind_of_ok (hret _ hlen), hrest _ hlen] at h
      injection h with h
      injection h with hret hs
      exact ⟨text, ⟨hholds, hnonzero⟩, hlen, hret.symm, hs.symm⟩
  . intro ⟨text, htext, hlen, heq, hs⟩
    refine ⟨_, Env.memchr_eq_some.mpr ⟨text, htext.holds, htext.nonzero, hlen, rfl⟩, ?_⟩
    dsimp only
    rw [result_bind_of_ok (hret _ hlen), hrest _ hlen, heq, hs]
    rfl

end Dwarf
end Claire
