import ClaireCommon.Symbolizer.Impl.Dwarf
import ClaireCommon.Symbolizer.Lemmas.Read

/-!
This module contains where `Dwarf::FindAddress` stays inside the sections it reads: `Read` does not
shrink the piece it reads from, so only where nothing is read at all.
-/

namespace Claire
namespace Dwarf

open Traced

variable {env : Env} {α β : Type}

structure StaysInside (env : Env) (reader : Reader α) : Prop where
  ends : (∃ a, reader.result = .ok a) ∨ reader.result = .error .check
  accesses : ∀ p, .access p ∈ reader.log → p.offset < (env.mapping p.block).content.length
  reads : ∀ before after n, .read before after n ∈ reader.log
    → after.stop = before.stop ∧ after.size + n = before.size

theorem StaysInside.of_log_nil {reader : Reader α} (hlog : reader.log = [])
    (hends : (∃ a, reader.result = .ok a) ∨ reader.result = .error .check)
    : StaysInside env reader := by
  constructor
  . exact hends
  . intro p h
    rw [hlog] at h
    contradiction
  . intro before after n h
    rw [hlog] at h
    contradiction

theorem StaysInside.of_bind {x : Reader α} {f : α → Reader β} (h : StaysInside env (x >>= f))
    : StaysInside env x := by
  constructor
  . cases hx : x.result with
    | ok a => exact Or.inl ⟨a, rfl⟩
    | error e =>
      right
      cases h.ends with
      | inl hok =>
        have ⟨b, hb⟩ := hok
        rw [(bind_of_error hx f).1] at hb
        contradiction
      | inr herror =>
        rw [(bind_of_error hx f).1] at herror
        injection herror with herror
        rw [herror]
  . intro p hp
    apply h.accesses
    apply mem_log_bind hp
  . intro before after n hread
    apply h.reads
    apply mem_log_bind hread

theorem not_staysInside_read {n : Nat} {s : StringPiece} {bytes : List UInt8}
    (hlen : bytes.length = n) (hbytes : env.Holds s.data bytes) (hpos : 0 < n) (hsize : n ≤ s.size)
    : ¬StaysInside env (read env n s) := by
  have hcheck : (Reader.check (s.size ≥ n)).result = .ok ⟨⟩ := by
    rw [Reader.check_eq_ok]
    simpa using hsize
  have hpeek := Env.peekMany_eq_ok.mpr ⟨hlen, hbytes⟩
  unfold read
  intro h
  by_cases hallows : s.Allows env n
  . have hadvance := StringPiece.advance_eq_ok.mpr ⟨hallows, rfl⟩
    have hread := h.reads s ⟨s.data.add n, s.size⟩ n
    rw [(bind_of_ok hcheck _).2, (bind_of_ok hpeek _).2, (bind_of_ok hadvance _).2] at hread
    have hshrunk := (hread (by simp [Traced.emit, bind])).2
    dsimp only at hshrunk
    omega
  . have hadvance : (s.advance env n).result = .error .assertion := by
      unfold StringPiece.Allows at hallows
      unfold StringPiece.advance Env.dassert
      apply (bind_of_error _ _).1
      rw [if_neg (by simpa using hallows)]
      rfl
    have hends := h.ends
    rw [(bind_of_ok hcheck _).1, (bind_of_ok hpeek _).1, (bind_of_error hadvance _).1] at hends
    simp at hends

theorem holds_debugSection (block : Block) {n : Nat} (h : n ≤ (debugSection env block).size)
    : ∃ bytes, bytes.length = n ∧ env.Holds (debugSection env block).data bytes := by
  apply Env.exists_holds
  dsimp only [debugSection, Env.mapped] at *
  rw [List.length_append]
  omega

theorem read_eq_stop {n : Nat} {s : StringPiece} (h : s.size < n)
    : read env n s = Traced.stop .check := by
  unfold read Reader.check
  rw [if_neg (by simpa using h), stop_bind]

theorem findAddress_of_empty {address : Nat} (h : (debugSection env .debugAranges).size = 0)
    : findAddress env address = pure (false, .empty) := by
  unfold findAddress rounds loop searchSetsRound Section.next
  simp [Section.create, StringPiece.isEmpty, h]

theorem findAddress_of_lt {address : Nat} (h : 0 < (debugSection env .debugAranges).size)
    (hlt : (debugSection env .debugAranges).size < 4)
    : findAddress env address = Traced.stop .check := by
  unfold findAddress rounds loop searchSetsRound Section.next
  simp [Section.create, StringPiece.isEmpty, Nat.ne_of_gt h, read_eq_stop hlt]

theorem staysInside_iff {address : Nat}
    : StaysInside env (findAddress env address)
        ↔ (env.mapping .debugAranges).content.length < 4 := by
  have hsize : (debugSection env .debugAranges).size = (env.mapping .debugAranges).content.length := rfl
  rw [← hsize]
  constructor
  . intro h
    by_contra hlen
    have ⟨bytes, hbyteslen, hbytes⟩ := @holds_debugSection env .debugAranges 4 (by omega)
    apply not_staysInside_read hbyteslen hbytes (by omega) (by omega)
    have hround : StaysInside env
        (searchSetsRound env address (Section.create (debugSection env .debugAranges))) := by
      unfold findAddress rounds loop at h
      exact h.of_bind.of_bind
    unfold searchSetsRound at hround
    have hnext := hround.of_bind
    unfold Section.next Section.create at hnext
    dsimp only at hnext
    rw [if_neg (by simp [StringPiece.isEmpty]; omega)] at hnext
    exact hnext.of_bind
  . intro h
    by_cases hempty : (debugSection env .debugAranges).size = 0
    . rw [findAddress_of_empty hempty]
      apply StaysInside.of_log_nil
      . rfl
      . left
        exact ⟨_, rfl⟩
    . rw [findAddress_of_lt (by omega) h]
      apply StaysInside.of_log_nil
      . rfl
      . right
        rfl

-- A set of ranges without its ranges: they are searched behind the end of the section.
def truncatedAranges : List UInt8 :=
  [0x0c, 0x00, 0x00, 0x00, 0x02, 0x00, 0x00, 0x00, 0x00, 0x00, 0x08, 0x00, 0x00, 0x00, 0x00, 0x00]

def truncated : Env := .ofSection .debugAranges truncatedAranges (by decide)

theorem truncated_read_outside
    : (∃ p, .access p ∈ (findAddress truncated 0).log ∧ truncatedAranges.length ≤ p.offset)
        ∧ ¬StaysInside truncated (findAddress truncated 0) := by
  have haccess : .access ⟨.debugAranges, 16⟩ ∈ (findAddress truncated 0).log := by decide
  refine ⟨⟨_, haccess, by decide⟩, ?_⟩
  intro h
  have hlt := h.accesses _ haccess
  contradiction

end Dwarf
end Claire
