import ClaireCommon.Strings.Impl.StringPiece
import Mathlib.Logic.Function.Iterate

/-!
This module contains what the accesses to memory and the operations of `StringPiece` return, in terms
of the bytes that memory holds.
-/

namespace Claire

open Traced

namespace Ptr

variable (p : Ptr) (n m : Nat)

@[simp]
theorem add_zero : p.add 0 = p := rfl

@[simp]
theorem add_add : (p.add n).add m = p.add (n + m) := by
  simp [add, Nat.add_assoc]

@[simp]
theorem block_add : (p.add n).block = p.block := rfl

@[simp]
theorem offset_add : (p.add n).offset = p.offset + n := rfl

theorem add_inj : p.add n = p.add m ↔ n = m := by
  simp [add]

theorem iterate_add (stride : Nat) : (·.add stride)^[n] p = p.add (n * stride) := by
  induction n with
  | zero => rw [Nat.zero_mul, Function.iterate_zero_apply, add_zero]
  | succ n ih => rw [Function.iterate_succ_apply', ih, add_add, Nat.succ_mul]

end Ptr

theorem Reader.check_eq_ok {condition : Bool} {u : PUnit}
    : (Reader.check condition).result = .ok u ↔ condition = true := by
  cases condition <;> simp [Reader.check]

namespace Env

variable {env : Env} {p : Ptr} {bytes : List UInt8}

theorem dassert_eq_ok {condition : Bool} {u : PUnit}
    : (env.dassert condition).result = .ok u ↔ env.ndebug = true ∨ condition = true := by
  unfold dassert
  cases hc : (env.ndebug || condition) <;> simp_all

theorem dcheck_eq_ok {condition : Bool} {u : PUnit}
    : (env.dcheck condition).result = .ok u ↔ env.ndebug = true ∨ condition = true := by
  unfold dcheck
  cases hc : (env.ndebug || condition) <;> simp_all

def Holds (env : Env) : Ptr → List UInt8 → Prop
  | _, [] => True
  | p, byte :: bytes => (env.mapped p.block)[p.offset]? = some byte ∧ env.Holds (p.add 1) bytes

instance (env : Env) : (p : Ptr) → (bytes : List UInt8) → Decidable (env.Holds p bytes)
  | _, [] => isTrue trivial
  | p, byte :: bytes =>
    have : Decidable (env.Holds (p.add 1) bytes) := instDecidableHolds env (p.add 1) bytes
    inferInstanceAs (Decidable ((env.mapped p.block)[p.offset]? = some byte ∧ _))

theorem holds_append {xs ys : List UInt8}
    : env.Holds p (xs ++ ys) ↔ env.Holds p xs ∧ env.Holds (p.add xs.length) ys := by
  induction xs generalizing p with
  | nil => simp [Holds]
  | cons byte xs ih =>
    rw [List.cons_append, Holds, Holds, ih, and_assoc, Ptr.add_add, Nat.add_comm 1, List.length_cons]

theorem Holds.end_le (h : env.Holds p bytes) (hne : bytes ≠ [])
    : p.offset + bytes.length ≤ (env.mapped p.block).length := by
  induction bytes generalizing p with
  | nil => contradiction
  | cons byte bytes ih =>
    have ⟨hbyte, hbytes⟩ := h
    have ⟨hlt, _⟩ := List.getElem?_eq_some_iff.mp hbyte
    rw [List.length_cons]
    cases bytes with
    | nil => exact hlt
    | cons byte' bytes =>
      have := ih hbytes (by simp)
      simp only [Ptr.offset_add, Ptr.block_add] at this
      omega

theorem Holds.getElem? (h : env.Holds p bytes) {n : Nat} {byte : UInt8} (hbyte : bytes[n]? = some byte)
    : (env.mapped (p.add n).block)[(p.add n).offset]? = some byte := by
  induction bytes generalizing p n with
  | nil => contradiction
  | cons first bytes ih =>
    cases n with
    | zero =>
      rw [← hbyte]
      exact h.1
    | succ n =>
      have hrest := ih h.2 hbyte
      rw [Ptr.add_add, Nat.add_comm] at hrest
      exact hrest

theorem mapped_length_lt (block : Block) : (env.mapped block).length < 2 ^ 64 :=
  (env.mapping block).length_lt

theorem Holds.length_lt (h : env.Holds p bytes) : bytes.length < 2 ^ 64 := by
  cases bytes with
  | nil => exact (by decide : 0 < 2 ^ 64)
  | cons byte bytes =>
    have hend := h.end_le (by simp)
    have hlt := @mapped_length_lt env p.block
    omega

theorem exists_holds {n : Nat} (h : p.offset + n ≤ (env.mapped p.block).length)
    : ∃ bytes, bytes.length = n ∧ env.Holds p bytes := by
  induction n generalizing p with
  | zero => exact ⟨[], rfl, trivial⟩
  | succ n ih =>
    have ⟨bytes, hlen, hbytes⟩ := @ih (p.add 1) (by
      simp only [Ptr.offset_add, Ptr.block_add]
      omega)
    refine ⟨(env.mapped p.block)[p.offset] :: bytes, ?_, ?_, hbytes⟩
    . rw [List.length_cons, hlen]
    . apply List.getElem?_eq_getElem

theorem holds_of_mapped {block : Block} {before after : List UInt8}
    (h : env.mapped block = before ++ bytes ++ after) : env.Holds ⟨block, before.length⟩ bytes := by
  induction bytes generalizing before with
  | nil => trivial
  | cons byte bytes ih =>
    constructor
    . rw [h, List.append_assoc, List.getElem?_append_right (Nat.le_refl _), Nat.sub_self]
      rfl
    . have hrest := @ih (before ++ [byte]) (by simp [h])
      rw [List.length_append] at hrest
      apply hrest

theorem Holds.head_eq {byte byte' : UInt8} {bytes' : List UInt8} (h : env.Holds p (byte :: bytes))
    (h' : env.Holds p (byte' :: bytes')) : byte = byte' := by
  have heq := h.1.symm.trans h'.1
  injection heq

theorem Holds.unique {bytes' : List UInt8} (h : env.Holds p bytes) (h' : env.Holds p bytes')
    (hlen : bytes.length = bytes'.length) : bytes = bytes' := by
  induction bytes generalizing p bytes' with
  | nil =>
    symm
    apply List.length_eq_zero_iff.mp
    exact hlen.symm
  | cons byte bytes ih =>
    cases bytes' with
    | nil => contradiction
    | cons byte' bytes' =>
      rw [h.head_eq h', ih h.2 h'.2 (by simpa using hlen)]

theorem peek_eq_ok {byte : UInt8}
    : (env.peek p).result = .ok byte ↔ (env.mapped p.block)[p.offset]? = some byte := by
  unfold peek
  rw [result_bind_of_ok rfl]
  split <;> simp_all

theorem peekMany_eq_ok {n : Nat}
    : (env.peekMany p n).result = .ok bytes ↔ bytes.length = n ∧ env.Holds p bytes := by
  induction n generalizing p bytes with
  | zero => cases bytes <;> simp [peekMany, Holds]
  | succ n ih =>
    unfold peekMany
    simp only [bind_eq_ok, peek_eq_ok, ih, result_pure]
    cases bytes with
    | nil => simp
    | cons byte bytes => grind [Holds]

theorem peekMany_eq_fault {n : Nat} (hle : p.offset ≤ (env.mapped p.block).length)
    (hlt : (env.mapped p.block).length < p.offset + n)
    : (env.peekMany p n).result = .error .fault := by
  induction n generalizing p with
  | zero => omega
  | succ n ih =>
    unfold peekMany
    by_cases hend : p.offset < (env.mapped p.block).length
    . have hpeek := peek_eq_ok.mpr (List.getElem?_eq_getElem hend)
      rw [result_bind_of_ok hpeek, (bind_of_error (ih _ _) _).1]
      . exact hend
      . simp only [Ptr.block_add, Ptr.offset_add]
        omega
    . have hpeek : (env.peek p).result = .error .fault := by
        unfold peek
        rw [result_bind_of_ok rfl, List.getElem?_eq_none (by omega)]
        rfl
      rw [(bind_of_error hpeek _).1]

theorem mem_log_peek {event : Observation} : event ∈ (env.peek p).log ↔ event = .access p := by
  unfold peek
  rw [mem_log_bind_iff, log_emit, List.mem_singleton]
  constructor
  . intro h
    cases h with
    | inl h => exact h
    | inr h =>
      have ⟨_, _, hmem⟩ := h
      split at hmem <;> contradiction
  . intro h
    exact Or.inl h

theorem mem_log_peekMany {event : Observation} {n : Nat} (h : event ∈ (env.peekMany p n).log)
    : ∃ i, i < n ∧ event = .access (p.add i) := by
  induction n generalizing p with
  | zero => contradiction
  | succ n ih =>
    unfold peekMany at h
    rw [mem_log_bind_iff, mem_log_peek] at h
    cases h with
    | inl hfirst => exact ⟨0, Nat.zero_lt_succ n, hfirst⟩
    | inr hrest =>
      have ⟨_, _, hmem⟩ := hrest
      rw [mem_log_bind_iff] at hmem
      cases hmem with
      | inl hmem =>
        have ⟨i, hi, hevent⟩ := ih hmem
        rw [Ptr.add_add, Nat.add_comm] at hevent
        exact ⟨i + 1, Nat.succ_lt_succ hi, hevent⟩
      | inr hmem =>
        have ⟨_, _, hmem⟩ := hmem
        contradiction

theorem access_mem_log_peekMany {n : Nat} (hpos : 0 < n) : .access p ∈ (env.peekMany p n).log := by
  cases n with
  | zero => contradiction
  | succ n =>
    unfold peekMany
    apply mem_log_bind
    rw [mem_log_peek]

theorem memchr_eq_some {c : UInt8} {n : Nat} {q : Ptr}
    : (env.memchr p c n).result = .ok (some q)
        ↔ ∃ bytes, env.Holds p (bytes ++ [c]) ∧ c ∉ bytes ∧ bytes.length < n
            ∧ q = p.add bytes.length := by
  induction n generalizing p with
  | zero => simp [memchr]
  | succ n ih =>
    unfold memchr
    rw [bind_eq_ok]
    simp only [peek_eq_ok]
    constructor
    . intro ⟨byte, hbyte, h⟩
      split at h
      next heq =>
        injection h with h
        injection h with h
        subst heq h
        exact ⟨[], ⟨hbyte, trivial⟩, by simp, by simp, rfl⟩
      next hne =>
        have ⟨bytes, hbytes, hc, hlen, hq⟩ := ih.mp h
        refine ⟨byte :: bytes, ⟨hbyte, hbytes⟩, ?_, ?_, ?_⟩
        . simp only [List.mem_cons, not_or]
          exact ⟨Ne.symm hne, hc⟩
        . rw [List.length_cons]
          omega
        . rw [hq, Ptr.add_add, Nat.add_comm, List.length_cons]
    . intro ⟨bytes, hbytes, hc, hlen, hq⟩
      cases bytes with
      | nil =>
        refine ⟨c, hbytes.1, ?_⟩
        rw [if_pos rfl, hq]
        rfl
      | cons byte bytes =>
        simp only [List.mem_cons, not_or] at hc
        refine ⟨byte, hbytes.1, ?_⟩
        rw [if_neg (Ne.symm hc.1), ih]
        refine ⟨bytes, hbytes.2, hc.2, ?_, ?_⟩
        . rw [List.length_cons] at hlen
          omega
        . rw [hq, Ptr.add_add, Nat.add_comm, List.length_cons]

def ofSection (block : Block) (content : List UInt8) (h : content.length < 2 ^ 64) : Env where
  ndebug := false
  uninitialized := 0
  mapping := fun b =>
    if b = block then ⟨content, [], by simpa using h⟩ else ⟨[], [], by decide⟩

end Env

namespace StringPiece

variable {env : Env}

-- `advance` only checks its argument with an assert.
def Allows (env : Env) (s : StringPiece) (n : Nat) : Prop := env.ndebug = true ∨ n < s.size

theorem advance_eq_ok {s s' : StringPiece} {n : Nat}
    : (s.advance env n).result = .ok s'
        ↔ s.Allows env n ∧ s' = { s with data := s.data.add n } := by
  unfold advance Allows
  simp only [bind_eq_ok, Env.dassert_eq_ok, result_pure, decide_eq_true_eq, Except.ok.injEq]
  constructor
  . intro ⟨_, hroom, heq⟩
    exact ⟨hroom, heq.symm⟩
  . intro ⟨hroom, heq⟩
    exact ⟨⟨⟩, hroom, heq.symm⟩

theorem distance_add (p : Ptr) {n : Nat} (h : n < 2 ^ 64) : distance p (p.add n) = n := by
  unfold distance sizeT
  simp only [Ptr.offset_add]
  omega

structure Covers (env : Env) (s : StringPiece) (bytes : List UInt8) : Prop where
  holds : env.Holds s.data bytes
  size : s.size = bytes.length

theorem Covers.size_lt {s : StringPiece} {bytes : List UInt8} (h : s.Covers env bytes)
    : s.size < 2 ^ 64 := by
  rw [h.size]
  exact h.holds.length_lt

end StringPiece
end Claire
