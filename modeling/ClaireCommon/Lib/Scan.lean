import ClaireCommon.Lib.Traced
import Mathlib.Logic.Function.Iterate

/-!
This module contains loops that go through a number of states until one of them gives a result.
-/

universe u v

namespace Traced

variable {ε ω : Type u} {α σ : Type v}

-- The first result in at most `n` rounds
def scan (next : σ → σ) (body : σ → Traced ε ω (Option α)) : Nat → σ → Traced ε ω (Option α)
  | 0, _ => return none
  | n + 1, s => do
    match ← body s with
    | some a => return some a
    | none => scan next body n (next s)

variable {next : σ → σ} {body : σ → Traced ε ω (Option α)} {n : Nat} {s : σ}

theorem scan_of_some {a : α} (h : (body s).result = .ok (some a))
    : (scan next body (n + 1) s).result = .ok (some a) ∧ (scan next body (n + 1) s).log = (body s).log := by
  unfold scan
  have hbind := bind_of_ok h fun r =>
    match r with
    | some a => (pure (some a) : Traced ε ω (Option α))
    | none => scan next body n (next s)
  refine ⟨hbind.1, ?_⟩
  rw [hbind.2]
  simp

theorem scan_of_none (h : (body s).result = .ok none)
    : (scan next body (n + 1) s).result = (scan next body n (next s)).result
        ∧ (scan next body (n + 1) s).log = (body s).log ++ (scan next body n (next s)).log := by
  rw [scan.eq_2]
  exact bind_of_ok h _

theorem scan_of_error {e : ε} (h : (body s).result = .error e)
    : (scan next body (n + 1) s).result = .error e
        ∧ (scan next body (n + 1) s).log = (body s).log := by
  rw [scan.eq_2]
  exact bind_of_error h _

theorem scan_spec {P : Nat → Prop} {Q : α → Prop} (h : ∀ i < n, ∃ r, (body (next^[i] s)).result = .ok r
      ∧ (r.isSome ↔ P i) ∧ ∀ a, r = some a → Q a)
    : ∃ r, (scan next body n s).result = .ok r ∧ (r.isSome ↔ ∃ i < n, P i) ∧ ∀ a, r = some a → Q a := by
  induction n generalizing s P with
  | zero => exact ⟨none, rfl, by simp, by simp⟩
  | succ n ih =>
    have ⟨first, hfirst, hP, hQ⟩ := h 0 (Nat.zero_lt_succ n)
    rw [Function.iterate_zero_apply] at hfirst
    cases first with
    | some a =>
      refine ⟨some a, (scan_of_some hfirst).1, ?_, hQ⟩
      simp only [Option.isSome_some, true_iff]
      exact ⟨0, Nat.zero_lt_succ n, hP.mp rfl⟩
    | none =>
      have ⟨r, hr, hsome, hresult⟩ := @ih (next s) (fun i => P (i + 1)) (by
        intro i hi
        exact h (i + 1) (Nat.succ_lt_succ hi))
      refine ⟨r, (scan_of_none hfirst).1.trans hr, ?_, hresult⟩
      rw [hsome]
      constructor
      . intro ⟨i, hi, hPi⟩
        exact ⟨i + 1, Nat.succ_lt_succ hi, hPi⟩
      . intro ⟨i, hi, hPi⟩
        cases i with
        | zero =>
          have := hP.mpr hPi
          contradiction
        | succ i => exact ⟨i, Nat.lt_of_succ_lt_succ hi, hPi⟩

theorem scan_eq_some {a : α} : (scan next body n s).result = .ok (some a)
    ↔ ∃ i < n, (∀ j < i, (body (next^[j] s)).result = .ok none)
      ∧ (body (next^[i] s)).result = .ok (some a) := by
  induction n generalizing s with
  | zero => simp [scan]
  | succ n ih =>
    simp only [Nat.exists_lt_succ_left, Nat.forall_lt_succ_left, Function.iterate_succ_apply,
      Function.iterate_zero_apply, Nat.not_lt_zero, false_implies, implies_true, true_and]
    cases hbody : (body s).result with
    | error e => simp [(scan_of_error hbody).1]
    | ok r =>
      cases r with
      | some a' => simp [(scan_of_some hbody).1]
      | none => simp [(scan_of_none hbody).1, ih]

theorem scan_eq_none
    : (scan next body n s).result = .ok none ↔ ∀ i < n, (body (next^[i] s)).result = .ok none := by
  induction n generalizing s with
  | zero => simp [scan]
  | succ n ih =>
    simp only [Nat.forall_lt_succ_left, Function.iterate_succ_apply, Function.iterate_zero_apply]
    cases hbody : (body s).result with
    | error e => simp [(scan_of_error hbody).1]
    | ok r =>
      cases r with
      | some a => simp [(scan_of_some hbody).1]
      | none => simp [(scan_of_none hbody).1, ih]

end Traced
