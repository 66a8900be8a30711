import ClaireCommon.Lib.Scan

/-!
This module contains computations that leave permitted events in their log and stop with permitted
errors only. Every rule is an equivalence: what is permitted of the whole is permitted of the parts
that are reached.
-/

universe u v

namespace Traced

variable {ε ω : Type u} {α β σ : Type v} {event : ω → Prop} {error : ε → Prop}

structure Obeys (event : ω → Prop) (error : ε → Prop) (x : Traced ε ω α) : Prop where
  log : ∀ e ∈ x.log, event e
  stops : ∀ e, x.result = .error e → error e

@[simp]
theorem obeys_pure (a : α) : Obeys event error (pure a) where
  log := by simp
  stops := by simp

@[simp]
theorem obeys_stop (e : ε) : Obeys event error (stop e : Traced ε ω α) ↔ error e := by
  constructor
  . intro h
    exact h.stops e rfl
  . intro h
    constructor
    . simp
    . intro e' he'
      injection he' with he'
      rw [← he']
      exact h

theorem obeys_bind {x : Traced ε ω α} {f : α → Traced ε ω β}
    : Obeys event error (x >>= f)
        ↔ Obeys event error x ∧ ∀ a, x.result = .ok a → Obeys event error (f a) := by
  cases hx : x.result with
  | ok a =>
    have ⟨hresult, hlog⟩ := bind_of_ok hx f
    constructor
    . intro h
      refine ⟨⟨?_, by simp [hx]⟩, ?_⟩
      . intro e he
        exact h.log e (by rw [hlog]; exact List.mem_append_left _ he)
      . intro a' ha'
        injection ha' with ha'
        subst ha'
        constructor
        . intro e he
          exact h.log e (by rw [hlog]; exact List.mem_append_right _ he)
        . intro e he
          exact h.stops e (hresult.trans he)
    . intro ⟨hobeys, hrest⟩
      have hrest := hrest a rfl
      constructor
      . intro e he
        rw [hlog, List.mem_append] at he
        cases he with
        | inl he => exact hobeys.log e he
        | inr he => exact hrest.log e he
      . intro e he
        exact hrest.stops e (hresult.symm.trans he)
  | error e =>
    have ⟨hresult, hlog⟩ := bind_of_error hx f
    constructor
    . intro h
      refine ⟨⟨?_, ?_⟩, by simp⟩
      . rw [← hlog]
        exact h.log
      . intro e' he'
        rw [hx] at he'
        injection he' with he'
        rw [← he']
        exact h.stops e hresult
    . intro ⟨hobeys, _⟩
      constructor
      . rw [hlog]
        exact hobeys.log
      . intro e' he'
        rw [hresult] at he'
        injection he' with he'
        rw [← he']
        exact hobeys.stops e hx

theorem obeys_bind_of_ok {x : Traced ε ω α} {f : α → Traced ε ω β} {a : α} (hx : Obeys event error x)
    (h : x.result = .ok a) : Obeys event error (x >>= f) ↔ Obeys event error (f a) := by
  rw [obeys_bind, h]
  constructor
  . intro ⟨_, hrest⟩
    exact hrest a rfl
  . intro hrest
    refine ⟨hx, ?_⟩
    intro a' ha'
    injection ha' with ha'
    rw [← ha']
    exact hrest

variable {stuck : ε} {next : σ → σ} {n : Nat} {s : σ}

theorem obeys_loop_succ {body : σ → Traced ε ω (σ ⊕ α)}
    : Obeys event error (loop stuck body (n + 1) s)
        ↔ Obeys event error (body s)
          ∧ ∀ s', (body s).result = .ok (.inl s') → Obeys event error (loop stuck body n s') := by
  rw [loop.eq_2, obeys_bind]
  constructor
  . rintro ⟨hbody, hrest⟩
    exact ⟨hbody, fun s' hs' => hrest _ hs'⟩
  . rintro ⟨hbody, hrest⟩
    refine ⟨hbody, ?_⟩
    intro r hr
    cases r with
    | inl s' => exact hrest s' hr
    | inr a => exact obeys_pure a

variable {body : σ → Traced ε ω (Option α)}

theorem obeys_scan_succ
    : Obeys event error (scan next body (n + 1) s)
        ↔ Obeys event error (body s)
          ∧ ((body s).result = .ok none → Obeys event error (scan next body n (next s))) := by
  rw [scan.eq_2, obeys_bind]
  constructor
  . rintro ⟨hbody, hrest⟩
    exact ⟨hbody, fun hnone => hrest _ hnone⟩
  . rintro ⟨hbody, hrest⟩
    refine ⟨hbody, ?_⟩
    intro r hr
    cases r with
    | none => exact hrest hr
    | some a => exact obeys_pure _

theorem obeys_scan
    : Obeys event error (scan next body n s)
        ↔ ∀ i < n, (∀ j < i, (body (next^[j] s)).result = .ok none) →
          Obeys event error (body (next^[i] s)) := by
  induction n generalizing s with
  | zero =>
    refine iff_of_true (obeys_pure _) ?_
    intro i hi
    contradiction
  | succ n ih =>
    rw [obeys_scan_succ, ih]
    constructor
    . intro ⟨hfirst, hrest⟩ i hi hnone
      cases i with
      | zero => exact hfirst
      | succ i =>
        apply hrest (hnone 0 (Nat.zero_lt_succ i)) i (Nat.lt_of_succ_lt_succ hi)
        intro j hj
        exact hnone (j + 1) (Nat.succ_lt_succ hj)
    . intro h
      refine ⟨h 0 (Nat.zero_lt_succ n) (by simp), ?_⟩
      intro hnone i hi hbefore
      apply h (i + 1) (Nat.succ_lt_succ hi)
      intro j hj
      cases j with
      | zero => exact hnone
      | succ j => exact hbefore j (Nat.lt_of_succ_lt_succ hj)

-- A condition on the rounds, of which those behind a round that stops are not reached
theorem not_stops_of_none {stops ready : Nat → Prop}
    (hgoes : ∀ i < n, ready i → (body (next^[i] s)).result = .ok none → ¬stops i)
    (h : ∀ i < n, (∀ j < i, ¬stops j) → ready i) {i : Nat} (hi : i ≤ n)
    (hnone : ∀ j < i, (body (next^[j] s)).result = .ok none) : ∀ j < i, ¬stops j := by
  intro j
  induction j using Nat.strongRecOn with
  | ind j ih =>
    intro hj
    have hready := h j (by omega) fun k hk => ih k hk (by omega)
    exact hgoes j (by omega) hready (hnone j hj)

theorem obeys_scan_of {stops ready : Nat → Prop}
    (hready : ∀ i < n, ready i → Obeys event error (body (next^[i] s)))
    (hgoes : ∀ i < n, ready i → (body (next^[i] s)).result = .ok none → ¬stops i)
    (h : ∀ i < n, (∀ j < i, ¬stops j) → ready i) : Obeys event error (scan next body n s) := by
  rw [obeys_scan]
  intro i hi hnone
  have hreached := not_stops_of_none hgoes h (Nat.le_of_lt hi) hnone
  exact hready i hi (h i hi hreached)

theorem none_of_obeys_scan {stops : Nat → Prop}
    (hgoes : ∀ i < n, Obeys event error (body (next^[i] s)) → ¬stops i →
      (body (next^[i] s)).result = .ok none)
    (h : Obeys event error (scan next body n s)) {i : Nat} (hi : i ≤ n) (hreached : ∀ j < i, ¬stops j)
    : ∀ j < i, (body (next^[j] s)).result = .ok none := by
  rw [obeys_scan] at h
  intro j
  induction j using Nat.strongRecOn with
  | ind j ih =>
    intro hj
    have hobeys := h j (by omega) fun k hk => ih k hk (by omega)
    exact hgoes j (by omega) hobeys (hreached j hj)

theorem ready_of_obeys_scan {stops ready : Nat → Prop}
    (hready : ∀ i < n, Obeys event error (body (next^[i] s)) → ready i)
    (hgoes : ∀ i < n, Obeys event error (body (next^[i] s)) → ¬stops i →
      (body (next^[i] s)).result = .ok none)
    (h : Obeys event error (scan next body n s)) : ∀ i < n, (∀ j < i, ¬stops j) → ready i := by
  intro i hi hreached
  have hnone := none_of_obeys_scan hgoes h (Nat.le_of_lt hi) hreached
  exact hready i hi (obeys_scan.mp h i hi hnone)

end Traced
