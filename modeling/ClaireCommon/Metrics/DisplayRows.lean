import Mathlib.Data.List.Basic

/-!
This module contains the rows of a display of counts: a row for one bucket or for a run of empty ones.
The code that writes the display is not used here.
-/

namespace Claire

inductive DisplayRow where
  | bucket (i : Nat)
  | run (i skipped : Nat)
  deriving DecidableEq, Repr

namespace DisplayRow

def shown : DisplayRow → List Nat
  | bucket i => [i]
  | run _ _ => []

-- The rows show the buckets from `i` to `n`, one behind the other. Two empty buckets in a row begin a
-- run, it has every empty bucket up to the next one that is not.
inductive Cover (count : Nat → Int) (n : Nat) : Nat → List DisplayRow → Prop
  | nil : Cover count n n []
  | bucket {i : Nat} {rows : List DisplayRow} (hlt : i < n)
      (hfull : count i = 0 → i + 1 < n → count (i + 1) ≠ 0)
      (hrest : Cover count n (i + 1) rows) : Cover count n i (.bucket i :: rows)
  | run {i skipped : Nat} {rows : List DisplayRow} (hlt : i + skipped < n)
      (hempty : ∀ j, i ≤ j → j ≤ i + skipped → count j = 0)
      (hend : i + skipped + 1 < n → count (i + skipped + 1) ≠ 0)
      (hrest : Cover count n (i + skipped + 1) rows) : Cover count n i (.run i skipped :: rows)

variable {count : Nat → Int} {n i : Nat} {rows : List DisplayRow}

theorem Cover.mem_shown (h : Cover count n i rows) {j : Nat} (hi : i ≤ j) (hj : j < n)
    (hcount : count j ≠ 0) : j ∈ rows.flatMap shown := by
  induction h with
  | nil => omega
  | @bucket i rows hlt hfull hrest ih =>
    rw [List.flatMap_cons, List.mem_append]
    by_cases heq : j = i
    . apply Or.inl
      simp [shown, heq]
    . apply Or.inr
      apply ih
      omega
  | @run i skipped rows hlt hempty hend hrest ih =>
    rw [List.flatMap_cons, List.mem_append]
    by_cases hrun : j ≤ i + skipped
    . exact absurd (hempty j hi hrun) hcount
    . apply Or.inr
      apply ih
      omega

theorem Cover.shown_range (h : Cover count n i rows) {j : Nat} (hj : j ∈ rows.flatMap shown)
    : i ≤ j ∧ j < n := by
  induction h with
  | nil => contradiction
  | @bucket i rows hlt hfull hrest ih =>
    rw [List.flatMap_cons, List.mem_append] at hj
    cases hj with
    | inl hhead =>
      have heq := List.mem_singleton.mp hhead
      omega
    | inr htail =>
      have := ih htail
      omega
  | @run i skipped rows hlt hempty hend hrest ih =>
    rw [List.flatMap_cons, List.mem_append] at hj
    cases hj with
    | inl hhead => contradiction
    | inr htail =>
      have := ih htail
      omega

theorem Cover.shown_increasing (h : Cover count n i rows)
    : (rows.flatMap shown).Pairwise (· < ·) := by
  induction h with
  | nil => apply List.Pairwise.nil
  | @bucket i rows hlt hfull hrest ih =>
    apply List.Pairwise.cons
    . intro j hj
      have := hrest.shown_range hj
      omega
    . apply ih
  | run hlt hempty hend hrest ih => apply ih

theorem Cover.shown_eq_nil (h : Cover count n i rows) (htwo : i + 2 ≤ n)
    (hempty : ∀ j, i ≤ j → j < n → count j = 0) : rows.flatMap shown = [] := by
  cases h with
  | nil => omega
  | bucket hlt hfull hrest =>
    apply absurd _ (hfull _ _)
    . apply hempty <;> omega
    . apply hempty <;> omega
    . omega
  | @run _ skipped rows hlt hrun hend hrest =>
    by_cases hmore : i + skipped + 1 < n
    . apply absurd _ (hend hmore)
      apply hempty <;> omega
    . cases hrest with
      | nil => rfl
      | bucket hlt => omega
      | run hlt => omega

end DisplayRow
end Claire
