import Mathlib.Data.List.Basic
import Mathlib.Order.Bounds.Basic

/-!
This module contains where a list occurs in another one, and the search for its first and its last
occurrence.
-/

universe u

namespace Occurrence

variable {α : Type u} {ts ss : List α} {i : Nat}

structure Occurs (ts ss : List α) (i : Nat) : Prop where
  fits : i + ss.length ≤ ts.length
  equal : (ts.drop i).take ss.length = ss

theorem occurs_zero : Occurs ts ss 0 ↔ ss <+: ts := by
  rw [List.prefix_iff_eq_take]
  constructor
  . intro ⟨_, hequal⟩
    exact hequal.symm
  . intro h
    refine ⟨?_, h.symm⟩
    have hle := List.length_take_le' ss.length ts
    rw [← h] at hle
    omega

theorem occurs_succ {a : α} : Occurs (a :: ts) ss (i + 1) ↔ Occurs ts ss i := by
  constructor
  . intro ⟨hfits, hequal⟩
    rw [List.length_cons] at hfits
    exact ⟨by omega, hequal⟩
  . intro ⟨hfits, hequal⟩
    refine ⟨?_, hequal⟩
    rw [List.length_cons]
    omega

theorem occurs_nil (hne : ss ≠ []) : ¬Occurs [] ss i := by
  intro ⟨hfits, _⟩
  have hpos := List.length_pos_iff.mpr hne
  rw [List.length_nil] at hfits
  omega

theorem occurs_drop {n : Nat} (hn : n ≤ ts.length) : Occurs (ts.drop n) ss i ↔ Occurs ts ss (n + i) := by
  constructor
  . intro ⟨hfits, hequal⟩
    rw [List.length_drop] at hfits
    rw [List.drop_drop] at hequal
    exact ⟨by omega, hequal⟩
  . intro ⟨hfits, hequal⟩
    refine ⟨?_, ?_⟩
    . rw [List.length_drop]
      omega
    . rw [List.drop_drop]
      exact hequal

theorem occurs_take {n : Nat}
    : Occurs (ts.take n) ss i ↔ Occurs ts ss i ∧ i + ss.length ≤ n := by
  have htake (hle : i + ss.length ≤ n)
      : ((ts.take n).drop i).take ss.length = (ts.drop i).take ss.length := by
    rw [List.drop_take, List.take_take, Nat.min_eq_left (by omega)]
  constructor
  . intro ⟨hfits, hequal⟩
    rw [List.length_take] at hfits
    have hle : i + ss.length ≤ n := by omega
    rw [htake hle] at hequal
    exact ⟨⟨by omega, hequal⟩, hle⟩
  . intro ⟨⟨hfits, hequal⟩, hle⟩
    refine ⟨?_, ?_⟩
    . rw [List.length_take]
      omega
    . rw [htake hle]
      exact hequal

theorem occurs_singleton {a : α} : Occurs ts [a] i ↔ ts[i]? = some a := by
  have htake : (ts.drop i).take 1 = ts[i]?.toList := by
    rw [List.take_one, List.head?_drop]
  constructor
  . intro ⟨_, hequal⟩
    rw [List.length_singleton, htake] at hequal
    exact Option.toList_eq_singleton_iff.mp hequal
  . intro h
    have ⟨hlt, _⟩ := List.getElem?_eq_some_iff.mp h
    refine ⟨hlt, ?_⟩
    rw [List.length_singleton, htake, h]
    rfl

variable [DecidableEq α]

-- The length of the list where there is no occurrence
def search (ss : List α) : List α → Nat
  | [] => 0
  | a :: ts => if ss.isPrefixOf (a :: ts) then 0 else search ss ts + 1

def last? (ss : List α) : List α → Option Nat
  | [] => none
  | a :: ts =>
    match last? ss ts with
    | some i => some (i + 1)
    | none => if ss.isPrefixOf (a :: ts) then some 0 else none

def findEnd (ss ts : List α) : Nat := (last? ss ts).getD ts.length

theorem search_spec
    : IsLeast {i | Occurs ts ss i} (search ss ts)
        ∨ search ss ts = ts.length ∧ ∀ i, ¬Occurs ts ss i := by
  induction ts with
  | nil =>
    by_cases hne : ss = []
    . refine Or.inl ⟨?_, fun i _ => Nat.zero_le i⟩
      rw [hne]
      exact occurs_zero.mpr (List.prefix_refl [])
    . exact Or.inr ⟨rfl, fun i => occurs_nil hne⟩
  | cons a ts ih =>
    unfold search
    split
    next hstarts =>
      rw [List.isPrefixOf_iff_prefix, ← occurs_zero] at hstarts
      exact Or.inl ⟨hstarts, fun i _ => Nat.zero_le i⟩
    next hstarts =>
      rw [List.isPrefixOf_iff_prefix, ← occurs_zero] at hstarts
      cases ih with
      | inl hleast =>
        refine Or.inl ⟨occurs_succ.mpr hleast.1, ?_⟩
        intro i hi
        cases i with
        | zero => contradiction
        | succ i => exact Nat.succ_le_succ (hleast.2 (occurs_succ.mp hi))
      | inr hnone =>
        refine Or.inr ⟨by rw [hnone.1, List.length_cons], ?_⟩
        intro i hi
        cases i with
        | zero => contradiction
        | succ i => exact hnone.2 i (occurs_succ.mp hi)

theorem search_singleton (a : α) : search [a] ts = ts.idxOf a := by
  induction ts with
  | nil => rfl
  | cons b ts ih =>
    unfold search
    by_cases h : a = b
    . rw [List.idxOf_cons_eq ts h.symm, if_pos (by simp [h])]
    . rw [List.idxOf_cons_ne ts (Ne.symm h), if_neg (by simp [h]), ih]

theorem search_drop_spec {n : Nat} (hn : n ≤ ts.length)
    : IsLeast {i | n ≤ i ∧ Occurs ts ss i} (n + search ss (ts.drop n))
        ∨ n + search ss (ts.drop n) = ts.length ∧ 0 < ss.length ∧ ∀ i, n ≤ i → ¬Occurs ts ss i := by
  have hbehind {i : Nat} (hi : n ≤ i) : Occurs (ts.drop n) ss (i - n) ↔ Occurs ts ss i := by
    rw [occurs_drop hn, Nat.add_sub_cancel' hi]
  cases @search_spec _ (ts.drop n) ss _ with
  | inl hleast =>
    refine Or.inl ⟨⟨Nat.le_add_right _ _, (occurs_drop hn).mp hleast.1⟩, ?_⟩
    intro i ⟨hi, hoccurs⟩
    have hmin := hleast.2 ((hbehind hi).mpr hoccurs)
    omega
  | inr hnone =>
    refine Or.inr ⟨?_, ?_, fun i hi hoccurs => hnone.2 _ ((hbehind hi).mpr hoccurs)⟩
    . rw [hnone.1, List.length_drop]
      omega
    . apply List.length_pos_iff.mpr
      intro hnil
      apply hnone.2 0
      rw [hnil]
      exact occurs_zero.mpr List.nil_prefix

theorem last?_spec (hne : ss ≠ [])
    : (∃ i, last? ss ts = some i ∧ IsGreatest {i | Occurs ts ss i} i)
        ∨ last? ss ts = none ∧ ∀ i, ¬Occurs ts ss i := by
  induction ts with
  | nil => exact Or.inr ⟨rfl, fun i => occurs_nil hne⟩
  | cons a ts ih =>
    unfold last?
    cases ih with
    | inl hsome =>
      have ⟨i, hi, hgreatest⟩ := hsome
      rw [hi]
      refine Or.inl ⟨i + 1, rfl, occurs_succ.mpr hgreatest.1, ?_⟩
      intro j hj
      cases j with
      | zero => exact Nat.zero_le _
      | succ j => exact Nat.succ_le_succ (hgreatest.2 (occurs_succ.mp hj))
    | inr hnone =>
      rw [hnone.1]
      dsimp only
      split
      next hstarts =>
        rw [List.isPrefixOf_iff_prefix, ← occurs_zero] at hstarts
        refine Or.inl ⟨0, rfl, hstarts, ?_⟩
        intro j hj
        cases j with
        | zero => exact Nat.le_refl 0
        | succ j => exact absurd (occurs_succ.mp hj) (hnone.2 j)
      next hstarts =>
        rw [List.isPrefixOf_iff_prefix, ← occurs_zero] at hstarts
        refine Or.inr ⟨rfl, ?_⟩
        intro j hj
        cases j with
        | zero => contradiction
        | succ j => exact hnone.2 j (occurs_succ.mp hj)

theorem findEnd_spec (hne : ss ≠ [])
    : IsGreatest {i | Occurs ts ss i} (findEnd ss ts)
        ∨ findEnd ss ts = ts.length ∧ ∀ i, ¬Occurs ts ss i := by
  unfold findEnd
  cases @last?_spec _ ts ss _ hne with
  | inl hsome =>
    have ⟨i, hi, hgreatest⟩ := hsome
    rw [hi]
    exact Or.inl hgreatest
  | inr hnone =>
    rw [hnone.1]
    exact Or.inr ⟨rfl, hnone.2⟩

theorem findEnd_take_spec {n : Nat} (hne : ss ≠ []) (hn : n ≤ ts.length)
    : IsGreatest {i | i + ss.length ≤ n ∧ Occurs ts ss i} (findEnd ss (ts.take n))
        ∨ findEnd ss (ts.take n) = n ∧ ∀ i, i + ss.length ≤ n → ¬Occurs ts ss i := by
  cases @findEnd_spec _ (ts.take n) ss _ hne with
  | inl hgreatest =>
    have ⟨hoccurs, hle⟩ := occurs_take.mp hgreatest.1
    refine Or.inl ⟨⟨hle, hoccurs⟩, ?_⟩
    intro i ⟨hi, hoccurs⟩
    exact hgreatest.2 (occurs_take.mpr ⟨hoccurs, hi⟩)
  | inr hnone =>
    refine Or.inr ⟨?_, fun i hi hoccurs => hnone.2 i (occurs_take.mpr ⟨hoccurs, hi⟩)⟩
    rw [hnone.1, List.length_take_of_le hn]

end Occurrence
