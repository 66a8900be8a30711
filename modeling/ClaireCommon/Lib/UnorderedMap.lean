import Mathlib.Data.List.Nodup

/-!
This module contains a container that maps keys to values and that enumerates its entries in some
order. `insert` leaves the value of a key that is in use already.
-/

structure UnorderedMap (κ υ : Type*) where
  entries : List (κ × υ)
  nodup : (entries.map Prod.fst).Nodup

namespace UnorderedMap

variable {κ υ : Type*}

def empty : UnorderedMap κ υ where
  entries := []
  nodup := List.nodup_nil

def isEmpty (m : UnorderedMap κ υ) : Bool := m.entries.isEmpty

theorem mem_of_lookup [BEq κ] [LawfulBEq κ] {entries : List (κ × υ)} {k : κ} {v : υ}
    (h : entries.lookup k = some v) : (k, v) ∈ entries := by
  have ⟨front, back, heq, _⟩ := List.lookup_eq_some_iff.mp h
  rw [heq]
  simp

theorem lookup_eq_none [BEq κ] [LawfulBEq κ] {entries : List (κ × υ)} {k : κ}
    : entries.lookup k = none ↔ k ∉ entries.map Prod.fst := by
  rw [List.lookup_eq_none_iff, List.mem_map]
  constructor
  . intro h ⟨entry, hentry, heq⟩
    have := h entry hentry
    rw [heq] at this
    simp at this
  . intro h entry hentry
    rw [bne_iff_ne]
    intro heq
    exact h ⟨entry, hentry, heq.symm⟩

variable [DecidableEq κ]

def find (m : UnorderedMap κ υ) (k : κ) : Option υ := m.entries.lookup k

theorem find_eq_none {m : UnorderedMap κ υ} {k : κ} : m.find k = none ↔ k ∉ m.entries.map Prod.fst :=
  lookup_eq_none

theorem lookup_of_mem {entries : List (κ × υ)} {k : κ} {v : υ}
    (hnodup : (entries.map Prod.fst).Nodup) (h : (k, v) ∈ entries) : entries.lookup k = some v := by
  induction entries with
  | nil => contradiction
  | cons entry entries ih =>
    rw [List.map_cons, List.nodup_cons] at hnodup
    cases List.mem_cons.mp h with
    | inl heq => rw [← heq, List.lookup_cons_self]
    | inr hmem =>
      have hne : k ≠ entry.1 := by
        intro heq
        apply hnodup.1
        rw [← heq]
        exact List.mem_map_of_mem hmem
      rw [List.lookup_cons, beq_eq_false_iff_ne.mpr hne]
      exact ih hnodup.2 hmem

theorem find_eq_some {m : UnorderedMap κ υ} {k : κ} {v : υ}
    : m.find k = some v ↔ (k, v) ∈ m.entries := by
  constructor
  . exact mem_of_lookup
  . exact lookup_of_mem m.nodup

@[simp]
theorem find_empty (k : κ) : (empty : UnorderedMap κ υ).find k = none := rfl

theorem find_of_isEmpty {m : UnorderedMap κ υ} (h : m.isEmpty) (k : κ) : m.find k = none := by
  unfold isEmpty at h
  unfold find
  rw [List.isEmpty_iff.mp h]
  rfl

def insert (m : UnorderedMap κ υ) (k : κ) (v : υ) : UnorderedMap κ υ :=
  if h : k ∈ m.entries.map Prod.fst then
    m
  else
    {
      entries := m.entries ++ [(k, v)]
      nodup := by
        rw [List.map_append]
        apply List.Nodup.append m.nodup (List.nodup_singleton _)
        intro k' hk' heq
        rw [List.mem_singleton] at heq
        rw [heq] at hk'
        exact h hk'
    }

theorem find_insert {m : UnorderedMap κ υ} {k : κ} (h : m.find k = none) (v : υ) (k' : κ)
    : (m.insert k v).find k' = if k' = k then some v else m.find k' := by
  rw [find_eq_none] at h
  unfold insert
  rw [dif_neg h]
  unfold find
  rw [List.lookup_append]
  split
  . next heq =>
    rw [heq, lookup_eq_none.mpr h]
    simp
  . next hne =>
    rw [List.lookup_cons, beq_eq_false_iff_ne.mpr hne]
    simp

theorem find_foldl_insert {α : Type*} {entries : List (κ × α)} (f : κ × α → υ)
    {m : UnorderedMap κ υ} (hnodup : (entries.map Prod.fst).Nodup)
    (hfresh : ∀ k ∈ entries.map Prod.fst, m.find k = none) (k : κ)
    : (entries.foldl (fun m entry => m.insert entry.1 (f entry)) m).find k
        = ((entries.lookup k).map fun a => f (k, a)).or (m.find k) := by
  induction entries generalizing m with
  | nil => rfl
  | cons entry entries ih =>
    rw [List.map_cons, List.nodup_cons] at hnodup
    rw [List.map_cons, List.forall_mem_cons] at hfresh
    rw [List.foldl_cons, ih hnodup.2]
    . rw [find_insert hfresh.1]
      by_cases heq : k = entry.1
      . rw [heq, lookup_eq_none.mpr hnodup.1, if_pos rfl, List.lookup_cons_self]
        rfl
      . rw [if_neg heq, List.lookup_cons, beq_eq_false_iff_ne.mpr heq]
    . intro k' hk'
      rw [find_insert hfresh.1, if_neg]
      . exact hfresh.2 k' hk'
      . intro heq
        rw [heq] at hk'
        exact hnodup.1 hk'

end UnorderedMap
