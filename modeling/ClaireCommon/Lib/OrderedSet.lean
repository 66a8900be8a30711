import Mathlib.Data.List.Nodup
import Mathlib.Data.List.TakeWhile
import Mathlib.Order.Lattice

/-!
This module contains a container that is a set with respect to a unique key and that enumerates its
elements by a second, not necessarily unique, rank. Elements of equal rank are enumerated in the
order of their insertion, an element whose key is in use already is rejected by `insert`.
-/

variable {α ι ο : Type*} [LinearOrder ο]

structure OrderedSet (key : α → ι) (rank : α → ο) where
  elems : List α
  nodup : (elems.map key).Nodup
  sorted : elems.Pairwise (fun a b => rank a ≤ rank b)

namespace OrderedSet

variable {key : α → ι} {rank : α → ο}

instance : Membership α (OrderedSet key rank) where
  mem s a := a ∈ s.elems

theorem mem_def {s : OrderedSet key rank} {a : α} : a ∈ s ↔ a ∈ s.elems := Iff.rfl

def keys (s : OrderedSet key rank) : List ι := s.elems.map key

theorem mem_keys {s : OrderedSet key rank} {k : ι} : k ∈ s.keys ↔ ∃ a ∈ s, key a = k := by
  simp [keys, mem_def]

theorem key_mem_keys {s : OrderedSet key rank} {a : α} (h : a ∈ s) : key a ∈ s.keys := by
  rw [mem_keys]
  exact ⟨a, h, rfl⟩

theorem eq_of_key_eq {s : OrderedSet key rank} {a b : α} (ha : a ∈ s) (hb : b ∈ s)
    (h : key a = key b) : a = b := by
  apply List.inj_on_of_nodup_map s.nodup
  . exact ha
  . exact hb
  . exact h

def empty : OrderedSet key rank where
  elems := []
  nodup := List.nodup_nil
  sorted := List.Pairwise.nil

@[simp]
theorem elems_empty : (empty : OrderedSet key rank).elems = [] := rfl

def upTo (s : OrderedSet key rank) (r : ο) : List α := s.elems.takeWhile (rank · ≤ r)

def above (s : OrderedSet key rank) (r : ο) : List α := s.elems.dropWhile (rank · ≤ r)

theorem upTo_append_above (s : OrderedSet key rank) (r : ο) : s.upTo r ++ s.above r = s.elems := by
  simp [upTo, above]

theorem rank_le_of_mem_upTo {s : OrderedSet key rank} {r : ο} {a : α} (h : a ∈ s.upTo r)
    : rank a ≤ r := by
  simpa using List.mem_takeWhile_imp h

theorem lt_rank_of_mem_above {s : OrderedSet key rank} {r : ο} {a : α} (h : a ∈ s.above r)
    : r < rank a := by
  have hsorted : (s.above r).Pairwise (fun a b => rank a ≤ rank b) :=
    s.sorted.sublist (List.dropWhile_sublist _)
  unfold above at h hsorted
  cases habove : s.elems.dropWhile (rank · ≤ r) with
  | nil => simp [habove] at h
  | cons b bs =>
    have hb : ¬ rank b ≤ r := by
      have := List.head_dropWhile_not (rank · ≤ r) (l := s.elems) (by simp [habove])
      simpa [habove] using this
    rw [habove] at h hsorted
    rw [List.pairwise_cons] at hsorted
    rcases List.mem_cons.mp h with rfl | h
    . exact not_le.mp hb
    . exact lt_of_lt_of_le (not_le.mp hb) (hsorted.1 a h)

theorem mem_upTo {s : OrderedSet key rank} {r : ο} {a : α}
    : a ∈ s.upTo r ↔ a ∈ s ∧ rank a ≤ r := by
  rw [mem_def, ← upTo_append_above s r, List.mem_append]
  constructor
  . intro h
    exact ⟨Or.inl h, rank_le_of_mem_upTo h⟩
  . rintro ⟨h | h, hle⟩
    . exact h
    . exact absurd hle (not_le.mpr (lt_rank_of_mem_above h))

theorem mem_above {s : OrderedSet key rank} {r : ο} {a : α}
    : a ∈ s.above r ↔ a ∈ s ∧ r < rank a := by
  rw [mem_def, ← upTo_append_above s r, List.mem_append]
  constructor
  . intro h
    exact ⟨Or.inr h, lt_rank_of_mem_above h⟩
  . rintro ⟨h | h, hlt⟩
    . exact absurd (rank_le_of_mem_upTo h) (not_le.mpr hlt)
    . exact h

theorem nodup_upTo_above (s : OrderedSet key rank) (r : ο)
    : ((s.upTo r).map key ++ (s.above r).map key).Nodup := by
  rw [← List.map_append, upTo_append_above]
  exact s.nodup

def eraseUpTo (s : OrderedSet key rank) (r : ο) : OrderedSet key rank where
  elems := s.above r
  nodup := s.nodup.sublist ((List.dropWhile_sublist _).map key)
  sorted := s.sorted.sublist (List.dropWhile_sublist _)

@[simp]
theorem elems_eraseUpTo (s : OrderedSet key rank) (r : ο) : (s.eraseUpTo r).elems = s.above r := rfl

theorem mem_eraseUpTo {s : OrderedSet key rank} {r : ο} {a : α}
    : a ∈ s.eraseUpTo r ↔ a ∈ s ∧ r < rank a := mem_above

def first? (s : OrderedSet key rank) : Option α := s.elems.head?

theorem first?_eq_none {s : OrderedSet key rank} : s.first? = none ↔ s.elems = [] := by
  simp [first?]

theorem mem_of_first? {s : OrderedSet key rank} {a : α} (h : s.first? = some a) : a ∈ s := by
  rw [mem_def]
  exact List.mem_of_mem_head? h

theorem rank_first?_le {s : OrderedSet key rank} {a b : α} (h : s.first? = some a) (hb : b ∈ s)
    : rank a ≤ rank b := by
  have hsorted := s.sorted
  rw [mem_def] at hb
  unfold first? at h
  cases helems : s.elems with
  | nil => simp [helems] at h
  | cons c cs =>
    rw [helems] at h hb hsorted
    simp only [List.head?_cons, Option.some.injEq] at h
    subst h
    rw [List.pairwise_cons] at hsorted
    rcases List.mem_cons.mp hb with rfl | hb
    . exact le_refl _
    . exact hsorted.1 b hb

def place (s : OrderedSet key rank) (a : α) : List α := s.upTo (rank a) ++ a :: s.above (rank a)

theorem place_perm (s : OrderedSet key rank) (a : α) : (s.place a).Perm (a :: s.elems) := by
  unfold place
  rw [← upTo_append_above s (rank a)]
  exact List.perm_middle

theorem sorted_place (s : OrderedSet key rank) (a : α)
    : (s.place a).Pairwise (fun a b => rank a ≤ rank b) := by
  have hsorted := s.sorted
  rw [← upTo_append_above s (rank a), List.pairwise_append] at hsorted
  rcases hsorted with ⟨hupTo, habove, hcross⟩
  unfold place
  rw [List.pairwise_append, List.pairwise_cons]
  refine ⟨hupTo, ⟨?_, habove⟩, ?_⟩
  . intro b hb
    exact le_of_lt (lt_rank_of_mem_above hb)
  . intro b hb c hc
    rcases List.mem_cons.mp hc with rfl | hc
    . exact rank_le_of_mem_upTo hb
    . exact hcross b hb c hc

variable [DecidableEq ι]

def erase (s : OrderedSet key rank) (k : ι) : OrderedSet key rank where
  elems := s.elems.filter (key · ≠ k)
  nodup := s.nodup.sublist (List.filter_sublist.map key)
  sorted := s.sorted.sublist List.filter_sublist

@[simp]
theorem elems_erase (s : OrderedSet key rank) (k : ι)
    : (s.erase k).elems = s.elems.filter (key · ≠ k) := rfl

theorem mem_erase {s : OrderedSet key rank} {k : ι} {a : α}
    : a ∈ s.erase k ↔ a ∈ s ∧ key a ≠ k := by
  simp [mem_def]

def insert (s : OrderedSet key rank) (a : α) : OrderedSet key rank × Bool :=
  if h : key a ∈ s.keys then
    (s, false)
  else
    ({
      elems := s.place a
      nodup := by
        rw [((s.place_perm a).map key).nodup_iff, List.map_cons, List.nodup_cons]
        exact ⟨h, s.nodup⟩
      sorted := s.sorted_place a
    }, true)

theorem insert_accepted {s : OrderedSet key rank} {a : α}
    : (s.insert a).2 = true ↔ key a ∉ s.keys := by
  unfold insert
  split <;> simp_all

theorem insert_of_mem_keys {s : OrderedSet key rank} {a : α} (h : key a ∈ s.keys)
    : (s.insert a).1 = s := by
  simp [insert, h]

theorem elems_insert {s : OrderedSet key rank} {a : α} (h : key a ∉ s.keys)
    : (s.insert a).1.elems = s.place a := by
  simp [insert, h]

theorem mem_insert {s : OrderedSet key rank} {a b : α} (h : key a ∉ s.keys)
    : b ∈ (s.insert a).1 ↔ b = a ∨ b ∈ s := by
  rw [mem_def, elems_insert h, (s.place_perm a).mem_iff, List.mem_cons, mem_def]

theorem mem_insert_of_mem {s : OrderedSet key rank} {a b : α} (h : b ∈ s)
    : b ∈ (s.insert a).1 := by
  by_cases ha : key a ∈ s.keys
  . rwa [insert_of_mem_keys ha]
  . rw [mem_insert ha]
    exact Or.inr h

theorem eq_or_mem_of_mem_insert {s : OrderedSet key rank} {a b : α} (h : b ∈ (s.insert a).1)
    : b = a ∨ b ∈ s := by
  by_cases ha : key a ∈ s.keys
  . rw [insert_of_mem_keys ha] at h
    exact Or.inr h
  . rwa [mem_insert ha] at h

end OrderedSet
