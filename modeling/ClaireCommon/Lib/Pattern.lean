import Mathlib.Data.List.Flatten
import Mathlib.Data.List.TakeWhile
import Mathlib.Data.List.Forall2

/-!
This module contains patterns that are sequences of characters and of repeated classes of characters,
with the matches of a text in the order in which a matcher with backtracking tries them: of a repetition
the longest first.
-/

namespace Pattern

variable {α : Type*}

inductive Item (α : Type*) where
  | one (c : α)
  | many (kind : α → Bool) (least : Nat)

namespace Item

def Matches : Item α → List α → Prop
  | one c, part => part = [c]
  | many kind least, part => least ≤ part.length ∧ ∀ c ∈ part, kind c = true

instance [DecidableEq α] : (item : Item α) → (part : List α) → Decidable (item.Matches part)
  | one c, part => inferInstanceAs (Decidable (part = [c]))
  | many kind least, part =>
    inferInstanceAs (Decidable (least ≤ part.length ∧ ∀ c ∈ part, kind c = true))

def Stops : Item α → List α → Prop
  | one _, _ => True
  | many kind _, text => ∀ c ∈ text.head?, kind c = false

theorem not_matches_of_stops {item : Item α} {part rest : List α} {n : Nat} (h : item.Matches part)
    (hstops : item.Stops rest) (hn : part.length < n) (hle : n ≤ (part ++ rest).length)
    : ¬item.Matches ((part ++ rest).take n) := by
  intro hlonger
  cases item with
  | one c =>
    have hlength := congrArg List.length hlonger
    have hpart := congrArg List.length h
    rw [List.length_take_of_le hle] at hlength
    simp only [List.length_singleton] at hlength hpart
    omega
  | many kind least =>
    cases rest with
    | nil =>
      simp only [List.append_nil] at hle
      omega
    | cons c rest =>
      have hc : c ∈ (part ++ c :: rest).take n := by
        rw [List.take_append, List.mem_append]
        right
        have ⟨k, hk⟩ : ∃ k, n - part.length = k + 1 := ⟨n - part.length - 1, by omega⟩
        rw [hk, List.take_succ_cons]
        exact List.mem_cons_self
      have hkind := hlonger.2 c hc
      rw [hstops c rfl] at hkind
      contradiction

end Item

variable [DecidableEq α] {item : Item α} {items : List (Item α)} {text : List α}
  {parts : List (List α)} {n m : Nat}

def lengths (item : Item α) (text : List α) : List Nat :=
  ((List.range (text.length + 1)).filter fun n => item.Matches (text.take n)).reverse

-- The matches of the whole text, each with the parts for the items
def all : List (Item α) → List α → List (List (List α))
  | [], text => if text.isEmpty then [[]] else []
  | item :: items, text =>
    (lengths item text).flatMap fun n => (all items (text.drop n)).map (text.take n :: ·)

def first (items : List (Item α)) (text : List α) : Option (List (List α)) := (all items text).head?

-- Each part is as long as it can be where those before it are.
inductive Longest : List (Item α) → List (List α) → Prop
  | nil : Longest [] []
  | cons {item : Item α} {items : List (Item α)} {part : List α} {parts : List (List α)}
      (h : item.Matches part) (hstops : item.Stops parts.flatten) (hrest : Longest items parts)
      : Longest (item :: items) (part :: parts)

theorem reverse_filter_range {P : Nat → Bool} (hn : n ≤ m) (h : P n)
    (hmax : ∀ k, n < k → k ≤ m → P k = false)
    : ∃ more, ((List.range (m + 1)).filter P).reverse = n :: more := by
  induction m, hn using Nat.le_induction with
  | base =>
    rw [List.range_succ, List.filter_append, List.reverse_append, List.filter_singleton, h]
    exact ⟨_, rfl⟩
  | succ m hn ih =>
    rw [List.range_succ, List.filter_append, List.reverse_append, List.filter_singleton,
      hmax (m + 1) (Nat.lt_succ_of_le hn) (Nat.le_refl _)]
    exact ih fun k hk hle => hmax k hk (Nat.le_succ_of_le hle)

theorem first_of_longest (h : Longest items parts) : first items parts.flatten = some parts := by
  unfold first
  induction h with
  | nil => rfl
  | @cons item items part parts h hstops hrest ih =>
    have ⟨more, hlengths⟩ : ∃ more, lengths item (part ++ parts.flatten) = part.length :: more := by
      unfold lengths
      apply reverse_filter_range
      . simp
      . simpa using h
      . intro k hk hle
        exact decide_eq_false (Item.not_matches_of_stops h hstops hk hle)
    unfold all
    rw [List.flatten_cons, hlengths, List.flatMap_cons, List.head?_append, List.drop_left, List.take_left,
      List.head?_map, ih]
    rfl

end Pattern
