import Mathlib.Tactic.Common

/-!
This module contains a value that several owners share. It lives as long as it has an owner. Observers do
not keep it alive, but they can become owners while it lives.

An operation has no result if it needs an owner or an observer where there is none.
-/

structure Shared (α : Type) where
  value : Option α
  owners : Nat
  observers : Nat
  lives_iff : value.isSome ↔ 0 < owners

namespace Shared

variable {α : Type}

def make (a : α) : Shared α where
  value := some a
  owners := 1
  observers := 0
  lives_iff := ⟨fun _ => Nat.zero_lt_one, fun _ => rfl⟩

def observe (s : Shared α) : Shared α := { s with observers := s.observers + 1 }

def forget (s : Shared α) : Option (Shared α) :=
  match s.observers with
  | 0 => none
  | observers + 1 => some { s with observers := observers }

-- An observer becomes an owner as well, if the value lives.
def lock (s : Shared α) : Option (Shared α) :=
  if h : 0 < s.owners then
    some { s with
      owners := s.owners + 1
      lives_iff := ⟨fun _ => Nat.succ_pos _, fun _ => s.lives_iff.mpr h⟩ }
  else
    none

def store (s : Shared α) (a : α) : Option (Shared α) :=
  if h : 0 < s.owners then some { s with value := some a, lives_iff := ⟨fun _ => h, fun _ => rfl⟩ }
  else none

def release (s : Shared α) : Option (Shared α) :=
  match h : s.owners with
  | 0 => none
  | 1 =>
    some { s with
      value := none
      owners := 0
      lives_iff := ⟨fun h => Bool.noConfusion h, fun h => absurd h (Nat.lt_irrefl 0)⟩ }
  | owners + 2 =>
    some { s with
      owners := owners + 1
      lives_iff := ⟨fun _ => Nat.succ_pos _, fun _ => s.lives_iff.mpr (h ▸ Nat.succ_pos _)⟩ }

def Freed (s : Shared α) : Prop := s.value = none ∧ s.owners = 0 ∧ s.observers = 0

theorem value_eq_none_iff {s : Shared α} : s.value = none ↔ s.owners = 0 := by
  have := s.lives_iff
  rw [← Option.not_isSome_iff_eq_none, this]
  omega

theorem exists_forget {s : Shared α} (h : 0 < s.observers)
    : ∃ s', s.forget = some s' ∧ s'.value = s.value ∧ s'.owners = s.owners ∧
        s'.observers + 1 = s.observers := by
  unfold forget
  split
  . omega
  . next observers heq => exact ⟨_, rfl, rfl, rfl, heq.symm⟩

theorem exists_lock {s : Shared α} (h : 0 < s.owners)
    : ∃ s', s.lock = some s' ∧ s'.value = s.value ∧ s'.owners = s.owners + 1 ∧
        s'.observers = s.observers := by
  unfold lock
  rw [dif_pos h]
  exact ⟨_, rfl, rfl, rfl, rfl⟩

theorem lock_eq_none {s : Shared α} (h : s.owners = 0) : s.lock = none := by
  unfold lock
  rw [dif_neg (by omega)]

theorem exists_store {s : Shared α} (h : 0 < s.owners) (a : α)
    : ∃ s', s.store a = some s' ∧ s'.value = some a ∧ s'.owners = s.owners ∧
        s'.observers = s.observers := by
  unfold store
  rw [dif_pos h]
  exact ⟨_, rfl, rfl, rfl, rfl⟩

theorem exists_release {s : Shared α} (h : 0 < s.owners)
    : ∃ s', s.release = some s' ∧ (∀ a, s'.value = some a → s.value = some a) ∧
        s'.owners + 1 = s.owners ∧ s'.observers = s.observers := by
  unfold release
  split
  . omega
  . next heq =>
    refine ⟨_, rfl, ?_, heq.symm, rfl⟩
    intro a h
    contradiction
  . next owners heq => exact ⟨_, rfl, fun _ h => h, heq.symm, rfl⟩

end Shared
