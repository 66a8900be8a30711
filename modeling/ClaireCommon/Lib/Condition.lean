import Mathlib.Data.Finset.Card

/-!
This module contains condition variables: who waits without a signal, and who has a signal but has
not looked yet at what it waits for. A wait can also end without a signal.

A condition covers a number if there are as many signals on their way, or if nobody waits for one.
When everybody who makes the number greater also signals, no wakeup is lost.
-/

structure Condition (ω : Type*) where
  waiting : Finset ω
  signalled : Finset ω
  disjoint : Disjoint waiting signalled

namespace Condition

variable {ω : Type*}

def empty : Condition ω where
  waiting := ∅
  signalled := ∅
  disjoint := Finset.disjoint_empty_left _

variable {c c' : Condition ω} {w v : ω}

def Knows (c : Condition ω) (w : ω) : Prop := w ∈ c.waiting ∨ w ∈ c.signalled

def Covers (c : Condition ω) (n : Nat) : Prop := c.waiting.Nonempty → n ≤ c.signalled.card

theorem covers_empty (n : Nat) : (empty : Condition ω).Covers n := by
  intro h
  simp [empty] at h

theorem Covers.mono {n m : Nat} (h : c.Covers n) (hle : m ≤ n) : c.Covers m := by
  intro hwaiting
  have := h hwaiting
  omega

theorem covers_zero (c : Condition ω) : c.Covers 0 := by
  intro _
  apply Nat.zero_le

variable [DecidableEq ω]

def wait (c : Condition ω) (w : ω) : Condition ω where
  waiting := insert w c.waiting
  signalled := c.signalled.erase w
  disjoint := by
    rw [Finset.disjoint_insert_left]
    constructor
    . exact Finset.notMem_erase w _
    . exact c.disjoint.mono_right (Finset.erase_subset w _)

-- `w` looks at what it waits for.
def back (c : Condition ω) (w : ω) : Condition ω where
  waiting := c.waiting
  signalled := c.signalled.erase w
  disjoint := c.disjoint.mono_right (Finset.erase_subset w _)

-- The wait of `w` ends, with a signal or without.
def wake (c : Condition ω) (w : ω) : Condition ω where
  waiting := c.waiting.erase w
  signalled := c.signalled
  disjoint := c.disjoint.mono_left (Finset.erase_subset w _)

def signal (c : Condition ω) (w : ω) : Condition ω where
  waiting := c.waiting.erase w
  signalled := insert w c.signalled
  disjoint := by
    rw [Finset.disjoint_insert_right]
    constructor
    . exact Finset.notMem_erase w _
    . exact c.disjoint.mono_left (Finset.erase_subset w _)

-- The signal goes to one of those who wait, if there is one.
def notify (c : Condition ω) : Option ω → Option (Condition ω)
  | some w => if w ∈ c.waiting then some (c.signal w) else none
  | none => if c.waiting = ∅ then some c else none

def notifyAll (c : Condition ω) : Condition ω where
  waiting := ∅
  signalled := c.waiting ∪ c.signalled
  disjoint := Finset.disjoint_empty_left _

@[simp]
theorem mem_waiting_wait : v ∈ (c.wait w).waiting ↔ v = w ∨ v ∈ c.waiting := Finset.mem_insert

@[simp]
theorem mem_signalled_wait : v ∈ (c.wait w).signalled ↔ v ≠ w ∧ v ∈ c.signalled := Finset.mem_erase

@[simp]
theorem waiting_back : (c.back w).waiting = c.waiting := rfl

@[simp]
theorem mem_signalled_back : v ∈ (c.back w).signalled ↔ v ≠ w ∧ v ∈ c.signalled := Finset.mem_erase

@[simp]
theorem mem_waiting_wake : v ∈ (c.wake w).waiting ↔ v ≠ w ∧ v ∈ c.waiting := Finset.mem_erase

@[simp]
theorem signalled_wake : (c.wake w).signalled = c.signalled := rfl

@[simp]
theorem waiting_notifyAll : c.notifyAll.waiting = ∅ := rfl

@[simp]
theorem mem_signalled_notifyAll : v ∈ c.notifyAll.signalled ↔ v ∈ c.waiting ∨ v ∈ c.signalled :=
  Finset.mem_union

theorem knows_of_notify {w : Option ω} (h : c.notify w = some c')
    : (∀ v, c'.Knows v ↔ c.Knows v) ∧ c'.waiting ⊆ c.waiting ∧ c.signalled ⊆ c'.signalled := by
  cases w with
  | some w =>
    dsimp only [notify] at h
    split at h
    . next hw =>
      injection h with h
      rw [← h]
      refine ⟨?_, Finset.erase_subset w _, Finset.subset_insert w _⟩
      intro v
      dsimp only [Knows, signal]
      rw [Finset.mem_erase, Finset.mem_insert]
      by_cases heq : v = w
      . rw [heq]
        simp [hw]
      . simp [heq]
    . contradiction
  | none =>
    dsimp only [notify] at h
    split at h
    . injection h with h
      rw [← h]
      exact ⟨fun _ => Iff.rfl, Finset.Subset.refl _, Finset.Subset.refl _⟩
    . contradiction

theorem covers_notifyAll (c : Condition ω) (n : Nat) : c.notifyAll.Covers n := by
  intro h
  simp at h

theorem Covers.back {n : Nat} (h : c.Covers n) (w : ω) : (c.back w).Covers (n - 1) := by
  intro hwaiting
  have hn := h hwaiting
  have hcard := Finset.pred_card_le_card_erase (s := c.signalled) (a := w)
  dsimp only [Condition.back]
  omega

theorem Covers.wake {n : Nat} (h : c.Covers n) (w : ω) : (c.wake w).Covers n := by
  intro hwaiting
  exact h (hwaiting.mono (Finset.erase_subset w _))

theorem Covers.notify {n : Nat} {w : Option ω} (h : c.Covers n) (hnotify : c.notify w = some c')
    : c'.Covers (n + 1) := by
  intro hwaiting
  cases w with
  | some w =>
    dsimp only [Condition.notify] at hnotify
    split at hnotify
    . next hw =>
      injection hnotify with hnotify
      have hnot : w ∉ c.signalled := Finset.disjoint_left.mp c.disjoint hw
      have hn := h ⟨w, hw⟩
      rw [← hnotify]
      dsimp only [signal]
      rw [Finset.card_insert_of_notMem hnot]
      omega
    . contradiction
  | none =>
    dsimp only [Condition.notify] at hnotify
    split at hnotify
    . next hempty =>
      injection hnotify with hnotify
      rw [← hnotify, hempty] at hwaiting
      simp at hwaiting
    . contradiction

end Condition
