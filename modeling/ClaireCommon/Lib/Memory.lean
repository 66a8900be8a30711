import Mathlib.Data.List.Basic

/-!
This module contains a memory of bytes that remembers where it was written, and the relation of two
memories that differ inside a range at most.
-/

structure Memory where
  cells : Nat → UInt8
  written : List Nat

namespace Memory

def create (cells : Nat → UInt8) : Memory where
  cells := cells
  written := []

def write (m : Memory) (p : Nat) (byte : UInt8) : Memory where
  cells a := if a = p then byte else m.cells a
  written := p :: m.written

def copy (m : Memory) (p : Nat) : List UInt8 → Memory
  | [] => m
  | byte :: bytes => (m.write p byte).copy (p + 1) bytes

def read (m : Memory) (p : Nat) : Nat → List UInt8
  | 0 => []
  | n + 1 => m.cells p :: m.read (p + 1) n

def reverse (m : Memory) (first last : Nat) : Memory :=
  m.copy first (m.read first (last - first)).reverse

-- From `m` to `m'` only addresses from `lo` to below `hi` were written.
structure Within (lo hi : Nat) (m m' : Memory) : Prop where
  written : ∀ a ∈ m'.written, a ∈ m.written ∨ lo ≤ a ∧ a < hi
  cells : ∀ a, ¬(lo ≤ a ∧ a < hi) → m'.cells a = m.cells a

variable {m m' m'' : Memory} {lo hi p n : Nat} {bytes : List UInt8}

namespace Within

theorem refl : Within lo hi m m where
  written _ h := Or.inl h
  cells _ _ := rfl

theorem trans (h : Within lo hi m m') (h' : Within lo hi m' m'') : Within lo hi m m'' where
  written := by
    intro a ha
    cases h'.written a ha with
    | inl ha => exact h.written a ha
    | inr ha => exact Or.inr ha
  cells := by
    intro a ha
    rw [h'.cells a ha, h.cells a ha]

theorem mono {lo' hi' : Nat} (h : Within lo hi m m') (hlo : lo' ≤ lo) (hhi : hi ≤ hi')
    : Within lo' hi' m m' where
  written := by
    intro a ha
    cases h.written a ha with
    | inl ha => exact Or.inl ha
    | inr ha => right; omega
  cells := by
    intro a ha
    apply h.cells
    omega

theorem read_eq (h : Within lo hi m m') (hout : p + n ≤ lo ∨ hi ≤ p)
    : m'.read p n = m.read p n := by
  induction n generalizing p with
  | zero => rfl
  | succ n ih => rw [read, read, h.cells p (by omega), ih (by omega)]

end Within

theorem within_write (m : Memory) (p : Nat) (byte : UInt8) : Within p (p + 1) m (m.write p byte) where
  written := by
    intro a ha
    cases List.mem_cons.mp ha with
    | inl ha => right; omega
    | inr ha => exact Or.inl ha
  cells := by
    intro a ha
    apply if_neg
    omega

theorem within_copy (m : Memory) (p : Nat) (bytes : List UInt8)
    : Within p (p + bytes.length) m (m.copy p bytes) := by
  induction bytes generalizing m p with
  | nil => exact .refl
  | cons byte bytes ih =>
    rw [List.length_cons]
    apply ((within_write m p byte).mono _ _).trans ((ih _ (p + 1)).mono _ _) <;> omega

@[simp]
theorem length_read (m : Memory) (p n : Nat) : (m.read p n).length = n := by
  induction n generalizing p with
  | zero => rfl
  | succ n ih => rw [read, List.length_cons, ih]

theorem read_add (m : Memory) (p n k : Nat) : m.read p (n + k) = m.read p n ++ m.read (p + n) k := by
  induction n generalizing p with
  | zero => rw [Nat.zero_add, Nat.add_zero, read, List.nil_append]
  | succ n ih =>
    have hsum : n + 1 + k = (n + k) + 1 := Nat.add_right_comm n 1 k
    have hnext : p + 1 + n = p + (n + 1) := Nat.add_right_comm p 1 n
    rw [hsum, read, ih, read, List.cons_append, hnext]

theorem copy_append (m : Memory) (p : Nat) (bytes bytes' : List UInt8)
    : m.copy p (bytes ++ bytes') = (m.copy p bytes).copy (p + bytes.length) bytes' := by
  induction bytes generalizing m p with
  | nil => rfl
  | cons byte bytes ih =>
    have hnext : p + 1 + bytes.length = p + (bytes.length + 1) := by omega
    rw [List.cons_append, copy, copy, ih, List.length_cons, hnext]

theorem read_copy (m : Memory) (p : Nat) (bytes : List UInt8)
    : (m.copy p bytes).read p bytes.length = bytes := by
  induction bytes generalizing m p with
  | nil => rfl
  | cons byte bytes ih =>
    have hfirst : ((m.write p byte).copy (p + 1) bytes).cells p = byte := by
      rw [(within_copy _ _ _).cells p (by omega)]
      exact if_pos rfl
    rw [List.length_cons, read, copy, hfirst, ih]

theorem read_take (m : Memory) (p : Nat) {k n : Nat} (h : k ≤ n)
    : m.read p k = (m.read p n).take k := by
  have hsplit : n = k + (n - k) := by omega
  rw [hsplit, read_add, List.take_left' (length_read m p k)]

-- From `m` to `m'` exactly these bytes were written, from `p` on.
structure Writes (p : Nat) (bytes : List UInt8) (m m' : Memory) : Prop where
  read : m'.read p bytes.length = bytes
  within : Within p (p + bytes.length) m m'

namespace Writes

theorem nil : Writes p [] m m where
  read := rfl
  within := .refl

theorem copy (m : Memory) (p : Nat) (bytes : List UInt8) : Writes p bytes m (m.copy p bytes) where
  read := read_copy m p bytes
  within := within_copy m p bytes

theorem write (m : Memory) (p : Nat) (byte : UInt8) : Writes p [byte] m (m.write p byte) :=
  copy m p [byte]

theorem append {bytes' : List UInt8} (h : Writes p bytes m m')
    (h' : Writes (p + bytes.length) bytes' m' m'') : Writes p (bytes ++ bytes') m m'' where
  read := by
    rw [List.length_append, read_add, h'.read, h'.within.read_eq (Or.inl (Nat.le_refl _)), h.read]
  within := by
    rw [List.length_append]
    apply (h.within.mono _ _).trans (h'.within.mono _ _) <;> omega

theorem reverse {bytes' : List UInt8} (h : Writes p (bytes ++ bytes') m m')
    : Writes p (bytes.reverse ++ bytes') m (m'.reverse p (p + bytes.length)) := by
  have hread := h.read
  rw [List.length_append, read_add] at hread
  have ⟨hbytes, hbytes'⟩ := List.append_inj hread (length_read m' p bytes.length)
  have hcopy := copy m' p bytes.reverse
  unfold Memory.reverse
  rw [Nat.add_sub_cancel_left, hbytes]
  rw [← List.length_reverse] at hbytes'
  constructor
  . rw [List.length_append, read_add, hcopy.read,
      hcopy.within.read_eq (Or.inr (Nat.le_refl _)), hbytes']
  . have hlength : (bytes.reverse ++ bytes').length = (bytes ++ bytes').length := by
      rw [List.length_append, List.length_append, List.length_reverse]
    rw [hlength]
    apply h.within.trans (hcopy.within.mono (Nat.le_refl p) _)
    rw [List.length_append, List.length_reverse]
    omega

end Writes
end Memory
