import ClaireCommon.Strings.HexDump

/-!
This module contains when `HexString` leaves a prefix of the hex dump in the buffer: it goes on behind
a text that ends where the buffer ends, though `snprintf` has put the terminating zero there.
-/

namespace Claire

open Memory

variable {buffer bufferLength currentLength : Nat} {texts texts' : List (List UInt8)}

theorem run_bind_dump {α β : Type} (x : ExceptT Nat (StateM Memory) α)
    (f : α → ExceptT Nat (StateM Memory) β) (m : Memory)
    : (x >>= f).run m = match x.run m with
        | (.ok n, m') => (f n).run m'
        | (.error n, m') => (.error n, m') := by
  rw [ExceptT.run_bind]
  dsimp only [bind, StateT.bind]
  cases x.run m with
  | mk result m' => cases result <;> rfl

theorem run_snprintf (p size : Nat) (text : List UInt8) (m : Memory)
    : (liftM (snprintf p size text) : ExceptT Nat (StateM Memory) Int).run m
        = (.ok (text.length : Int),
            if size = 0 then m else m.copy p (text.take (size - 1) ++ [0])) := by
  unfold snprintf
  by_cases h : size = 0
  . rw [h]
    rfl
  . simp only [h, ne_eq, not_false_eq_true, ↓reduceIte]
    rfl

theorem run_dumpText (hmax : bufferLength < 2 ^ 31) (hle : currentLength ≤ bufferLength)
    (text : List UInt8) (m : Memory)
    : (dumpText buffer bufferLength text currentLength).run m
        = (if bufferLength - currentLength < text.length then
              .error currentLength
            else
              .ok (currentLength + text.length),
          if bufferLength - currentLength = 0 then
            m
          else
            m.copy (buffer + currentLength)
              (text.take (bufferLength - currentLength - 1) ++ [0])) := by
  have hremaining : sizeT (bufferLength - currentLength) = (bufferLength - currentLength : Nat) := by
    unfold sizeT
    omega
  have hint : int32 (bufferLength - currentLength : Nat) = (bufferLength - currentLength : Nat) :=
    int32_of_range (by omega) (by omega)
  unfold dumpText
  dsimp only
  rw [run_bind_dump, run_snprintf]
  dsimp only
  rw [hremaining, hint]
  by_cases hfits : bufferLength - currentLength < text.length
  . rw [if_pos (by omega), if_pos hfits, Int.toNat_natCast]
    rfl
  . rw [if_neg (by omega), if_neg hfits, Int.toNat_natCast]
    rfl

def lengthOf : Except Nat Nat → Nat
  | .ok n => n
  | .error n => n

-- What a part of the loop leaves behind that is to write these texts from `currentLength` on
structure Dumped (buffer bufferLength : Nat) (texts : List (List UInt8)) (currentLength : Nat)
    (m : Memory) (result : Except Nat Nat) (m' : Memory) : Prop where
  le : currentLength ≤ lengthOf result
  fits : lengthOf result ≤ bufferLength
  goesOn : ∀ n, result = .ok n → n = currentLength + texts.flatten.length
  breaks : ∀ n, result = .error n → bufferLength < currentLength + texts.flatten.length
  within : Within (buffer + currentLength) (buffer + bufferLength) m m'
  clean : bufferLength ∉ textEnds currentLength texts →
    m'.read (buffer + currentLength) (lengthOf result - currentLength)
      = texts.flatten.take (lengthOf result - currentLength)
  dirty : bufferLength ∈ textEnds currentLength texts →
    0 < bufferLength ∧ lengthOf result = bufferLength ∧ m'.read (buffer + bufferLength - 1) 1 = [0]

namespace Dumped

variable {m m' m'' : Memory} {result : Except Nat Nat} {n : Nat}

theorem append_of_error (h : Dumped buffer bufferLength texts currentLength m (.error n) m')
    : Dumped buffer bufferLength (texts ++ texts') currentLength m (.error n) m' := by
  have hbreaks := h.breaks n rfl
  have hle := h.le
  have hfits := h.fits
  have hlength : (texts ++ texts').flatten.length
      = texts.flatten.length + texts'.flatten.length := by
    rw [List.flatten_append, List.length_append]
  dsimp only [lengthOf] at hle hfits
  constructor
  . exact hle
  . exact hfits
  . intro _ hn
    contradiction
  . intro _ _
    omega
  . exact h.within
  . intro hout
    rw [textEnds_append, List.mem_append, not_or] at hout
    rw [h.clean hout.1, List.flatten_append, List.take_append_of_le_length]
    dsimp only [lengthOf]
    omega
  . intro hmem
    rw [textEnds_append] at hmem
    apply h.dirty
    cases List.mem_append.mp hmem with
    | inl hmem => exact hmem
    | inr hmem =>
      have := le_of_mem_textEnds hmem
      omega

theorem trans
    (h : Dumped buffer bufferLength texts currentLength m
      (.ok (currentLength + texts.flatten.length)) m')
    (h' : Dumped buffer bufferLength texts' (currentLength + texts.flatten.length) m' result m'')
    : Dumped buffer bufferLength (texts ++ texts') currentLength m result m'' := by
  have hle' := h'.le
  have hfits' := h'.fits
  have hlength : (texts ++ texts').flatten.length
      = texts.flatten.length + texts'.flatten.length := by
    rw [List.flatten_append, List.length_append]
  constructor
  . omega
  . exact hfits'
  . intro n hn
    have := h'.goesOn n hn
    omega
  . intro n hn
    have := h'.breaks n hn
    omega
  . exact h.within.trans (h'.within.mono (by omega) (Nat.le_refl _))
  . intro hout
    rw [textEnds_append, List.mem_append, not_or] at hout
    have hread := h.clean hout.1
    rw [lengthOf, Nat.add_sub_cancel_left, List.take_length] at hread
    have hsplit : lengthOf result - currentLength
        = texts.flatten.length + (lengthOf result - (currentLength + texts.flatten.length)) := by
      omega
    have hpos : buffer + currentLength + texts.flatten.length
        = buffer + (currentLength + texts.flatten.length) := Nat.add_assoc _ _ _
    rw [hsplit, read_add, hpos, h'.within.read_eq (Or.inl (Nat.le_of_eq hpos)), hread,
      h'.clean hout.2, List.flatten_append, List.take_length_add_append]
  . intro hmem
    rw [textEnds_append] at hmem
    cases List.mem_append.mp hmem with
    | inl hmem =>
      -- Nothing more is written into a buffer that is full.
      have ⟨hpos, hfull, hzero⟩ := h.dirty hmem
      dsimp only [lengthOf] at hfull
      refine ⟨hpos, by omega, ?_⟩
      rw [h'.within.read_eq (by omega), hzero]
    | inr hmem => exact h'.dirty hmem

end Dumped

def Dumps (buffer bufferLength : Nat) (texts : List (List UInt8)) (currentLength : Nat)
    (x : Dump Nat) : Prop :=
  ∀ m, Dumped buffer bufferLength texts currentLength m (x.run m).1 (x.run m).2

theorem dumps_pure (h : currentLength ≤ bufferLength)
    : Dumps buffer bufferLength [] currentLength (pure currentLength) := by
  intro m
  have hrun : (pure currentLength : Dump Nat).run m = (.ok currentLength, m) := rfl
  rw [hrun]
  constructor
  . exact Nat.le_refl _
  . exact h
  . intro n hn
    injection hn with hn
    rw [← hn]
    rfl
  . intro n hn
    contradiction
  . exact .refl
  . intro _
    rw [lengthOf, Nat.sub_self]
    rfl
  . intro hmem
    contradiction

theorem dumps_bind {x : Dump Nat} {f : Nat → Dump Nat}
    (hx : Dumps buffer bufferLength texts currentLength x)
    (hf : currentLength + texts.flatten.length ≤ bufferLength →
      Dumps buffer bufferLength texts' (currentLength + texts.flatten.length)
        (f (currentLength + texts.flatten.length)))
    : Dumps buffer bufferLength (texts ++ texts') currentLength (x >>= f) := by
  intro m
  have h := hx m
  rw [run_bind_dump]
  cases hresult : x.run m with
  | mk result m' =>
    rw [hresult] at h
    cases result with
    | error n => exact h.append_of_error
    | ok n =>
      have hn := h.goesOn n rfl
      subst hn
      exact h.trans (hf h.fits m')

theorem writes_snprintf (p size : Nat) (text : List UInt8) (m : Memory)
    : ∃ written, Writes p written m
          (if size = 0 then m else m.copy p (text.take (size - 1) ++ [0]))
        ∧ written.length ≤ size
        ∧ (0 < size → written = text.take (size - 1) ++ [0]) := by
  split
  . next hzero =>
    refine ⟨[], .nil, Nat.zero_le _, ?_⟩
    intro hpos
    omega
  . refine ⟨_, .copy _ _ _, ?_, fun _ => rfl⟩
    rw [List.length_append, List.length_take, List.length_singleton]
    omega

theorem dumped_of_lt {text : List UInt8} {m m' : Memory} (hle : currentLength ≤ bufferLength)
    (hlt : bufferLength - currentLength < text.length)
    (hwithin : Within (buffer + currentLength) (buffer + bufferLength) m m')
    : Dumped buffer bufferLength [text] currentLength m (.error currentLength) m' := by
  constructor
  . exact Nat.le_refl _
  . exact hle
  . intro n hn
    contradiction
  . intro n hn
    rw [List.flatten_singleton]
    omega
  . exact hwithin
  . intro _
    rw [lengthOf, Nat.sub_self]
    rfl
  . intro hmem
    rw [textEnds, textEnds, List.mem_singleton] at hmem
    omega

theorem dumped_of_le {text : List UInt8} {m m' : Memory} (hne : 0 < text.length)
    (hfits : currentLength + text.length ≤ bufferLength)
    (hwrites : Writes (buffer + currentLength) (text.take (bufferLength - currentLength - 1) ++ [0])
      m m')
    : Dumped buffer bufferLength [text] currentLength m (.ok (currentLength + text.length)) m' := by
  have hread := hwrites.read
  have hwithin := hwrites.within
  rw [List.length_append, List.length_take, List.length_singleton] at hread hwithin
  constructor
  . exact Nat.le_add_right _ _
  . exact hfits
  . intro n hn
    injection hn with hn
    rw [List.flatten_singleton, hn]
  . intro n hn
    contradiction
  . exact hwithin.mono (Nat.le_refl _) (by omega)
  . intro hout
    rw [textEnds, textEnds, List.mem_singleton] at hout
    rw [Nat.min_eq_right (by omega), List.take_of_length_le (by omega)] at hread
    rw [lengthOf, Nat.add_sub_cancel_left, read_take m' _ (Nat.le_add_right _ 1), hread,
      List.flatten_singleton, List.take_left, List.take_length]
  . intro hmem
    rw [textEnds, textEnds, List.mem_singleton] at hmem
    refine ⟨by omega, by rw [lengthOf, hmem], ?_⟩
    rw [read_add] at hread
    have hlast := (List.append_inj hread (by rw [length_read, List.length_take])).2
    have hpos : buffer + currentLength + min (bufferLength - currentLength - 1) text.length
        = buffer + bufferLength - 1 := by
      omega
    rw [hpos] at hlast
    exact hlast

theorem dumps_dumpText (hmax : bufferLength < 2 ^ 31) (hle : currentLength ≤ bufferLength)
    {text : List UInt8} (hne : 0 < text.length)
    : Dumps buffer bufferLength [text] currentLength
        (dumpText buffer bufferLength text currentLength) := by
  intro m
  rw [run_dumpText hmax hle]
  have ⟨written, hwrites, hlen, heq⟩ :=
    writes_snprintf (buffer + currentLength) (bufferLength - currentLength) text m
  by_cases hfits : bufferLength - currentLength < text.length
  . rw [if_pos hfits]
    exact dumped_of_lt hle hfits (hwrites.within.mono (Nat.le_refl _) (by omega))
  . rw [if_neg hfits]
    rw [heq (by omega)] at hwrites
    exact dumped_of_le hne (by omega) hwrites

theorem dumps_ite_bind (hmax : bufferLength < 2 ^ 31) (hle : currentLength ≤ bufferLength)
    {text : List UInt8} (hne : 0 < text.length) (c : Prop) [Decidable c] {f : Nat → Dump Nat}
    (hf : ∀ n, n ≤ bufferLength → Dumps buffer bufferLength texts n (f n))
    : Dumps buffer bufferLength ((if c then [text] else []) ++ texts) currentLength
        (if c then dumpText buffer bufferLength text currentLength >>= f
          else pure currentLength >>= f) := by
  split
  . exact dumps_bind (dumps_dumpText hmax hle hne) (hf _)
  . exact dumps_bind (dumps_pure hle) (hf _)

theorem dumps_dumpByte (hmax : bufferLength < 2 ^ 31) (hle : currentLength ≤ bufferLength) {i : Nat}
    (hi : i < 2 ^ 32) (c : UInt8)
    : Dumps buffer bufferLength
        ((if i % 16 = 0 then [offsetText i] else []) ++ (if i % 2 = 0 then [[0x20]] else [])
          ++ [paddedHex 2 c.toNat]) currentLength
        (dumpByte buffer bufferLength i c currentLength) := by
  have hbyte := le_length_paddedHex 2 c.toNat
  unfold dumpByte
  rw [Nat.mod_eq_of_lt hi, List.append_assoc]
  apply dumps_ite_bind hmax hle (length_offsetText_pos i) (i % 16 = 0)
  intro n hn
  apply dumps_ite_bind hmax hn (by decide) (i % 2 = 0)
  intro n hn
  exact dumps_dumpText hmax hn (by omega)

-- Every byte takes two digits at least, so that a buffer below `2 ^ 31` is full long before `i`
-- leaves the 32 bits of its offset.
theorem dumps_dumpFrom (hmax : bufferLength < 2 ^ 31) {i : Nat} (data : List UInt8)
    (hi : 2 * i ≤ currentLength) (hle : currentLength ≤ bufferLength)
    : Dumps buffer bufferLength (dumpTexts i data) currentLength
        (dumpFrom buffer bufferLength i data currentLength) := by
  induction data generalizing i currentLength with
  | nil => exact dumps_pure hle
  | cons c data ih =>
    have hbyte := le_length_paddedHex 2 c.toNat
    rw [dumpTexts, dumpFrom]
    apply dumps_bind (dumps_dumpByte hmax hle (by omega) c)
    intro hfits
    apply ih _ hfits
    rw [List.flatten_append, List.length_append, List.flatten_singleton]
    omega

theorem dumped_hexString (hmax : bufferLength < 2 ^ 31) (m : Memory) (data : List UInt8)
    : ∃ result, Dumped buffer bufferLength (dumpTexts 0 data) 0 m result
          (hexString buffer bufferLength m data).1
        ∧ (hexString buffer bufferLength m data).2 = lengthOf result := by
  have h := @dumps_dumpFrom buffer bufferLength 0 hmax 0 data (Nat.le_refl 0) (Nat.zero_le _) m
  unfold hexString
  cases hrun : (dumpFrom buffer bufferLength 0 data 0).run m with
  | mk result m' =>
    rw [hrun] at h
    cases result with
    | ok n => exact ⟨_, h, rfl⟩
    | error n => exact ⟨_, h, rfl⟩

theorem hexString_within (hmax : bufferLength < 2 ^ 31) (m : Memory) (data : List UInt8)
    : (hexString buffer bufferLength m data).2 ≤ bufferLength
        ∧ Within buffer (buffer + bufferLength) m (hexString buffer bufferLength m data).1 := by
  have ⟨result, hdumped, hlength⟩ := @dumped_hexString buffer bufferLength hmax m data
  rw [hlength]
  exact ⟨hdumped.fits, hdumped.within⟩

structure CleanPrefix (data : List UInt8) (buffer bufferLength : Nat) (m m' : Memory) (n : Nat) : Prop
    where
  le : n ≤ bufferLength
  within : Within buffer (buffer + bufferLength) m m'
  read : m'.read buffer n = (hexDump data).take n
  nonzero : 0 ∉ m'.read buffer n

theorem hexString_cleanPrefix_iff (data : List UInt8) (buffer bufferLength : Nat)
    (hmax : bufferLength < 2 ^ 31) (m : Memory)
    : CleanPrefix data buffer bufferLength m (hexString buffer bufferLength m data).1
          (hexString buffer bufferLength m data).2
        ↔ bufferLength ∉ textEnds 0 (dumpTexts 0 data) := by
  have ⟨result, hdumped, hlength⟩ := @dumped_hexString buffer bufferLength hmax m data
  rw [hlength]
  constructor
  . intro h hmem
    have ⟨hpos, hfull, hzero⟩ := hdumped.dirty hmem
    have hnonzero := h.nonzero
    generalize (hexString buffer bufferLength m data).1 = m' at hzero hnonzero
    have hsplit : bufferLength = (bufferLength - 1) + 1 := by omega
    have hlast : buffer + (bufferLength - 1) = buffer + bufferLength - 1 := by omega
    rw [hfull, hsplit, read_add, hlast, hzero] at hnonzero
    exact hnonzero (List.mem_append_right _ (List.mem_singleton_self 0))
  . intro hout
    have hread := hdumped.clean hout
    rw [Nat.add_zero, Nat.sub_zero] at hread
    have hdump := zero_notMem_hexDump data
    constructor
    . exact hdumped.fits
    . exact hdumped.within
    . exact hread
    . rw [hread]
      intro hmem
      exact hdump (List.mem_of_mem_take hmem)

def blankMemory : Memory := .create fun _ => 0xff

-- There is room for the offset, the space and a single digit.
theorem hexString_cleanPrefix_iff_ten
    : CleanPrefix [0x61] 0 10 blankMemory (hexString 0 10 blankMemory [0x61]).1
          (hexString 0 10 blankMemory [0x61]).2
        ↔ 10 ∉ textEnds 0 (dumpTexts 0 [0x61]) :=
  hexString_cleanPrefix_iff [0x61] 0 10 (by decide) blankMemory

-- The offset just fits, its colon is lost to the zero.
theorem not_cleanPrefix_eight
    : (hexString 0 8 blankMemory [0x61]).2 = 8
        ∧ (hexString 0 8 blankMemory [0x61]).1.read 0 8
            = [0x0a, 0x30, 0x78, 0x30, 0x30, 0x30, 0x30, 0x00]
        ∧ ¬CleanPrefix [0x61] 0 8 blankMemory (hexString 0 8 blankMemory [0x61]).1
            (hexString 0 8 blankMemory [0x61]).2 := by
  refine ⟨rfl, rfl, ?_⟩
  intro h
  have hnonzero := h.nonzero
  have hread : (hexString 0 8 blankMemory [0x61]).1.read 0 (hexString 0 8 blankMemory [0x61]).2
      = [0x0a, 0x30, 0x78, 0x30, 0x30, 0x30, 0x30, 0x00] := rfl
  rw [hread] at hnonzero
  exact hnonzero (by decide)

end Claire
