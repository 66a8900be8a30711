import ClaireCommon.Logging.Impl.LogStream
import ClaireCommon.Logging.Lemmas.LogBuffer
import ClaireCommon.Strings.Lemmas.HexString
import ClaireCommon.Strings.Lemmas.IntToBuffer

/-!
This module proves that a log line never leaves its buffer, and that appending to the buffer with
memory does what appending to the one of the logger does.
-/

namespace Claire

open Memory

namespace RawBuffer

variable {size : Nat}

-- The cursor and everything that was written are inside of the buffer.
structure Inside (b : RawBuffer size) : Prop where
  le : b.current ≤ size
  written : ∀ a ∈ b.memory.written, a < size

theorem inside_create (cells : Nat → UInt8) : (create cells : RawBuffer size).Inside where
  le := Nat.zero_le size
  written := by
    intro a ha
    contradiction

variable {b : RawBuffer size}

theorem Inside.avail_eq (h : b.Inside) (hsize : size < 2 ^ 64) : b.avail = size - b.current := by
  have hle := h.le
  unfold avail sizeT
  omega

theorem Inside.advance (h : b.Inside) {memory : Memory} {n : Nat}
    (hwithin : Within b.current size b.memory memory) (hn : b.current + n ≤ size)
    : (⟨memory, b.current + n⟩ : RawBuffer size).Inside where
  le := hn
  written := by
    intro a ha
    cases hwithin.written a ha with
    | inl ha => exact h.written a ha
    | inr ha => exact ha.2

theorem append_eq (b : RawBuffer size) (d : List UInt8)
    : b.append d
        = ⟨b.memory.copy b.current (d.take b.avail), b.current + (d.take b.avail).length⟩ := by
  unfold RawBuffer.append
  split
  . next hfits => rw [List.take_of_length_le (Nat.le_of_lt hfits)]
  . next hfull =>
    have hlength : (d.take b.avail).length = b.avail := by
      rw [List.length_take]
      omega
    rw [hlength]
    split
    . rfl
    . next hzero =>
      have hzero : b.avail = 0 := by omega
      rw [hzero, List.take_zero]
      rfl

theorem Inside.append (h : b.Inside) (hsize : size < 2 ^ 64) (d : List UInt8)
    : (b.append d).Inside := by
  have hle := h.le
  have havail := h.avail_eq hsize
  have hlength := List.length_take_le b.avail d
  rw [append_eq]
  apply h.advance ((within_copy _ _ _).mono (Nat.le_refl _) _)
  . omega
  . omega

variable {b' b'' : RawBuffer size}

structure Extends (b b' : RawBuffer size) : Prop where
  inside : b'.Inside
  le : b.current ≤ b'.current
  read : b'.memory.read 0 b.current = b.memory.read 0 b.current

theorem Extends.refl (h : b.Inside) : b.Extends b := ⟨h, Nat.le_refl _, rfl⟩

theorem Extends.trans (h : b.Extends b') (h' : b'.Extends b'') : b.Extends b'' where
  inside := h'.inside
  le := Nat.le_trans h.le h'.le
  read := by rw [read_take _ _ h.le, h'.read, ← read_take _ _ h.le, h.read]

theorem Extends.read_isPrefix (h : b.Extends b')
    : b.memory.read 0 b.current <+: b'.memory.read 0 b'.current := by
  rw [← h.read, read_take _ _ h.le]
  exact List.take_prefix _ _

theorem extends_of_within {memory : Memory} {n : Nat} (h : b.Inside)
    (hwithin : Within b.current size b.memory memory) (hn : b.current + n ≤ size)
    : b.Extends ⟨memory, b.current + n⟩ where
  inside := h.advance hwithin hn
  le := Nat.le_add_right _ _
  read := hwithin.read_eq (Or.inl (by omega))

theorem Inside.extends_append (h : b.Inside) (hsize : size < 2 ^ 64) (d : List UInt8)
    : b.Extends (b.append d) := by
  have hle := h.le
  have havail := h.avail_eq hsize
  have hlength := List.length_take_le b.avail d
  rw [append_eq]
  apply extends_of_within h ((within_copy _ _ _).mono (Nat.le_refl _) _)
  . omega
  . omega

theorem Inside.append_append (h : b.Inside) (hsize : size < 2 ^ 64) (d e : List UInt8)
    : (b.append d).append e = b.append (d ++ e) := by
  have hle := h.le
  have havail := h.avail_eq hsize
  have havail' := (h.append hsize d).avail_eq hsize
  rw [append_eq] at havail' ⊢
  rw [append_eq b, append_eq b, List.take_append, List.length_append, copy_append]
  dsimp only at havail' ⊢
  have hrest : (⟨b.memory.copy b.current (d.take b.avail), b.current + (d.take b.avail).length⟩
      : RawBuffer size).avail = b.avail - d.length := by
    rw [havail', List.length_take]
    omega
  rw [hrest, Nat.add_assoc]

structure Takes (b b' : RawBuffer size) (d : List UInt8) : Prop where
  inside : b'.Inside
  current : b'.current = b.current + d.length
  read : b'.memory.read 0 b'.current = b.memory.read 0 b.current ++ d

theorem Takes.trans {d e : List UInt8} (h : b.Takes b' d) (h' : b'.Takes b'' e) : b.Takes b'' (d ++ e) where
  inside := h'.inside
  current := by rw [h'.current, h.current, List.length_append, Nat.add_assoc]
  read := by rw [h'.read, h.read, List.append_assoc]

theorem takes_of_writes {memory : Memory} {d : List UInt8} (h : b.Inside)
    (hread : memory.read b.current d.length = d)
    (hwithin : Within b.current size b.memory memory) (hroom : b.current + d.length ≤ size)
    : b.Takes ⟨memory, b.current + d.length⟩ d where
  inside := h.advance hwithin hroom
  current := rfl
  read := by
    dsimp only
    rw [read_add, Nat.zero_add, hread, hwithin.read_eq (Or.inl (by omega))]

theorem Inside.takes_append (h : b.Inside) (hsize : size < 2 ^ 64) {d : List UInt8}
    (hroom : b.current + d.length ≤ size) : b.Takes (b.append d) d := by
  have havail := h.avail_eq hsize
  rw [append_eq, List.take_of_length_le (by omega)]
  exact takes_of_writes h (read_copy _ _ _) ((within_copy _ _ _).mono (Nat.le_refl _) hroom) hroom

structure Represents (b : RawBuffer size) (buffer : LogBuffer size) : Prop where
  inside : b.Inside
  length : b.current = buffer.length
  data : b.memory.read 0 b.current = buffer.data

theorem represents_create (cells : Nat → UInt8)
    : (create cells : RawBuffer size).Represents .create where
  inside := inside_create cells
  length := rfl
  data := rfl

theorem Represents.append {buffer : LogBuffer size} (h : b.Represents buffer) (hsize : size < 2 ^ 64)
    (d : List UInt8) : (b.append d).Represents (buffer.append d) where
  inside := h.inside.append hsize d
  length := by
    have havail : b.avail = buffer.avail := by
      rw [h.inside.avail_eq hsize, LogBuffer.avail, h.length]
    rw [append_eq, LogBuffer.length, LogBuffer.data_append, List.length_append, havail,
      h.length]
    rfl
  data := by
    have havail : b.avail = buffer.avail := by
      rw [h.inside.avail_eq hsize, LogBuffer.avail, h.length]
    rw [append_eq, LogBuffer.data_append, ← h.data, ← havail]
    dsimp only
    rw [read_add, Nat.zero_add, read_copy, (within_copy _ _ _).read_eq (Or.inl (by omega))]

end RawBuffer

namespace LogStream

variable {s : LogStream} {text : UInt64 → List UInt8} {toDouble : UInt32 → UInt64}

theorem kSmallBuffer_lt : kSmallBuffer < 2 ^ 64 := by decide

theorem extends_append (h : s.buffer.Inside) (msg : List UInt8)
    : s.buffer.Extends (s.append msg).buffer := by
  unfold append
  split
  . exact h.extends_append kSmallBuffer_lt msg
  . have hle := h.le
    have havail := h.avail_eq kSmallBuffer_lt
    have hmax : s.buffer.avail < 2 ^ 31 := by
      have hsize : kSmallBuffer = 4096 := rfl
      omega
    have ⟨hn, hwithin⟩ :=
      @hexString_within s.buffer.current s.buffer.avail hmax s.buffer.memory msg
    apply RawBuffer.extends_of_within h (hwithin.mono (Nat.le_refl _) _)
    . omega
    . omega

theorem extends_formatInteger (h : s.buffer.Inside) {t : IntType} (v : t.Value)
    : s.buffer.Extends (s.formatInteger v).buffer := by
  have hle := h.le
  have havail := h.avail_eq kSmallBuffer_lt
  unfold formatInteger
  split
  . next hroom =>
    have ⟨hwrites, hlen⟩ := intToBuffer_spec s.buffer.memory s.buffer.current v
    have hmax := length_decimal_le v
    have hwithin := hwrites.within
    rw [List.length_append, List.length_singleton] at hwithin
    unfold kMaxNumericSize at hroom
    apply RawBuffer.extends_of_within h (hwithin.mono (Nat.le_refl _) _)
    . omega
    . omega
  . exact .refl h

theorem takes_formatInteger (h : s.buffer.Inside) {t : IntType} (v : t.Value)
    (hroom : s.buffer.current + kMaxNumericSize ≤ kSmallBuffer)
    : s.buffer.Takes (s.formatInteger v).buffer (decimal v.val) := by
  have havail := h.avail_eq kSmallBuffer_lt
  have hmax := length_decimal_le v
  have ⟨hwrites, hlen⟩ := intToBuffer_spec s.buffer.memory s.buffer.current v
  have hread := hwrites.read
  have hwithin := hwrites.within
  rw [List.length_append, List.length_singleton] at hread hwithin
  rw [read_add] at hread
  have hread := (List.append_inj hread (length_read _ _ _)).1
  unfold kMaxNumericSize at hroom
  unfold formatInteger
  rw [if_pos (by unfold kMaxNumericSize; omega)]
  dsimp only
  rw [RawBuffer.add, hlen]
  exact RawBuffer.takes_of_writes h hread (hwithin.mono (Nat.le_refl _) (by omega)) (by omega)

theorem extends_formatPointer (h : s.buffer.Inside) (v : IntType.unsignedLong.Value)
    : s.buffer.Extends (s.formatPointer v).buffer := by
  have hle := h.le
  have havail := h.avail_eq kSmallBuffer_lt
  unfold formatPointer
  split
  . next hroom =>
    dsimp only
    have hsign := Writes.copy s.buffer.memory s.buffer.current [0x30, 0x78]
    have ⟨hwrites, hlen⟩ := hexToBuffer_spec
      (s.buffer.memory.copy s.buffer.current [0x30, 0x78]) (s.buffer.current + 2) v
    have hmax := length_upperHex_le v
    have hwithin := (hsign.append hwrites).within
    have hlength : ([0x30, 0x78] : List UInt8).length = 2 := rfl
    rw [List.length_append, List.length_append, List.length_singleton, hlength] at hwithin
    unfold kMaxNumericSize at hroom
    unfold Memory.copy Memory.copy Memory.copy at hlen hwithin
    apply RawBuffer.extends_of_within h (hwithin.mono (Nat.le_refl _) _)
    . omega
    . omega
  . exact .refl h

theorem extends_formatDouble (h : s.buffer.Inside) (v : UInt64)
    : s.buffer.Extends (s.formatDouble text v).buffer := by
  unfold formatDouble
  split
  . exact extends_append h _
  . exact .refl h

theorem extends_put (text : UInt64 → List UInt8) (toDouble : UInt32 → UInt64) (h : s.buffer.Inside)
    (operand : Operand) : s.buffer.Extends (s.put text toDouble operand).buffer := by
  cases operand with
  | bool | char => exact h.extends_append kSmallBuffer_lt _
  | short | unsignedShort | int | unsignedInt | long | unsignedLong | longLong | unsignedLongLong =>
    exact extends_formatInteger h _
  | pointer => exact extends_formatPointer h _
  | float | double => exact extends_formatDouble h _
  | cString | stringPiece | string => exact extends_append h _
  | format => exact .refl h

theorem extends_puts (text : UInt64 → List UInt8) (toDouble : UInt32 → UInt64) (h : s.buffer.Inside)
    (operands : List Operand) : s.buffer.Extends (s.puts text toDouble operands).buffer := by
  induction operands generalizing s with
  | nil => exact .refl h
  | cons operand operands ih =>
    have hput := extends_put text toDouble h operand
    exact hput.trans (ih hput.inside)

theorem inside_puts (h : s.buffer.Inside) (operands : List Operand)
    : (s.puts text toDouble operands).buffer.Inside :=
  (extends_puts text toDouble h operands).inside

theorem puts_inside (text : UInt64 → List UInt8) (toDouble : UInt32 → UInt64)
    (cells : Nat → UInt8) (operands : List Operand)
    : let buffer := ((create cells).puts text toDouble operands).buffer
      buffer.length ≤ kSmallBuffer
        ∧ buffer.avail = kSmallBuffer - buffer.length
        ∧ ∀ a ∈ buffer.memory.written, a < kSmallBuffer := by
  have h : ((create cells).puts text toDouble operands).buffer.Inside :=
    inside_puts (RawBuffer.inside_create cells) operands
  exact ⟨h.le, h.avail_eq kSmallBuffer_lt, h.written⟩

end LogStream
end Claire
