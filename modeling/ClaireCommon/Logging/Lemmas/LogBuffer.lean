import ClaireCommon.Logging.Impl.LogBuffer

/-!
This module contains what appending to a buffer of fixed size makes of its data.
-/

namespace Claire

namespace LogBuffer

variable {size : Nat} {buffer : LogBuffer size} {d : List UInt8}

@[simp]
theorem data_create : (create : LogBuffer size).data = [] := rfl

@[simp]
theorem data_reset : buffer.reset.data = [] := rfl

theorem data_append (buffer : LogBuffer size) (d : List UInt8)
    : (buffer.append d).data = buffer.data ++ d.take buffer.avail := by
  unfold append
  split
  . next h =>
    rw [List.take_of_length_le (Nat.le_of_lt h)]
  . rfl

theorem data_append_of_avail (h : buffer.avail > d.length) : (buffer.append d).data = buffer.data ++ d := by
  rw [data_append, List.take_of_length_le (Nat.le_of_lt h)]

-- A message fits into an empty buffer also if it has the size of the buffer.
theorem data_append_of_empty (h : buffer.data = []) (hd : d.length ≤ size)
    : (buffer.append d).data = d := by
  have havail : d.length ≤ buffer.avail := by
    unfold avail length
    rw [h]
    exact hd
  rw [data_append, h, List.nil_append, List.take_of_length_le havail]

end LogBuffer

end Claire
