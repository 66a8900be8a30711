import ClaireCommon.Symbolizer.Impl.Symbolizer

/-!
This module contains the text of `/proc/self/maps`: its lines with the mapped ranges they stand for.
-/

namespace Claire
namespace Symbolizer

structure MapsEntry where
  begin_ : Nat
  end_ : Nat
  offset : Nat
  name : List UInt8

def MapsEntry.Maps (entry : MapsEntry) (address : Nat) : Prop :=
  entry.offset = 0 ∧ entry.begin_ ≤ address ∧ address < entry.end_

instance (entry : MapsEntry) (address : Nat) : Decidable (entry.Maps address) :=
  inferInstanceAs (Decidable (entry.offset = 0 ∧ entry.begin_ ≤ address ∧ address < entry.end_))

structure IsPart (kind : UInt8 → Bool) (text : List UInt8) : Prop where
  ne_nil : text ≠ []
  kind : ∀ c ∈ text, kind c = true

structure IsHex (n : Nat) (text : List UInt8) : Prop extends IsPart isXdigit text where
  value : Numeral.value 16 (text.map digitValue) = n
  lt : n < 2 ^ 64

def isBlank (c : UInt8) : Bool := c = 0x20 || c = 0x09

-- The line of an entry, `device` stands for both numbers of the device.
structure MapsLine where
  entry : MapsEntry
  begin_ : List UInt8
  end_ : List UInt8
  permissions : List UInt8
  offset : List UInt8
  device : List UInt8 × List UInt8
  inode : List UInt8
  gap : Fin 4 → List UInt8
  nameGap : List UInt8
  isHex_begin : IsHex entry.begin_ begin_
  isHex_end : IsHex entry.end_ end_
  isHex_offset : IsHex entry.offset offset
  isPart_permissions : IsPart isWordOrDash permissions
  isPart_device : IsPart isXdigit device.1 ∧ IsPart isXdigit device.2
  isPart_inode : IsPart isDigit inode
  isPart_gap : ∀ i, IsPart isBlank (gap i)
  isBlank_nameGap : ∀ c ∈ nameGap, isBlank c = true
  -- A name begins behind the gap, and there is no name without one.
  name_start : ∀ c ∈ entry.name.head?, isSpace c = false
  name_gap : nameGap = [] → entry.name = []
  name_newline : 0x0a ∉ entry.name

namespace MapsLine

variable (line : MapsLine)

def parts : List (List UInt8) := [
  line.begin_, [0x2d], line.end_, line.gap 0, line.permissions, line.gap 1, line.offset, line.gap 2,
  line.device.1, [0x3a], line.device.2, line.gap 3, line.inode, line.nameGap, line.entry.name]

def text : List UInt8 := line.parts.flatten

end MapsLine

def mapsText (lines : List MapsLine) : List UInt8 := lines.flatMap fun line => line.text ++ [0x0a]

end Symbolizer
end Claire
