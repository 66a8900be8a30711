import Mathlib.Algebra.Group.Nat.Defs
import ClaireCommon.Strings.Impl.CString

/-!
This module contains protobuf messages with their descriptors, as the reflection interface shows them.
`μ` is the type of the message types of a schema, they can refer to each other and to themselves.

A message has one slot for each field of its descriptor: the items of a repeated field, and of a
singular field its value where it is set. Extensions and unknown fields are left out.
-/

namespace Claire
namespace Protobuf

inductive Label where
  | optional
  | required
  | repeated
  deriving DecidableEq, Repr

structure EnumDescriptor where
  values : List (CString × Int32)

namespace EnumDescriptor

-- Of the value that is found only the number is used.
def findValueByNumber (type : EnumDescriptor) (number : Int32) : Option Int32 :=
  (type.values.find? (·.2 = number)).map (·.2)

def findValueByName (type : EnumDescriptor) (name : List UInt8) : Option Int32 :=
  (type.values.find? (·.1.bytes = name)).map (·.2)

end EnumDescriptor

inductive FieldType (μ : Type) where
  | int32
  | uint32
  | int64
  | uint64
  | float
  | double
  | bool
  | enum (type : EnumDescriptor)
  | string
  | bytes
  | message (type : μ)

structure FieldDescriptor (μ : Type) where
  name : CString
  number : Nat
  label : Label
  type : FieldType μ

namespace FieldDescriptor

variable {μ : Type} (field : FieldDescriptor μ)

def isRepeated : Bool := field.label = .repeated

def isRequired : Bool := field.label = .required

end FieldDescriptor

structure Schema (μ : Type) where
  fields : μ → List (FieldDescriptor μ)
  nodup : ∀ type, ((fields type).map (·.name)).Nodup
  name_lt : ∀ type, ∀ field ∈ fields type, field.name.bytes.length < 2 ^ 32

inductive Value (μ : Type) where
  | int32 (n : Int32)
  | uint32 (n : UInt32)
  | int64 (n : Int64)
  | uint64 (n : UInt64)
  | float (x : Float32)
  | double (x : Float)
  | bool (b : Bool)
  | enum (number : Int32)
  | string (s : List UInt8)
  | bytes (s : List UInt8)
  | message (type : μ) (slots : List (List (Value μ)))

structure Message (μ : Type) where
  type : μ
  slots : List (List (Value μ))

variable {μ : Type}

def Message.empty (schema : Schema μ) (type : μ) : Message μ :=
  ⟨type, (schema.fields type).map fun _ => []⟩

mutual

def Value.depth : Value μ → Nat
  | .message _ slots => depthOfSlots slots + 1
  | _ => 0

def depthOfSlots : List (List (Value μ)) → Nat
  | [] => 0
  | slot :: slots => max (depthOfSlot slot) (depthOfSlots slots)

def depthOfSlot : List (Value μ) → Nat
  | [] => 0
  | value :: slot => max value.depth (depthOfSlot slot)

end

def Message.depth (message : Message μ) : Nat := depthOfSlots message.slots + 1

theorem depth_le_depthOfSlot {value : Value μ} {slot : List (Value μ)} (h : value ∈ slot)
    : value.depth ≤ depthOfSlot slot := by
  induction slot with
  | nil => contradiction
  | cons first slot ih =>
    rw [depthOfSlot]
    cases List.mem_cons.mp h with
    | inl heq =>
      rw [heq]
      apply Nat.le_max_left
    | inr hmem => exact Nat.le_trans (ih hmem) (Nat.le_max_right _ _)

theorem depth_le_depthOfSlots {value : Value μ} {slot : List (Value μ)}
    {slots : List (List (Value μ))} (hslot : slot ∈ slots) (h : value ∈ slot)
    : value.depth ≤ depthOfSlots slots := by
  induction slots with
  | nil => contradiction
  | cons first slots ih =>
    rw [depthOfSlots]
    cases List.mem_cons.mp hslot with
    | inl heq =>
      rw [← heq]
      exact Nat.le_trans (depth_le_depthOfSlot h) (Nat.le_max_left _ _)
    | inr hmem => exact Nat.le_trans (ih hmem) (Nat.le_max_right _ _)

def Label.Fits (label : Label) (slot : List (Value μ)) : Prop :=
  match label with
  | .optional => slot.length ≤ 1
  | .required => slot.length = 1
  | .repeated => True

-- The values have the types of the fields, which are no floating point numbers, enum values are
-- declared and required fields are set.
inductive HasType (schema : Schema μ) : FieldType μ → Value μ → Prop
  | int32 (n : Int32) : HasType schema .int32 (.int32 n)
  | uint32 (n : UInt32) : HasType schema .uint32 (.uint32 n)
  | int64 (n : Int64) : HasType schema .int64 (.int64 n)
  | uint64 (n : UInt64) : HasType schema .uint64 (.uint64 n)
  | bool (b : Bool) : HasType schema .bool (.bool b)
  | enum {type : EnumDescriptor} {name : CString} {number : Int32} (h : (name, number) ∈ type.values)
      : HasType schema (.enum type) (.enum number)
  | string (s : List UInt8) : HasType schema .string (.string s)
  | bytes (s : List UInt8) : HasType schema .bytes (.bytes s)
  | message {type : μ} {slots : List (List (Value μ))}
      (hlength : slots.length = (schema.fields type).length)
      (hlabels : ∀ field slot, (field, slot) ∈ (schema.fields type).zip slots → field.label.Fits slot)
      (hvalues : ∀ field slot, (field, slot) ∈ (schema.fields type).zip slots →
        ∀ value ∈ slot, HasType schema field.type value)
      : HasType schema (.message type) (.message type slots)

end Protobuf
end Claire
