import ClaireCommon.Protobuf.Impl.ProtobufIO

/-!
This module contains the messages whose JSON is read back as the same message.
-/

namespace Claire
namespace Protobuf

variable {μ : Type} {lib : Library} {schema : Schema μ}

-- The first argument is whether the field of the value is repeated.
inductive Survives (lib : Library) (schema : Schema μ) : Bool → Value μ → Prop
  | int32 (isRepeated : Bool) (n : Int32) : Survives lib schema isRepeated (.int32 n)
  | uint32 (isRepeated : Bool) (n : UInt32) : Survives lib schema isRepeated (.uint32 n)
  | int64 (isRepeated : Bool) (n : Int64) : Survives lib schema isRepeated (.int64 n)
  | uint64 (isRepeated : Bool) (n : UInt64) : Survives lib schema isRepeated (.uint64 n)
  | bool (isRepeated : Bool) (b : Bool) : Survives lib schema isRepeated (.bool b)
  | enum (number : Int32) : Survives lib schema true (.enum number)
  | string {isRepeated : Bool} {s : List UInt8} (hcopied : isRepeated ∨ lib.sharesCopies)
      (hlength : s.length < 2 ^ 32) (hnonzero : 0 ∉ s) : Survives lib schema isRepeated (.string s)
  | emptyString (isRepeated : Bool) : Survives lib schema isRepeated (.string [])
  | bytes {s : List UInt8} (hlength : (uriEscape s .all).length < 2 ^ 32)
      : Survives lib schema true (.bytes s)
  | emptyBytes (isRepeated : Bool) : Survives lib schema isRepeated (.bytes [])
  | message {isRepeated : Bool} {type : μ} {slots : List (List (Value μ))}
      (h : ∀ field slot, (field, slot) ∈ (schema.fields type).zip slots →
        ∀ value ∈ slot, Survives lib schema field.isRepeated value)
      : Survives lib schema isRepeated (.message type slots)

theorem survives_string_iff {isRepeated : Bool} {s : List UInt8}
    : Survives lib schema isRepeated (.string s)
        ↔ ((isRepeated ∨ lib.sharesCopies) ∧ s.length < 2 ^ 32 ∧ 0 ∉ s) ∨ s = [] := by
  constructor
  . intro h
    cases h with
    | string hcopied hlength hnonzero => exact Or.inl ⟨hcopied, hlength, hnonzero⟩
    | emptyString => exact Or.inr rfl
  . intro h
    cases h with
    | inl h => exact Survives.string h.1 h.2.1 h.2.2
    | inr h =>
      rw [h]
      apply Survives.emptyString

theorem survives_bytes_iff {isRepeated : Bool} {s : List UInt8}
    : Survives lib schema isRepeated (.bytes s)
        ↔ (isRepeated ∧ (uriEscape s .all).length < 2 ^ 32) ∨ s = [] := by
  constructor
  . intro h
    cases h with
    | bytes hlength => exact Or.inl ⟨rfl, hlength⟩
    | emptyBytes => exact Or.inr rfl
  . intro h
    cases h with
    | inl h =>
      rw [h.1]
      exact Survives.bytes h.2
    | inr h =>
      rw [h]
      apply Survives.emptyBytes

theorem survives_message_iff {isRepeated : Bool} {type : μ} {slots : List (List (Value μ))}
    : Survives lib schema isRepeated (.message type slots) ↔
        ∀ field slot, (field, slot) ∈ (schema.fields type).zip slots →
          ∀ value ∈ slot, Survives lib schema field.isRepeated value := by
  constructor
  . intro h
    cases h with
    | message h => exact h
  . exact Survives.message

end Protobuf
end Claire
