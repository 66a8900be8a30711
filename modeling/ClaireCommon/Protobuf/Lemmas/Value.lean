import ClaireCommon.Lib.Except
import ClaireCommon.Protobuf.Survives
import ClaireCommon.Protobuf.Lemmas.Members

/-!
This module contains what `SerializeToJson` writes for single values and for the items of a repeated
field, and which of them are read back.
-/

namespace Claire
namespace Protobuf

theorem ok_inj {α : Type} {ret ret' : Bool} {a a' : α}
    (h : (.ok (ret, a) : Except Failure (Bool × α)) = .ok (ret', a')) : ret = ret' ∧ a = a' := by
  injection h with h
  injection h with hret h
  exact ⟨hret, h⟩

variable {μ : Type} {lib : Library} {schema : Schema μ}

def Returns (lib : Library) (schema : Schema μ) (depth : Nat) (isRepeated : Bool)
    (type : FieldType μ) (json : Json) (value : Value μ) : Prop :=
  json.intact ∧ parseValue lib schema (parseFromJsonValue lib schema depth) isRepeated type json none
    = .ok (true, some value)

structure Carries (lib : Library) (schema : Schema μ) (isRepeated : Bool) (type : FieldType μ)
    (value : Value μ) (json : Json) : Prop where
  iff : ∀ depth, json.depth ≤ depth →
    (Returns lib schema depth isRepeated type json value ↔ Survives lib schema isRepeated value)

theorem ofLocal_eq (s : List UInt8)
    : (ofLocal s = .string [] ∧ withUnsignedLength s = []) ∨ ofLocal s = .dangling := by
  unfold ofLocal
  split
  . next h => exact Or.inl ⟨rfl, h⟩
  . exact Or.inr rfl

theorem Carries.of_returns {isRepeated : Bool} {type : FieldType μ} {value : Value μ} {json : Json}
    (hintact : json.intact = true)
    (hparse : ∀ parseMessage, parseValue lib schema parseMessage isRepeated type json none = accept value)
    (hsurvives : Survives lib schema isRepeated value)
    : Carries lib schema isRepeated type value json := by
  constructor
  intro depth _
  constructor
  . intro _
    exact hsurvives
  . intro _
    exact ⟨hintact, hparse _⟩

theorem Carries.of_not_returns {isRepeated : Bool} {type : FieldType μ} {value : Value μ} {json : Json}
    (hparse : json.intact = true → ∀ parseMessage,
      parseValue lib schema parseMessage isRepeated type json none ≠ accept value)
    (hsurvives : ¬Survives lib schema isRepeated value)
    : Carries lib schema isRepeated type value json := by
  constructor
  intro depth _
  constructor
  . intro ⟨hintact, hreturns⟩
    exact absurd hreturns (hparse hintact _)
  . intro h
    exact absurd h hsurvives

theorem EnumDescriptor.findValueByNumber_eq {type : EnumDescriptor} {name : CString} {number : Int32}
    (h : (name, number) ∈ type.values) : type.findValueByNumber number = some number := by
  unfold EnumDescriptor.findValueByNumber
  cases hfind : type.values.find? (·.2 = number) with
  | none =>
    have := List.find?_eq_none.mp hfind _ h
    simp at this
  | some value =>
    have := List.find?_some hfind
    simpa using this

theorem carries_enum {type : EnumDescriptor} {name : CString} {number : Int32}
    (h : (name, number) ∈ type.values) (isRepeated : Bool)
    : Carries lib schema isRepeated (.enum type) (.enum number) (.number (.ofInt32 number)) := by
  cases isRepeated with
  | true =>
    apply Carries.of_returns rfl
    . intro parseMessage
      dsimp only [parseValue]
      unfold acceptEnum findEnumValue
      rw [if_pos rfl, Json.getInt_ofInt32, Option.bind_some, EnumDescriptor.findValueByNumber_eq h]
    . apply Survives.enum
  | false =>
    apply Carries.of_not_returns
    -- The number is read as a name.
    . intro _ parseMessage hparse
      injection hparse with hparse
      injection hparse with hparse
      contradiction
    . intro hsurvives
      cases hsurvives

theorem carries_string {isRepeated : Bool} {type : FieldType μ} {value : Value μ} {s : List UInt8}
    (hparse : ∀ parseMessage,
      parseValue lib schema parseMessage isRepeated type (.string s) none = accept value
        ↔ Survives lib schema isRepeated value)
    : Carries lib schema isRepeated type value (.string s) := by
  constructor
  intro depth _
  unfold Returns
  rw [← hparse]
  constructor
  . intro h
    exact h.2
  . intro h
    exact ⟨rfl, h⟩

-- Only what has no bytes can be read back from a value that refers to a local variable.
theorem carries_ofLocal {isRepeated : Bool} {type : FieldType μ} {value : Value μ} {s : List UInt8}
    (hparse : ∀ parseMessage,
      parseValue lib schema parseMessage isRepeated type (.string []) none = accept value ↔ s = [])
    (hsurvives : Survives lib schema isRepeated value ↔ s = [])
    : Carries lib schema isRepeated type value (ofLocal s) := by
  cases ofLocal_eq s with
  | inl h =>
    rw [h.1]
    apply carries_string
    intro parseMessage
    rw [hparse, hsurvives]
  | inr h =>
    rw [h]
    apply Carries.of_not_returns
    . intro hintact
      simp [Json.intact] at hintact
    . rw [hsurvives]
      intro hnil
      rw [hnil] at h
      contradiction

theorem accept_inj {value value' : Value μ} : accept value = accept value' ↔ value = value' := by
  simp [accept]

theorem carries_copiedString {isRepeated : Bool} (hcopied : isRepeated ∨ lib.sharesCopies)
    (s : List UInt8)
    : Carries lib schema isRepeated .string (.string s) (.string (withUnsignedLength s)) := by
  apply carries_string
  intro parseMessage
  have hparse : parseValue lib schema parseMessage isRepeated .string
      (.string (withUnsignedLength s)) none = accept (.string (cString (withUnsignedLength s))) := rfl
  rw [hparse, accept_inj, Value.string.injEq, cString_withUnsignedLength_eq, survives_string_iff]
  simp only [hcopied, true_and]
  constructor
  . intro h
    exact Or.inl h
  . intro h
    cases h with
    | inl h => exact h
    | inr h => simp [h]

theorem carries_singularString (s : List UInt8)
    : Carries lib schema false .string (.string s) (singularString lib s) := by
  unfold singularString
  split
  . next hshares => exact carries_copiedString (Or.inr hshares) s
  . next hshares =>
    apply carries_ofLocal
    . intro parseMessage
      have hparse : parseValue lib schema parseMessage false .string (.string []) none
          = accept (.string []) := rfl
      rw [hparse, accept_inj, Value.string.injEq]
      exact eq_comm
    . rw [survives_string_iff]
      simp [hshares]

theorem carries_repeatedBytes (s : List UInt8)
    : Carries lib schema true .bytes (.bytes s) (.string (withUnsignedLength (uriEscape s .all))) := by
  apply carries_string
  intro parseMessage
  rw [survives_bytes_iff]
  have hnil : s = [] → (uriEscape s .all).length < 2 ^ 32 := by
    intro h
    rw [h, uriEscape_nil]
    decide
  have hlength : (uriEscape s .all).length < 2 ^ 32
      ↔ ((true = true ∧ (uriEscape s .all).length < 2 ^ 32) ∨ s = []) := by
    simp only [true_and]
    constructor
    . intro h
      exact Or.inl h
    . intro h
      cases h with
      | inl h => exact h
      | inr h => exact hnil h
  rw [← hlength, ← uriUnescape_withUnsignedLength_eq]
  dsimp only [parseValue]
  unfold acceptBytes Json.getString
  dsimp only
  cases huri : uriUnescape (cString (withUnsignedLength (uriEscape s .all))) .all with
  | ok unescaped => simp [accept_inj]
  | error exception => simp [accept]

theorem carries_singularBytes (s : List UInt8)
    : Carries lib schema false .bytes (.bytes s) (ofLocal (uriEscape s .all)) := by
  have hnil : uriEscape s .all = uriEscape [] .all ↔ s = [] := uriEscape_inj
  rw [uriEscape_nil] at hnil
  apply carries_ofLocal
  . intro parseMessage
    have hparse : parseValue lib schema parseMessage false .bytes (.string []) none
        = accept (.bytes []) := by
      have hunescape := uriUnescapeTo_uriEscape [] [] .all
      rw [uriEscape_nil] at hunescape
      dsimp only [parseValue]
      unfold acceptBytes Json.getString cString uriUnescape
      simp [hunescape]
    rw [hparse, accept_inj, Value.bytes.injEq, hnil]
    exact eq_comm
  . rw [survives_bytes_iff, hnil]
    simp

def CarriesMessage (lib : Library) (schema : Schema μ) (serializeMessage : Message μ → Serialized)
    (type : μ) (slots : List (List (Value μ))) : Prop :=
  ∃ json, serializeMessage ⟨type, slots⟩ = .ok (some json) ∧
    ∀ isRepeated, Carries lib schema isRepeated (.message type) (.message type slots) json

theorem serializeValue_carries {serializeMessage : Message μ → Serialized} {isRepeated : Bool}
    {type : FieldType μ} {value : Value μ} (htype : HasType schema type value)
    (hmessage : ∀ type slots, value = .message type slots →
      CarriesMessage lib schema serializeMessage type slots)
    : ∃ json, serializeValue lib serializeMessage isRepeated value = .ok (some json) ∧
        Carries lib schema isRepeated type value json := by
  cases htype with
  | int32 n =>
    refine ⟨_, rfl, Carries.of_returns rfl ?_ (.int32 _ n)⟩
    intro parseMessage
    dsimp only [parseValue]
    rw [Json.getInt_ofInt32]
    rfl
  | uint32 n =>
    refine ⟨_, rfl, Carries.of_returns rfl ?_ (.uint32 _ n)⟩
    intro parseMessage
    dsimp only [parseValue]
    rw [Json.getUint_ofUInt32]
    rfl
  | int64 n =>
    refine ⟨_, rfl, Carries.of_returns rfl ?_ (.int64 _ n)⟩
    intro parseMessage
    dsimp only [parseValue]
    rw [Json.getInt64_ofInt64]
    rfl
  | uint64 n =>
    refine ⟨_, rfl, Carries.of_returns rfl ?_ (.uint64 _ n)⟩
    intro parseMessage
    dsimp only [parseValue]
    rw [Json.getUint64_ofUInt64]
    rfl
  | bool b =>
    apply Exists.intro
    exact ⟨rfl, Carries.of_returns rfl (fun _ => rfl) (.bool _ b)⟩
  | enum h => exact ⟨_, rfl, carries_enum h isRepeated⟩
  | string s =>
    refine ⟨_, rfl, ?_⟩
    cases isRepeated with
    | true => exact carries_copiedString (Or.inl rfl) s
    | false => exact carries_singularString s
  | bytes s =>
    refine ⟨_, rfl, ?_⟩
    cases isRepeated with
    | true => exact carries_repeatedBytes s
    | false => exact carries_singularBytes s
  | message =>
    have ⟨json, hjson, hcarries⟩ := hmessage _ _ rfl
    exact ⟨json, hjson, hcarries isRepeated⟩

theorem parseValue_isSome {parseMessage : ParseMessage μ} {isRepeated : Bool} {type : FieldType μ}
    {json : Json} {old result : Option (Value μ)}
    (h : parseValue lib schema parseMessage isRepeated type json old = .ok (true, result))
    : ∃ value, result = some value := by
  have haccept {value : Value μ} (h : accept value = .ok (true, result))
      : ∃ value, result = some value := by
    have ⟨_, h⟩ := ok_inj h
    exact ⟨value, h.symm⟩
  have hrefuse (h : refuse = .ok (true, result)) : ∃ value, result = some value := by
    simp [refuse] at h
  have hacceptInt {value : Option (Value μ)} (h : acceptInt isRepeated value = .ok (true, result))
      : ∃ value, result = some value := by
    unfold acceptInt at h
    split at h
    . exact haccept h
    . split at h
      . exact hrefuse h
      . contradiction
  have hacceptInt64 {lexicalCast : List UInt8 → Option (Value μ)} {value : Option (Value μ)}
      (h : acceptInt64 lexicalCast json value = .ok (true, result))
      : ∃ value, result = some value := by
    unfold acceptInt64 at h
    split at h
    . exact haccept h
    . split at h
      . split at h
        . exact haccept h
        . contradiction
      . exact hrefuse h
  cases type with
  | int32 => exact hacceptInt h
  | uint32 => exact hacceptInt h
  | float => exact hacceptInt h
  | double => exact hacceptInt h
  | bool => exact hacceptInt h
  | int64 => exact hacceptInt64 h
  | uint64 => exact hacceptInt64 h
  | enum type =>
    dsimp only [parseValue] at h
    unfold acceptEnum at h
    split at h
    . exact haccept h
    . exact hrefuse h
  | string =>
    dsimp only [parseValue] at h
    unfold acceptString at h
    split at h
    . exact haccept h
    . exact hrefuse h
  | bytes =>
    dsimp only [parseValue] at h
    unfold acceptBytes at h
    split at h
    . split at h
      . exact haccept h
      . contradiction
    . exact hrefuse h
  | message type =>
    dsimp only [parseValue] at h
    unfold acceptMessage at h
    split at h
    . have ⟨(ret, message), _, h⟩ := Except.bind_eq_ok.mp h
      have ⟨_, h⟩ := ok_inj h
      exact ⟨_, h.symm⟩
    . exact hrefuse h

theorem serializeItems_carries {serializeMessage : Message μ → Serialized} {type : FieldType μ}
    {slot : List (Value μ)} (htype : ∀ value ∈ slot, HasType schema type value)
    (hmessage : ∀ type slots, .message type slots ∈ slot →
      CarriesMessage lib schema serializeMessage type slots)
    : ∃ items, serializeItems lib serializeMessage slot = .ok (some items) ∧
        List.Forall₂ (Carries lib schema true type) slot items := by
  apply serializeItems_forall₂
  intro value hvalue
  apply serializeValue_carries (htype value hvalue)
  intro type slots heq
  apply hmessage
  rw [← heq]
  exact hvalue

theorem parseItems_prefix {parseMessage : ParseMessage μ} {type : FieldType μ} {items : List Json}
    {slot result : List (Value μ)} {ret : Bool}
    (h : parseItems lib schema parseMessage type items slot = .ok (ret, result))
    : slot <+: result := by
  induction items generalizing slot with
  | nil =>
    unfold parseItems at h
    have ⟨_, h⟩ := ok_inj h
    rw [h]
  | cons item items ih =>
    unfold parseItems at h
    have ⟨(read, value), _, h⟩ := Except.bind_eq_ok.mp h
    apply List.IsPrefix.trans (List.prefix_append _ value.toList)
    dsimp only at h
    split at h
    . exact ih h
    . have ⟨_, h⟩ := ok_inj h
      rw [h]

theorem parseItems_cons_eq_ok {parseMessage : ParseMessage μ} {type : FieldType μ} {item : Json}
    {items : List Json} {slot result : List (Value μ)}
    : parseItems lib schema parseMessage type (item :: items) slot = .ok (true, result) ↔
        ∃ value, parseValue lib schema parseMessage true type item none = .ok (true, some value) ∧
          parseItems lib schema parseMessage type items (slot ++ [value]) = .ok (true, result) := by
  rw [parseItems, Except.bind_eq_ok]
  constructor
  . intro ⟨(ret, value), hvalue, h⟩
    dsimp only at h
    split at h
    . next hret =>
      rw [hret] at hvalue
      have ⟨value', heq⟩ := parseValue_isSome hvalue
      rw [heq] at hvalue h
      exact ⟨value', hvalue, h⟩
    . have ⟨h, _⟩ := ok_inj h
      contradiction
  . intro ⟨value, hvalue, h⟩
    exact ⟨_, hvalue, h⟩

theorem parseItems_iff {depth : Nat} {type : FieldType μ} {items : List Json} {acc slot : List (Value μ)}
    (hcarries : List.Forall₂ (Carries lib schema true type) slot items)
    (hdepth : Json.depthOfItems items ≤ depth)
    : (Json.intactItems items ∧
        parseItems lib schema (parseFromJsonValue lib schema depth) type items acc
          = .ok (true, acc ++ slot))
          ↔ ∀ value ∈ slot, Survives lib schema true value := by
  induction hcarries generalizing acc with
  | nil => simp [Json.intactItems, parseItems]
  | @cons value item slot items hitem _ ih =>
    rw [Json.depthOfItems] at hdepth
    have hitem := hitem.iff depth (by omega)
    have ih := @ih (acc ++ [value]) (by omega)
    rw [List.append_assoc, List.singleton_append] at ih
    rw [List.forall_mem_cons, ← hitem, ← ih, parseItems_cons_eq_ok]
    unfold Returns
    rw [Json.intactItems, Bool.and_eq_true]
    constructor
    . rintro ⟨⟨hintact, hintactItems⟩, value', hvalue, hitems⟩
      have hmatch := parseItems_prefix hitems
      rw [List.prefix_append_right_inj, List.singleton_prefix_cons_iff] at hmatch
      rw [hmatch] at hvalue hitems
      exact ⟨⟨hintact, hvalue⟩, hintactItems, hitems⟩
    . rintro ⟨⟨hintact, hvalue⟩, hintactItems, hitems⟩
      exact ⟨⟨hintact, hintactItems⟩, value, hvalue, hitems⟩

end Protobuf
end Claire
