import ClaireCommon.Protobuf.Lemmas.ProtobufIO
import ClaireCommon.Protobuf.Visits

/-!
This module contains when `ParseFromJson` returns: what it does with a document is the verdict on the
values that it meets.
-/

namespace Claire
namespace Protobuf

variable {μ : Type} {lib : Library} {schema : Schema μ}

def outcomeOf {α : Type} : Except Failure (Bool × α) → Outcome
  | .ok (true, _) => .passes
  | .ok (false, _) => .refused
  | .error _ => .fails

theorem outcomeOf_bind {α β : Type} {result : Except Failure (Bool × α)}
    {next : Bool × α → Except Failure (Bool × β)} {o : Outcome}
    (hpass : ∀ a, result = .ok (true, a) → outcomeOf (next (true, a)) = o)
    (hrefuse : ∀ a, outcomeOf (next (false, a)) = .refused)
    : outcomeOf (result >>= next) = (outcomeOf result).andThen o := by
  match result with
  | .ok (true, a) => exact hpass a rfl
  | .ok (false, a) => exact hrefuse a
  | .error e => rfl

theorem outcomeOf_map {α β : Type} (result : Except Failure (Bool × α)) (f : Bool → α → β)
    : outcomeOf (result >>= fun (ret, a) => pure (ret, f ret a)) = outcomeOf result := by
  match result with
  | .ok (true, a) => rfl
  | .ok (false, a) => rfl
  | .error e => rfl

theorem outcomeOf_acceptInt {isRepeated : Bool} (value : Option (Value μ))
    : outcomeOf (acceptInt isRepeated value) =
        if value.isSome then .passes else if isRepeated then .refused else .fails := by
  cases value with
  | some value => rfl
  | none => cases isRepeated <;> rfl

theorem outcomeOf_acceptInt64 {α : Type} (lexicalCast : List UInt8 → Option α) (json : Json)
    (number : Option α) (make : α → Value μ)
    : outcomeOf (acceptInt64 (fun s => (lexicalCast s).map make) json (number.map make)) =
        if number.isSome ∨ json.getString.isSome then
          if number.isSome ∨ (json.getString.bind lexicalCast).isSome then .passes else .fails
        else
          .refused := by
  cases number with
  | some n => rfl
  | none =>
    cases hstring : json.getString with
    | none => simp [acceptInt64, hstring, outcomeOf, refuse]
    | some s => cases hcast : lexicalCast s <;> simp [acceptInt64, hstring, hcast, outcomeOf, accept]

theorem outcomeOf_acceptEnum (type : EnumDescriptor) (isRepeated : Bool) (json : Json)
    : outcomeOf (acceptEnum (μ := μ) type isRepeated json) =
        if (findEnumValue type isRepeated json).isSome then .passes else .refused := by
  unfold acceptEnum
  cases findEnumValue type isRepeated json <;> rfl

theorem findEnumValue_eq_none {type : EnumDescriptor} {isRepeated : Bool} {json : Json}
    (h : Visit.takes (μ := μ) isRepeated (.enum type) json = false)
    : findEnumValue type isRepeated json = none := by
  unfold findEnumValue
  unfold Visit.takes at h
  cases isRepeated with
  | true =>
    have hnone : json.getInt = none := by simpa using h
    simp [hnone]
  | false =>
    have hnone : json.getString = none := by simpa using h
    simp [hnone]

theorem outcomeOf_acceptString (json : Json)
    : outcomeOf (acceptString (μ := μ) json) = if json.getString.isSome then .passes else .refused := by
  unfold acceptString
  cases json.getString <;> rfl

theorem outcomeOf_acceptBytes (json : Json)
    : outcomeOf (acceptBytes (μ := μ) json) =
        match json.getString with
        | some s => if (uriUnescape s .all).toBool then .passes else .fails
        | none => .refused := by
  unfold acceptBytes
  cases json.getString with
  | none => rfl
  | some s =>
    dsimp only
    cases uriUnescape s .all <;> rfl

theorem outcomeOf_acceptMessage {parseMessage : ParseMessage μ} {type : μ}
    {members : List (List UInt8 × Json)} {old : Option (Value μ)}
    : outcomeOf (acceptMessage schema parseMessage type (.object members) old) =
        outcomeOf (parseMessage (.object members) (mutableMessage schema type old)) :=
  outcomeOf_map _ fun _ (message : Message μ) => some (Value.message message.type message.slots)

theorem FieldType.scalar_or_message (type : FieldType μ)
    : (∀ type', type ≠ .message type') ∨ ∃ type', type = .message type' := by
  cases type with
  | message type => exact Or.inr ⟨type, rfl⟩
  | _ => simp

theorem visitsOfValue_of_scalar {visitsOfMessage : μ → Json → List (Visit μ)} {isRepeated : Bool}
    {type : FieldType μ} {json : Json} (h : ∀ type', type ≠ .message type')
    : visitsOfValue visitsOfMessage isRepeated type json = [.value isRepeated type json] := by
  unfold visitsOfValue
  split
  . next type' _ => exact absurd rfl (h type')
  . rfl

theorem verdict_singleton (visit : Visit μ) : verdict lib [visit] = visit.outcome lib := by
  rw [verdict, verdict, Outcome.andThen_passes]

theorem outcomeOf_parseScalar {parseMessage : ParseMessage μ} {isRepeated : Bool}
    {type : FieldType μ} {json : Json} {old : Option (Value μ)} (h : ∀ type', type ≠ .message type')
    : outcomeOf (parseValue lib schema parseMessage isRepeated type json old) =
        (Visit.value isRepeated type json).outcome lib := by
  cases type with
  | int32 | uint32 | float | double | bool =>
    rw [parseValue, outcomeOf_acceptInt, Option.isSome_map]
    rfl
  | int64 | uint64 =>
    rw [parseValue, outcomeOf_acceptInt64]
    simp [Visit.outcome, Visit.takes, Visit.contents, Visit.guarded]
  | enum type =>
    rw [parseValue, outcomeOf_acceptEnum]
    unfold Visit.outcome Visit.contents Visit.guarded
    dsimp only
    cases htakes : Visit.takes (μ := μ) isRepeated (.enum type) json with
    | true => rfl
    | false =>
      rw [findEnumValue_eq_none htakes]
      rfl
  | string =>
    rw [parseValue, outcomeOf_acceptString]
    rfl
  | bytes =>
    rw [parseValue, outcomeOf_acceptBytes]
    unfold Visit.outcome Visit.takes Visit.contents Visit.guarded
    dsimp only
    cases json.getString <;> rfl
  | message type => exact absurd rfl (h type)

theorem outcomeOf_parseValue {parseMessage : ParseMessage μ}
    {visitsOfMessage : μ → Json → List (Visit μ)} {isRepeated : Bool} {type : FieldType μ} {json : Json}
    {old : Option (Value μ)}
    (hmessage : ∀ type' members, type = .message type' → json = .object members →
      outcomeOf (parseMessage json (mutableMessage schema type' old)) =
        verdict lib (visitsOfMessage type' json))
    : outcomeOf (parseValue lib schema parseMessage isRepeated type json old) =
        verdict lib (visitsOfValue visitsOfMessage isRepeated type json) := by
  cases type.scalar_or_message with
  | inl hscalar =>
    rw [visitsOfValue_of_scalar hscalar, verdict_singleton, outcomeOf_parseScalar hscalar]
  | inr htype =>
    have ⟨type', htype⟩ := htype
    rw [htype, parseValue]
    cases json with
    | object members =>
      rw [outcomeOf_acceptMessage, hmessage type' members htype rfl]
      rfl
    | _ => rfl

theorem outcomeOf_parseItems {parseMessage : ParseMessage μ}
    {visitsOfMessage : μ → Json → List (Visit μ)} {type : FieldType μ} {items : List Json}
    (hitems : ∀ item ∈ items, outcomeOf (parseValue lib schema parseMessage true type item none) =
      verdict lib (visitsOfValue visitsOfMessage true type item)) (slot : List (Value μ))
    : outcomeOf (parseItems lib schema parseMessage type items slot) =
        verdict lib (items.flatMap (visitsOfValue visitsOfMessage true type)) := by
  induction items generalizing slot with
  | nil => rfl
  | cons item items ih =>
    rw [List.forall_mem_cons] at hitems
    rw [List.flatMap_cons, verdict_append, parseItems, ← hitems.1]
    apply outcomeOf_bind
    . intro value _
      exact ih hitems.2 _
    . intro value
      rfl

theorem outcomeOf_parseField {parseMessage : ParseMessage μ}
    {visitsOfMessage : μ → Json → List (Visit μ)} {field : FieldDescriptor μ} {json : Json}
    {slot : List (Value μ)}
    (hitems : field.isRepeated = true → ∀ items, json = .array items → ∀ item ∈ items,
      outcomeOf (parseValue lib schema parseMessage true field.type item none) =
        verdict lib (visitsOfValue visitsOfMessage true field.type item))
    (hvalue : field.isRepeated = false →
      outcomeOf (parseValue lib schema parseMessage false field.type json slot.head?) =
        verdict lib (visitsOfValue visitsOfMessage false field.type json))
    : outcomeOf (parseField lib schema parseMessage field json slot) =
        verdict lib (visitsOfMember visitsOfMessage field json) := by
  unfold parseField visitsOfMember
  cases hrepeated : field.isRepeated with
  | true =>
    rw [if_pos rfl, if_pos rfl]
    cases json with
    | array items => exact outcomeOf_parseItems (hitems hrepeated items rfl) slot
    | _ => rfl
  | false =>
    rw [if_neg Bool.false_ne_true, if_neg Bool.false_ne_true, ← hvalue hrepeated]
    exact outcomeOf_map _ fun _ (value : Option (Value μ)) => if value.isSome then value.toList else slot

theorem outcomeOf_parseFields {parseMessage : ParseMessage μ}
    {visitsOfMessage : μ → Json → List (Visit μ)} {root : Json} {fields : List (FieldDescriptor μ)}
    {slots : List (List (Value μ))} (hlength : slots.length = fields.length)
    (hfields : ∀ field slot, (field, slot) ∈ fields.zip slots → ∀ json,
      findMember root field.name = .ok (some json) →
      outcomeOf (parseField lib schema parseMessage field json slot) =
        verdict lib (visitsOfMember visitsOfMessage field json))
    : outcomeOf (parseFields lib schema parseMessage root fields slots) =
        verdict lib (fields.flatMap (visitsOfField visitsOfMessage root)) := by
  induction fields generalizing slots with
  | nil =>
    rw [List.length_nil, List.length_eq_zero_iff] at hlength
    rw [hlength]
    rfl
  | cons field fields ih =>
    cases slots with
    | nil => contradiction
    | cons slot slots =>
      rw [List.length_cons, List.length_cons, Nat.add_right_cancel_iff] at hlength
      rw [List.zip_cons_cons] at hfields
      have ih := ih hlength fun field slot hmem => hfields field slot (List.mem_cons_of_mem _ hmem)
      rw [List.flatMap_cons, verdict_append, ← ih, parseFields, visitsOfField]
      cases hmember : findMember root field.name with
      | error failure => rfl
      | ok found =>
        dsimp only [bind, Except.bind]
        cases found with
        | none =>
          dsimp only
          split
          . rfl
          . exact outcomeOf_map _ fun _ slots => slot :: slots
        | some json =>
          dsimp only
          rw [← hfields field slot List.mem_cons_self json hmember]
          apply outcomeOf_bind
          . intro slot _
            exact outcomeOf_map _ fun _ slots => slot :: slots
          . intro slot
            rfl

theorem Conforms.eq_message {type : μ} {value : Value μ} (h : Conforms schema (.message type) value)
    : ∃ slots, value = .message type slots := by
  cases h with
  | message => exact ⟨_, rfl⟩

theorem conforms_empty (schema : Schema μ) (type : μ)
    : Conforms schema (.message type) (.message type ((schema.fields type).map fun _ => [])) := by
  have hnil : ∀ field slot, (field, slot) ∈ (schema.fields type).zip
      ((schema.fields type).map fun _ => ([] : List (Value μ))) → slot = [] := by
    intro field slot hmem
    have ⟨_, _, heq⟩ := List.mem_map.mp (List.of_mem_zip hmem).2
    exact heq.symm
  apply Conforms.message
  . apply List.length_map
  . intro field slot hmem _
    rw [hnil field slot hmem]
    apply Nat.zero_le
  . intro field slot hmem value hvalue
    rw [hnil field slot hmem] at hvalue
    contradiction

theorem conforms_mutableMessage {type : μ} {old : Option (Value μ)}
    (hold : ∀ value ∈ old, Conforms schema (.message type) value)
    : ∃ slots, mutableMessage schema type old = ⟨type, slots⟩ ∧
        Conforms schema (.message type) (.message type slots) := by
  cases old with
  | none =>
    exists (schema.fields type).map fun _ => []
    exact ⟨rfl, conforms_empty schema type⟩
  | some value =>
    have hvalue := hold value rfl
    have ⟨slots, heq⟩ := hvalue.eq_message
    rw [heq] at hvalue ⊢
    exact ⟨slots, rfl, hvalue⟩

-- By induction on the depth, the objects inside a document are less deep.
theorem outcomeOf_parseFromJsonValue {depth : Nat} {root : Json} {type : μ}
    {slots : List (List (Value μ))} (hdepth : root.depth < depth)
    (hconforms : Conforms schema (.message type) (.message type slots))
    : outcomeOf (parseFromJsonValue lib schema depth root ⟨type, slots⟩) =
        verdict lib (visits schema depth type root) := by
  induction depth generalizing root type slots with
  | zero => omega
  | succ depth ih =>
    cases hconforms with
    | message hlength hsingular hvalues =>
      rw [parseFromJsonValue, visits]
      have hfields : outcomeOf (parseFields lib schema (parseFromJsonValue lib schema depth) root
          (schema.fields type) slots) =
          verdict lib ((schema.fields type).flatMap (visitsOfField (visits schema depth) root)) := by
        apply outcomeOf_parseFields hlength
        intro field slot hmem json hmember
        have hjson : json.depth < depth := by
          cases root with
          | object members =>
            have := Json.depth_le_of_findMember hmember
            rw [Json.depth] at hdepth
            omega
          | _ => contradiction
        apply outcomeOf_parseField
        . intro _ items hitems item hitem
          apply outcomeOf_parseValue
          intro type' members _ heq
          obtain ⟨slots', hslots', hconforms⟩ : ∃ slots', mutableMessage schema type' none =
              ⟨type', slots'⟩ ∧ Conforms schema (.message type') (.message type' slots') := by
            apply conforms_mutableMessage
            intro value hvalue
            contradiction
          rw [hslots']
          apply ih _ hconforms
          rw [hitems, Json.depth] at hjson
          have := Json.depth_le_depthOfItems hitem
          omega
        . intro hrepeated
          apply outcomeOf_parseValue
          intro type' members htype heq
          obtain ⟨slots', hslots', hconforms⟩ : ∃ slots', mutableMessage schema type' slot.head? =
              ⟨type', slots'⟩ ∧ Conforms schema (.message type') (.message type' slots') := by
            apply conforms_mutableMessage
            intro value hvalue
            rw [← htype]
            exact hvalues field slot hmem value (List.mem_of_mem_head? hvalue)
          rw [hslots']
          exact ih hjson hconforms
      rw [← hfields]
      exact outcomeOf_map _ fun _ slots => (⟨type, slots⟩ : Message μ)

-- `true` or `false` is returned, and `false` where a member that matches a field, of several with one name
-- each, has a type that the field cannot take.
structure Answers (lib : Library) (schema : Schema μ) (json : List UInt8) (root : Json)
    (message : Message μ) : Prop where
  returns : ∃ ret message', parseFromJson lib schema json message = .ok (ret, message')
  refuses : (∃ visit ∈ matched schema (root.depth + 1) message.type root, visit.mistyped) →
    ∃ message', parseFromJson lib schema json message = .ok (false, message')

-- What matches a field, cannot be taken and is not met, as a member of the same name is in front of it,
-- comes with something that is refused.
def OverlooksNothing (lib : Library) (schema : Schema μ) (type : μ) (root : Json) : Prop :=
  ∀ visit ∈ matched schema (root.depth + 1) type root, visit.mistyped →
    visit ∉ visits schema (root.depth + 1) type root →
      ∃ other ∈ visits schema (root.depth + 1) type root, other.outcome lib = .refused

theorem outcome_of_mistyped {visit : Visit μ} (h : visit.mistyped) : visit.outcome lib ≠ .passes := by
  cases visit with
  | notObject => contradiction
  | missing field => contradiction
  | notArray field => simp [Visit.outcome]
  | value isRepeated type json =>
    unfold Visit.mistyped at h
    rw [Bool.not_eq_true'] at h
    unfold Visit.outcome
    dsimp only
    rw [h]
    split
    . contradiction
    . split <;> simp

def greenByName : Json := .object [("color".toList.map byteOf, .string ("GREEN".toList.map byteOf))]

def greenByNameText : List UInt8 := "\x7b \"color\": \"GREEN\" \x7d".toList.map byteOf

def five : Json := .number (.ofInt32 5)

def fiveText : List UInt8 := "5".toList.map byteOf

end Protobuf
end Claire
