import ClaireCommon.Protobuf.Lemmas.Visits

/-!
This module contains where `SerializeToJson` and `ParseFromJson` enforce the same required fields.
-/

namespace Claire
namespace Protobuf

variable {μ : Type} {lib : Library} {schema : Schema μ}

-- Every required field is set, in the message and in all messages that are set inside.
inductive AllRequiredSet (schema : Schema μ) : Value μ → Prop
  | scalar {value : Value μ} (h : ∀ type slots, value ≠ .message type slots)
      : AllRequiredSet schema value
  | message {type : μ} {slots : List (List (Value μ))}
      (hset : ∀ field slot, (field, slot) ∈ (schema.fields type).zip slots →
        field.isRequired = true → slot ≠ [])
      (hvalues : ∀ slot ∈ slots, ∀ value ∈ slot, AllRequiredSet schema value)
      : AllRequiredSet schema (.message type slots)

-- No object that `ParseFromJson` meets lacks the member of a required field.
def NoneMissing (schema : Schema μ) (type : μ) (root : Json) : Prop :=
  ∀ field, .missing field ∉ visits schema (root.depth + 1) type root

theorem Conforms.fieldType_eq {fieldType : FieldType μ} {type : μ} {slots : List (List (Value μ))}
    (h : Conforms schema fieldType (.message type slots)) : fieldType = .message type := by
  cases h
  rfl

def PassesRequired (schema : Schema μ) (isRepeated : Bool) (type : FieldType μ) (json : Json) : Prop :=
  ∀ depth field, .missing field ∉ visitsOfValue (visits schema depth) isRepeated type json

theorem passesRequired_scalar {isRepeated : Bool} {type : FieldType μ} {json : Json}
    (h : ∀ type', type ≠ .message type') : PassesRequired schema isRepeated type json := by
  intro depth field hmem
  rw [visitsOfValue_of_scalar h, List.mem_singleton] at hmem
  contradiction

theorem passesRequired_object {isRepeated : Bool} {type : μ} {members : List (List UInt8 × Json)}
    (h : ∀ depth field, .missing field ∉ visits schema depth type (.object members))
    : PassesRequired schema isRepeated (.message type) (.object members) := by
  intro depth field hmem
  unfold visitsOfValue at hmem
  cases List.mem_cons.mp hmem with
  | inl heq => contradiction
  | inr hmem => exact h depth field hmem

def WritesMessage (schema : Schema μ) (serializeMessage : Message μ → Serialized) (type : μ)
    (slots : List (List (Value μ))) : Prop :=
  ∃ members, serializeMessage ⟨type, slots⟩ = .ok (some (.object members)) ∧
    (AllRequiredSet schema (.message type slots) →
      ∀ depth field, .missing field ∉ visits schema depth type (.object members))

theorem serializeValue_writes {serializeMessage : Message μ → Serialized} {isRepeated : Bool}
    {type : FieldType μ} {value : Value μ} (hconforms : Conforms schema type value)
    (hmessage : ∀ type slots, value = .message type slots →
      WritesMessage schema serializeMessage type slots)
    : ∃ json, serializeValue lib serializeMessage isRepeated value = .ok (some json) ∧
        (AllRequiredSet schema value → PassesRequired schema isRepeated type json) := by
  cases hconforms with
  | int32 | uint32 | int64 | uint64 | float | double | bool | enum | string | bytes =>
    exact ⟨_, rfl, fun _ => passesRequired_scalar (by simp)⟩
  | message hlength hsingular hvalues =>
    have ⟨members, hmembers, hpasses⟩ := hmessage _ _ rfl
    exact ⟨_, hmembers, fun hset => passesRequired_object (hpasses hset)⟩

def WritesMember (schema : Schema μ) (entry : Slot μ) (member : List UInt8 × Json) : Prop :=
  member.1 = entry.1.name.bytes ∧
    ((∀ value ∈ entry.2, AllRequiredSet schema value) →
      ∀ depth field, .missing field ∉ visitsOfMember (visits schema depth) entry.1 member.2)

theorem serializeField_writes {serializeMessage : Message μ → Serialized} {field : FieldDescriptor μ}
    {slot : List (Value μ)} (hset : slot ≠ [])
    (hsingular : field.isRepeated = false → slot.length ≤ 1)
    (hconforms : ∀ value ∈ slot, Conforms schema field.type value)
    (hmessage : ∀ type slots, .message type slots ∈ slot →
      WritesMessage schema serializeMessage type slots)
    : ∃ json, serializeField lib serializeMessage field slot = .ok (some json) ∧
        WritesMember schema (field, slot) (field.name.bytes, json) := by
  have hvalue : ∀ isRepeated, ∀ value ∈ slot, ∃ json,
      serializeValue lib serializeMessage isRepeated value = .ok (some json) ∧
      (AllRequiredSet schema value → PassesRequired schema isRepeated field.type json) := by
    intro isRepeated value hvalue
    apply serializeValue_writes (hconforms value hvalue)
    intro type slots heq
    apply hmessage
    rw [← heq]
    exact hvalue
  cases hrepeated : field.isRepeated with
  | true =>
    have ⟨items, hitems, hwrites⟩ := serializeItems_forall₂ (hvalue true)
    refine ⟨.array items, ?_, rfl, ?_⟩
    . unfold serializeField
      rw [if_pos hrepeated, hitems]
      rfl
    . intro hall depth missing hmem
      unfold visitsOfMember at hmem
      rw [if_pos hrepeated] at hmem
      have ⟨item, hitem, hmem⟩ := List.mem_flatMap.mp hmem
      have ⟨value, hvalue, hpasses⟩ : ∃ value ∈ slot,
          AllRequiredSet schema value → PassesRequired schema true field.type item :=
        exists_mem_of_forall₂ hwrites hitem
      exact hpasses (hall value hvalue) depth missing hmem
  | false =>
    cases slot with
    | nil => contradiction
    | cons value rest =>
      have ⟨json, hjson, hpasses⟩ := hvalue false value List.mem_cons_self
      refine ⟨json, ?_, rfl, ?_⟩
      . unfold serializeField
        simp [hrepeated, hjson]
      . intro hall depth missing hmem
        unfold visitsOfMember at hmem
        rw [hrepeated, if_neg Bool.false_ne_true] at hmem
        exact hpasses (hall value List.mem_cons_self) depth missing hmem

theorem not_missing_of_writes {type : μ} {slots : List (List (Value μ))}
    {members : List (List UInt8 × Json)}
    (hlength : slots.length = (schema.fields type).length)
    (hwrites : List.Forall₂ (WritesMember schema) (listFields schema ⟨type, slots⟩) members)
    (hrequired : AllRequiredSet schema (.message type slots)) (depth : Nat) (missing : FieldDescriptor μ)
    : .missing missing ∉ visits schema depth type (.object members) := by
  cases depth with
  | zero =>
    rw [visits]
    apply List.not_mem_nil
  | succ depth =>
    cases hrequired with
    | scalar h => exact absurd rfl (h type slots)
    | message hset hvalues =>
      intro hmem
      rw [visits] at hmem
      obtain ⟨field, hfield, hmem⟩ := List.mem_flatMap.mp hmem
      obtain ⟨slot, hslot⟩ : ∃ slot, (field, slot) ∈ (schema.fields type).zip slots := by
        obtain ⟨i, hi, heq⟩ := List.mem_iff_getElem.mp hfield
        exists slots[i]
        rw [← heq, List.mem_iff_getElem]
        exists i, by simp; omega
        simp
      have hname : ∀ entry member, WritesMember schema entry member →
          member.1 = entry.1.name.bytes := fun _ _ h => h.1
      unfold visitsOfField findMember at hmem
      dsimp only at hmem
      by_cases hnil : slot = []
      . rw [hnil] at hslot
        rw [lookup_of_unset hlength hname hwrites hslot] at hmem
        dsimp only at hmem
        split at hmem
        . next h => exact hset field [] hslot h rfl
        . contradiction
      . obtain ⟨json, hlookup, _, _, hpasses⟩ := lookup_of_set hlength hname hwrites hslot hnil
        rw [hlookup] at hmem
        exact hpasses (hvalues slot (List.of_mem_zip hslot).2) depth missing hmem

-- By induction on the depth, the messages inside are less deep.
theorem serializeToJsonValue_writes {depth : Nat} {type : μ} {slots : List (List (Value μ))}
    (hconforms : Conforms schema (.message type) (.message type slots))
    (hdepth : depthOfSlots slots < depth)
    : WritesMessage schema (serializeToJsonValue lib schema depth) type slots := by
  induction depth generalizing type slots with
  | zero => omega
  | succ depth ih =>
    cases hconforms with
    | message hlength hsingular hvalues =>
      have ⟨members, hmembers, hwrites⟩ : ∃ members,
          serializeToJsonValue lib schema (depth + 1) ⟨type, slots⟩ = .ok (some (.object members)) ∧
          List.Forall₂ (WritesMember schema) (listFields schema ⟨type, slots⟩) members := by
        apply serializeToJsonValue_forall₂
        intro field slot hmem hset
        apply serializeField_writes hset (hsingular _ _ hmem) (hvalues _ _ hmem)
        intro type' slots' hvalue
        have hle := depth_le_depthOfSlots (List.of_mem_zip hmem).2 hvalue
        rw [Value.depth] at hle
        have hconforms := hvalues _ _ hmem _ hvalue
        rw [hconforms.fieldType_eq] at hconforms
        exact ih hconforms (by omega)
      exact ⟨members, hmembers, not_missing_of_writes hlength hwrites⟩

namespace Json

mutual

-- The arrays and the objects with the names of their members
def shape : Json → Json
  | .array items => .array (shapeOfItems items)
  | .object members => .object (shapeOfMembers members)
  | _ => .null

def shapeOfItems : List Json → List Json
  | [] => []
  | item :: items => item.shape :: shapeOfItems items

def shapeOfMembers : List (List UInt8 × Json) → List (List UInt8 × Json)
  | [] => []
  | (name, value) :: members => (name, value.shape) :: shapeOfMembers members

end

theorem shapeOfItems_eq (items : List Json) : shapeOfItems items = items.map shape := by
  induction items with
  | nil => simp [shapeOfItems]
  | cons item items ih => simp [shapeOfItems, ih]

theorem lookup_shapeOfMembers (members : List (List UInt8 × Json)) (name : List UInt8)
    : (shapeOfMembers members).lookup name = (members.lookup name).map shape := by
  induction members with
  | nil => simp [shapeOfMembers]
  | cons member members ih =>
    rw [shapeOfMembers, List.lookup_cons, List.lookup_cons, ih]
    split <;> simp

theorem findMember_shape (root : Json) (name : CString)
    : findMember root.shape name = (findMember root name).map (Option.map shape) := by
  cases root with
  | object members =>
    rw [shape, findMember, lookup_shapeOfMembers]
    rfl
  | _ => simp [shape, findMember, Except.map]

end Json

def Visit.shape : Visit μ → Visit μ
  | .notObject => .notObject
  | .missing field => .missing field
  | .notArray field => .notArray field
  | .value isRepeated type json => .value isRepeated type json.shape

theorem missing_mem_shape {visits : List (Visit μ)} {field : FieldDescriptor μ}
    : .missing field ∈ visits.map Visit.shape ↔ .missing field ∈ visits := by
  rw [List.mem_map]
  constructor
  . intro ⟨visit, hvisit, heq⟩
    cases visit with
    | missing field' =>
      rw [← heq]
      exact hvisit
    | _ => contradiction
  . intro h
    exact ⟨_, h, rfl⟩

section

variable {visitsOfMessage : μ → Json → List (Visit μ)}
  (h : ∀ type json, (visitsOfMessage type json).map Visit.shape = visitsOfMessage type json.shape)

include h

theorem visitsOfValue_shape (isRepeated : Bool) (type : FieldType μ) (json : Json)
    : (visitsOfValue visitsOfMessage isRepeated type json).map Visit.shape =
        visitsOfValue visitsOfMessage isRepeated type json.shape := by
  cases type.scalar_or_message with
  | inl hscalar =>
    rw [visitsOfValue_of_scalar hscalar, visitsOfValue_of_scalar hscalar]
    rfl
  | inr htype =>
    have ⟨type', htype⟩ := htype
    rw [htype]
    cases json with
    | object members =>
      have h := h type' (.object members)
      rw [Json.shape] at h
      unfold visitsOfValue
      rw [Json.shape, List.map_cons, h, Visit.shape, Json.shape]
    | _ => simp [visitsOfValue, Json.shape, Visit.shape]

theorem visitsOfMember_shape (field : FieldDescriptor μ) (json : Json)
    : (visitsOfMember visitsOfMessage field json).map Visit.shape =
        visitsOfMember visitsOfMessage field json.shape := by
  unfold visitsOfMember
  split
  . cases json with
    | array items =>
      rw [Json.shape, Json.shapeOfItems_eq]
      dsimp only
      rw [List.map_flatMap, List.flatMap_map]
      congr 1
      funext item
      apply visitsOfValue_shape h
    | _ => simp [Json.shape, Visit.shape]
  . apply visitsOfValue_shape h

theorem visitsOfField_shape (root : Json) (field : FieldDescriptor μ)
    : (visitsOfField visitsOfMessage root field).map Visit.shape =
        visitsOfField visitsOfMessage root.shape field := by
  unfold visitsOfField
  rw [Json.findMember_shape]
  cases findMember root field.name with
  | error failure => rfl
  | ok found =>
    cases found with
    | none =>
      dsimp only [Except.map, Option.map]
      split <;> rfl
    | some json => apply visitsOfMember_shape h

end

theorem visits_shape (depth : Nat) (type : μ) (root : Json)
    : (visits schema depth type root).map Visit.shape = visits schema depth type root.shape := by
  induction depth generalizing type root with
  | zero => rfl
  | succ depth ih =>
    rw [visits, visits, List.map_flatMap]
    congr 1
    funext field
    apply visitsOfField_shape ih

def KeepsShape (lib : Library) (schema : Schema μ) (message : Message μ) : Prop :=
  ∀ root, serializeToJsonValue lib schema message.depth message = .ok (some root) → root.intact →
    ∀ root', lib.parse (cString (cString (lib.print root))) = some root' → root'.shape = root.shape

-- What is written for bytes that are gone does not change what is returned.
structure EnforcesRequired (lib : Library) (schema : Schema μ) (type : μ)
    (slots : List (List (Value μ))) : Prop where
  returns : (∃ root,
      serializeToJsonValue lib schema (Message.depth ⟨type, slots⟩) ⟨type, slots⟩ = .ok (some root)) ↔
        AllRequiredSet schema (.message type slots)
  passes : ∀ json root, serializeToJson lib schema ⟨type, slots⟩ = .ok (some json) →
    lib.parse (cString json) = some root → NoneMissing schema type root

theorem enforcesRequired_iff {type : μ} {slots : List (List (Value μ))}
    (hshape : KeepsShape lib schema ⟨type, slots⟩)
    (hconforms : Conforms schema (.message type) (.message type slots))
    : EnforcesRequired lib schema type slots ↔ AllRequiredSet schema (.message type slots) := by
  have ⟨members, hmembers, hpasses⟩ : WritesMessage schema
      (serializeToJsonValue lib schema (Message.depth ⟨type, slots⟩)) type slots := by
    apply serializeToJsonValue_writes hconforms
    apply Nat.lt_succ_self
  constructor
  . intro h
    exact h.returns.mp ⟨_, hmembers⟩
  . intro hset
    refine ⟨⟨fun _ => hset, fun _ => ⟨_, hmembers⟩⟩, ?_⟩
    intro json root hjson hparse field hmem
    have heq : serializeToJson lib schema ⟨type, slots⟩
        = if (Json.object members).intact then .ok (some (cString (lib.print (.object members))))
          else .error .dangling := by
      unfold serializeToJson
      rw [hmembers]
      rfl
    rw [heq] at hjson
    split at hjson
    . next hintact =>
      injection hjson with hjson
      injection hjson with hjson
      rw [← hjson] at hparse
      have hroot := hshape _ hmembers hintact root hparse
      rw [← missing_mem_shape, visits_shape, hroot, ← visits_shape, missing_mem_shape] at hmem
      exact hpasses hset _ field hmem
    . contradiction

theorem Faithful.keepsShape {message : Message μ} (h : Faithful lib schema message)
    : KeepsShape lib schema message := by
  intro root hroot hintact root' hparse
  have ⟨hnonzero, hfaithful⟩ := h root hroot hintact
  rw [cString_eq_self.mpr hnonzero, cString_eq_self.mpr hnonzero, hfaithful] at hparse
  injection hparse with hparse
  rw [hparse]

theorem enforcesRequired_iff_green : EnforcesRequired green (paintSchema .required) () [[.enum 1]] := by
  have hroot : serializeToJsonValue green (paintSchema .required) (Message.depth ⟨(), [[.enum 1]]⟩)
      ⟨(), [[.enum 1]]⟩ = .ok (some greenRoot) := by
    unfold Message.depth serializeToJsonValue
    rw [listFields_green]
    rfl
  apply (enforcesRequired_iff ?_ ?_).mpr
  . apply AllRequiredSet.message
    . intro field slot hmem _
      rw [(eq_of_mem_green hmem).2]
      simp
    . simp only [List.forall_mem_singleton]
      apply AllRequiredSet.scalar
      simp
  . apply Faithful.keepsShape
    apply faithful_ofDocument hroot
    decide
  . apply Conforms.message rfl
    . intro field slot hmem _
      rw [(eq_of_mem_green hmem).2]
      apply Nat.le_refl
    . intro field slot hmem
      obtain ⟨hfield, hslot⟩ := eq_of_mem_green hmem
      rw [hfield, hslot, List.forall_mem_singleton]
      apply Conforms.enum
      apply List.mem_cons_of_mem
      apply List.mem_singleton_self

def nothing : Library := .ofDocument (.object []) ("\x7b\n\x7d".toList.map byteOf)

-- A message without its required field is written, and refused when it is read.
theorem not_enforcesRequired_nothing
    : Conforms (paintSchema .required) (.message ()) (.message () [[]]) ∧
      KeepsShape nothing (paintSchema .required) ⟨(), [[]]⟩ ∧
      serializeToJson nothing (paintSchema .required) ⟨(), [[]]⟩ =
        .ok (some ("\x7b\n\x7d".toList.map byteOf)) ∧
      ¬EnforcesRequired nothing (paintSchema .required) () [[]] := by
  have hroot : serializeToJsonValue nothing (paintSchema .required) (Message.depth ⟨(), [[]]⟩)
      ⟨(), [[]]⟩ = .ok (some (.object [])) := by
    have hfields : listFields (paintSchema .required) ⟨(), [[]]⟩ = [] := by
      unfold listFields
      apply List.mergeSort_nil
    unfold Message.depth serializeToJsonValue
    rw [hfields]
    rfl
  refine ⟨conforms_empty (paintSchema .required) (), ?_, ?_, ?_⟩
  . apply Faithful.keepsShape
    apply faithful_ofDocument hroot
    decide
  . unfold serializeToJson
    rw [hroot]
    rfl
  . intro h
    have hset := h.returns.mp ⟨_, hroot⟩
    cases hset with
    | scalar h => exact h () [[]] rfl
    | message hset hvalues => exact hset (paint .required) [] List.mem_cons_self rfl rfl

end Protobuf
end Claire
