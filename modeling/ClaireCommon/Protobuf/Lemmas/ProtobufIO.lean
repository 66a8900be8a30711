import ClaireCommon.Protobuf.Lemmas.Value

/-!
This module contains which messages `ParseFromJson` reads back from what `SerializeToJson` writes.
-/

namespace Claire
namespace Protobuf

variable {μ : Type} {lib : Library} {schema : Schema μ}

structure CarriesSlot (lib : Library) (schema : Schema μ) (field : FieldDescriptor μ)
    (slot : List (Value μ)) (json : Json) : Prop where
  iff : ∀ depth, json.depth ≤ depth →
    ((json.intact ∧ parseField lib schema (parseFromJsonValue lib schema depth) field json []
      = .ok (true, slot)) ↔ ∀ value ∈ slot, Survives lib schema field.isRepeated value)

theorem eq_singleton_of_fits {field : FieldDescriptor μ} {slot : List (Value μ)} (hset : slot ≠ [])
    (hlabel : field.label.Fits slot) (hrepeated : field.isRepeated = false)
    : ∃ value, slot = [value] := by
  rw [← List.length_eq_one_iff]
  have hpos : 0 < slot.length := List.length_pos_iff.mpr hset
  unfold FieldDescriptor.isRepeated at hrepeated
  unfold Label.Fits at hlabel
  split at hlabel
  . omega
  . exact hlabel
  . next h =>
    rw [h] at hrepeated
    contradiction

theorem parseField_singleton_eq_ok {parseMessage : ParseMessage μ} {field : FieldDescriptor μ}
    {json : Json} {value : Value μ} (hrepeated : field.isRepeated = false)
    : parseField lib schema parseMessage field json [] = .ok (true, [value]) ↔
        parseValue lib schema parseMessage false field.type json none = .ok (true, some value) := by
  unfold parseField
  simp only [hrepeated, Bool.false_eq_true, if_false, List.head?_nil]
  rw [Except.bind_eq_ok]
  constructor
  . intro ⟨(ret, result), hvalue, h⟩
    dsimp only at h
    have ⟨hret, h⟩ := ok_inj h
    rw [hret] at hvalue
    have ⟨value', heq⟩ := parseValue_isSome hvalue
    rw [heq] at hvalue h
    injection h with h
    rw [hvalue, h]
  . intro hvalue
    exact ⟨_, hvalue, rfl⟩

theorem serializeField_carries {serializeMessage : Message μ → Serialized}
    {field : FieldDescriptor μ} {slot : List (Value μ)} (hset : slot ≠ [])
    (hlabel : field.label.Fits slot) (htype : ∀ value ∈ slot, HasType schema field.type value)
    (hmessage : ∀ type slots, .message type slots ∈ slot →
      CarriesMessage lib schema serializeMessage type slots)
    : ∃ json, serializeField lib serializeMessage field slot = .ok (some json) ∧
        CarriesSlot lib schema field slot json := by
  cases hrepeated : field.isRepeated with
  | true =>
    obtain ⟨items, hitems, hcarries⟩ := serializeItems_carries htype hmessage
    refine ⟨.array items, ?_, ⟨?_⟩⟩
    . unfold serializeField
      rw [if_pos hrepeated, hitems]
      rfl
    . intro depth hdepth
      rw [hrepeated, ← parseItems_iff hcarries hdepth]
      unfold parseField Json.intact
      rw [if_pos hrepeated]
      rfl
  | false =>
    obtain ⟨value, hslot⟩ := eq_singleton_of_fits hset hlabel hrepeated
    rw [hslot] at htype hmessage ⊢
    obtain ⟨json, hjson, hcarries⟩ : ∃ json,
        serializeValue lib serializeMessage false value = .ok (some json) ∧
        Carries lib schema false field.type value json := by
      apply serializeValue_carries
      . apply htype
        apply List.mem_singleton_self
      . intro type slots heq
        apply hmessage
        rw [heq]
        apply List.mem_singleton_self
    refine ⟨json, ?_, ⟨?_⟩⟩
    . unfold serializeField
      simp [hrepeated, hjson]
    . intro depth hdepth
      rw [List.forall_mem_singleton, hrepeated, ← hcarries.iff depth hdepth]
      unfold Returns
      rw [parseField_singleton_eq_ok hrepeated]

-- What the source does with one field leaves `slot` in a message that is fresh, and goes on.
def ReadsSlot (lib : Library) (schema : Schema μ) (parseMessage : ParseMessage μ) (root : Json)
    (field : FieldDescriptor μ) (slot : List (Value μ)) : Prop :=
  (findMember root field.name = .ok none ∧ field.isRequired = false ∧ slot = []) ∨
  ∃ json, findMember root field.name = .ok (some json) ∧
    parseField lib schema parseMessage field json [] = .ok (true, slot)

theorem parseFields_cons_eq_ok {parseMessage : ParseMessage μ} {root : Json}
    {field : FieldDescriptor μ} {fields : List (FieldDescriptor μ)}
    {old result : List (List (Value μ))}
    : parseFields lib schema parseMessage root (field :: fields) ([] :: old) = .ok (true, result) ↔
        ∃ slot slots, result = slot :: slots ∧
          ReadsSlot lib schema parseMessage root field slot ∧
          parseFields lib schema parseMessage root fields old = .ok (true, slots) := by
  rw [parseFields, Except.bind_eq_ok]
  constructor
  . intro ⟨found, hfound, h⟩
    cases found with
    | none =>
      dsimp only at h
      split at h
      . have ⟨h, _⟩ := ok_inj h
        contradiction
      . next hrequired =>
        have ⟨(ret, slots), hslots, h⟩ := Except.bind_eq_ok.mp h
        dsimp only at h
        have ⟨hret, h⟩ := ok_inj h
        rw [hret] at hslots
        have hrequired : field.isRequired = false := by simpa using hrequired
        exact ⟨[], slots, h.symm, Or.inl ⟨hfound, hrequired, rfl⟩, hslots⟩
    | some json =>
      have ⟨(ret, slot), hslot, h⟩ := Except.bind_eq_ok.mp h
      dsimp only at h
      split at h
      . next hret =>
        rw [hret] at hslot
        have ⟨(ret, slots), hslots, h⟩ := Except.bind_eq_ok.mp h
        dsimp only at h
        have ⟨hret, h⟩ := ok_inj h
        rw [hret] at hslots
        exact ⟨slot, slots, h.symm, Or.inr ⟨json, hfound, hslot⟩, hslots⟩
      . have ⟨h, _⟩ := ok_inj h
        contradiction
  . intro ⟨slot, slots, heq, hreads, hslots⟩
    rw [heq]
    cases hreads with
    | inl hreads =>
      have ⟨hfound, hrequired, hnil⟩ := hreads
      refine ⟨none, hfound, ?_⟩
      dsimp only
      rw [hrequired, if_neg Bool.false_ne_true, Except.bind_eq_ok, hnil]
      exact ⟨_, hslots, rfl⟩
    | inr hreads =>
      have ⟨json, hfound, hslot⟩ := hreads
      refine ⟨some json, hfound, ?_⟩
      dsimp only
      rw [Except.bind_eq_ok]
      refine ⟨_, hslot, ?_⟩
      rw [if_pos rfl, Except.bind_eq_ok]
      exact ⟨_, hslots, rfl⟩

theorem parseFields_eq_ok {parseMessage : ParseMessage μ} {root : Json}
    {fields : List (FieldDescriptor μ)} {slots : List (List (Value μ))}
    : parseFields lib schema parseMessage root fields (fields.map fun _ => []) = .ok (true, slots) ↔
        List.Forall₂ (ReadsSlot lib schema parseMessage root) fields slots := by
  induction fields generalizing slots with
  | nil => simp [parseFields, eq_comm]
  | cons field fields ih =>
    rw [List.map_cons, parseFields_cons_eq_ok, List.forall₂_cons_left_iff]
    constructor
    . intro ⟨slot, slots, heq, hreads, hslots⟩
      exact ⟨slot, slots, hreads, ih.mp hslots, heq⟩
    . intro ⟨slot, slots, hreads, hslots, heq⟩
      exact ⟨slot, slots, heq, hreads, ih.mpr hslots⟩

structure CarriesMember (lib : Library) (schema : Schema μ) (entry : Slot μ)
    (member : List UInt8 × Json) : Prop where
  name : member.1 = entry.1.name.bytes
  value : CarriesSlot lib schema entry.1 entry.2 member.2

theorem parseFromJsonValue_empty_eq_ok {depth : Nat} {type : μ} {root : Json}
    {slots : List (List (Value μ))}
    : parseFromJsonValue lib schema (depth + 1) root (.empty schema type) = .ok (true, ⟨type, slots⟩) ↔
        List.Forall₂ (ReadsSlot lib schema (parseFromJsonValue lib schema depth) root)
          (schema.fields type) slots := by
  rw [← parseFields_eq_ok, parseFromJsonValue, Except.bind_eq_ok]
  unfold Message.empty
  dsimp only
  constructor
  . intro ⟨(ret, slots), hslots, h⟩
    have ⟨hret, h⟩ := ok_inj h
    injection h with _ h
    dsimp only at hret h
    rw [hslots, hret, h]
  . intro hslots
    exact ⟨_, hslots, rfl⟩

theorem parseValue_message_eq_ok {parseMessage : ParseMessage μ} {isRepeated : Bool} {type : μ}
    {members : List (List UInt8 × Json)} {slots : List (List (Value μ))}
    : parseValue lib schema parseMessage isRepeated (.message type) (.object members) none
        = .ok (true, some (.message type slots)) ↔
        parseMessage (.object members) (.empty schema type) = .ok (true, ⟨type, slots⟩) := by
  dsimp only [parseValue]
  unfold acceptMessage mutableMessage
  dsimp only
  rw [Except.bind_eq_ok]
  constructor
  . intro ⟨(ret, message), hmessage, h⟩
    have ⟨hret, h⟩ := ok_inj h
    injection h with h
    injection h with htype hslots
    dsimp only at hret htype hslots
    rw [hmessage, hret, ← htype, ← hslots]
  . intro hmessage
    exact ⟨_, hmessage, rfl⟩

theorem readsSlot_iff {parseMessage : ParseMessage μ} {members : List (List UInt8 × Json)}
    {field : FieldDescriptor μ} {slot : List (Value μ)}
    : ReadsSlot lib schema parseMessage (.object members) field slot ↔
        (members.lookup field.name.bytes = none ∧ field.isRequired = false ∧ slot = []) ∨
        ∃ json, members.lookup field.name.bytes = some json ∧
          parseField lib schema parseMessage field json [] = .ok (true, slot) := by
  unfold ReadsSlot findMember
  simp

theorem isRequired_eq_false_of_fits {field : FieldDescriptor μ}
    (hlabel : field.label.Fits ([] : List (Value μ))) : field.isRequired = false := by
  unfold FieldDescriptor.isRequired
  cases hlabel' : field.label with
  | required =>
    rw [hlabel'] at hlabel
    contradiction
  | optional => rfl
  | repeated => rfl

theorem carries_members {type : μ} {slots : List (List (Value μ))}
    {members : List (List UInt8 × Json)}
    (hlength : slots.length = (schema.fields type).length)
    (hlabels : ∀ field slot, (field, slot) ∈ (schema.fields type).zip slots → field.label.Fits slot)
    (hcarries : List.Forall₂ (CarriesMember lib schema) (listFields schema ⟨type, slots⟩) members)
    (isRepeated : Bool)
    : Carries lib schema isRepeated (.message type) (.message type slots) (.object members) := by
  constructor
  intro depth hdepth
  rw [Json.depth] at hdepth
  cases depth with
  | zero => omega
  | succ depth =>
    have hname : ∀ entry member, CarriesMember lib schema entry member →
        member.1 = entry.1.name.bytes := fun _ _ => CarriesMember.name
    unfold Returns
    rw [parseValue_message_eq_ok, parseFromJsonValue_empty_eq_ok, survives_message_iff,
      List.forall₂_iff_zip, Json.intact, Json.intactMembers_iff]
    constructor
    . rintro ⟨hintact, _, hreads⟩ field slot hmem value hvalue
      have hset : slot ≠ [] := List.ne_nil_of_mem hvalue
      obtain ⟨json, hlookup, hmember, hslot⟩ := lookup_of_set hlength hname hcarries hmem hset
      have hle : json.depth ≤ depth :=
        Nat.le_trans (Json.depth_le_depthOfMembers hmember) (by omega)
      have hreads := hreads hmem
      rw [readsSlot_iff, hlookup] at hreads
      cases hreads with
      | inl h => simp at h
      | inr h =>
        obtain ⟨json', heq, hparse⟩ := h
        injection heq with heq
        rw [← heq] at hparse
        exact (hslot.value.iff depth hle).mp ⟨hintact _ hmember, hparse⟩ value hvalue
    . intro hsurvives
      refine ⟨?_, hlength.symm, ?_⟩
      . intro member hmember
        obtain ⟨entry, hentry, hslot⟩ := exists_mem_of_forall₂ hcarries hmember
        obtain ⟨hmem, _⟩ := mem_listFields.mp hentry
        exact ((hslot.value.iff _ (Nat.le_refl _)).mpr (hsurvives _ _ hmem)).1
      . intro field slot hmem
        rw [readsSlot_iff]
        by_cases hset : slot = []
        . rw [hset] at hmem
          apply Or.inl
          exact ⟨lookup_of_unset hlength hname hcarries hmem,
            isRequired_eq_false_of_fits (hlabels _ _ hmem), hset⟩
        . obtain ⟨json, hlookup, hmember, hslot⟩ := lookup_of_set hlength hname hcarries hmem hset
          have hle : json.depth ≤ depth :=
            Nat.le_trans (Json.depth_le_depthOfMembers hmember) (by omega)
          apply Or.inr
          exact ⟨json, hlookup, ((hslot.value.iff depth hle).mpr (hsurvives _ _ hmem)).2⟩

theorem HasType.eq_message {fieldType : FieldType μ} {type : μ} {slots : List (List (Value μ))}
    (h : HasType schema fieldType (.message type slots)) : fieldType = .message type := by
  cases h
  rfl

-- By induction on the depth, the messages inside are less deep.
theorem serializeToJsonValue_carries {depth : Nat} {type : μ} {slots : List (List (Value μ))}
    (htype : HasType schema (.message type) (.message type slots)) (hdepth : depthOfSlots slots < depth)
    : ∃ members, serializeToJsonValue lib schema depth ⟨type, slots⟩ = .ok (some (.object members)) ∧
        ∀ isRepeated,
          Carries lib schema isRepeated (.message type) (.message type slots) (.object members) := by
  induction depth generalizing type slots with
  | zero => omega
  | succ depth ih =>
    cases htype with
    | message hlength hlabels hvalues =>
      have ⟨members, hmembers, hcarries⟩ : ∃ members,
          serializeToJsonValue lib schema (depth + 1) ⟨type, slots⟩ = .ok (some (.object members)) ∧
          List.Forall₂ (CarriesMember lib schema) (listFields schema ⟨type, slots⟩) members := by
        apply serializeToJsonValue_forall₂
        intro field slot hmem hset
        have ⟨json, hjson, hslot⟩ : ∃ json,
            serializeField lib (serializeToJsonValue lib schema depth) field slot =
              .ok (some json) ∧ CarriesSlot lib schema field slot json := by
          apply serializeField_carries hset (hlabels _ _ hmem) (hvalues _ _ hmem)
          intro type' slots' hvalue
          have hle := depth_le_depthOfSlots (List.of_mem_zip hmem).2 hvalue
          rw [Value.depth] at hle
          have htype := hvalues _ _ hmem _ hvalue
          rw [htype.eq_message] at htype
          have ⟨members, hmembers, hcarries⟩ := ih htype (by omega)
          exact ⟨_, hmembers, hcarries⟩
        exact ⟨json, hjson, rfl, hslot⟩
      exact ⟨members, hmembers, carries_members hlength hlabels hcarries⟩

-- rapidjson reads the JSON value of the message back from its text, which has no NUL.
def Faithful (lib : Library) (schema : Schema μ) (message : Message μ) : Prop :=
  ∀ root, serializeToJsonValue lib schema message.depth message = .ok (some root) → root.intact →
    0 ∉ lib.print root ∧ lib.parse (lib.print root) = some root

def RoundTrips (lib : Library) (schema : Schema μ) (message : Message μ) : Prop :=
  ∃ json, serializeToJson lib schema message = .ok (some json) ∧
    parseFromJson lib schema json (.empty schema message.type) = .ok (true, message)

theorem roundTrips_iff {type : μ} {slots : List (List (Value μ))}
    (hfaithful : Faithful lib schema ⟨type, slots⟩)
    (htype : HasType schema (.message type) (.message type slots))
    : RoundTrips lib schema ⟨type, slots⟩ ↔
        Survives lib schema false (.message type slots) := by
  have ⟨members, hmembers, hcarries⟩ : ∃ members,
      serializeToJsonValue lib schema (Message.depth ⟨type, slots⟩) ⟨type, slots⟩
        = .ok (some (.object members)) ∧
      ∀ isRepeated,
        Carries lib schema isRepeated (.message type) (.message type slots) (.object members) := by
    apply serializeToJsonValue_carries htype
    apply Nat.lt_succ_self
  have hfaithful := hfaithful _ hmembers
  have hserialize : serializeToJson lib schema ⟨type, slots⟩
      = if (Json.object members).intact then .ok (some (cString (lib.print (.object members))))
        else .error .dangling := by
    unfold serializeToJson
    rw [hmembers]
    rfl
  rw [← (hcarries false).iff _ (Nat.le_succ _)]
  unfold Returns RoundTrips
  rw [hserialize, parseValue_message_eq_ok]
  by_cases hintact : (Json.object members).intact
  . have ⟨hnonzero, hparse⟩ := hfaithful hintact
    rw [if_pos hintact, cString_eq_self.mpr hnonzero]
    unfold parseFromJson
    simp [hintact, cString_eq_self.mpr hnonzero, hparse]
  . rw [if_neg hintact]
    simp [hintact]

-- `enum Color { RED = 0; GREEN = 1; }`
def color : EnumDescriptor where
  values := [(⟨"RED".toList.map byteOf, by decide⟩, 0), (⟨"GREEN".toList.map byteOf, by decide⟩, 1)]

def paint (label : Label) : FieldDescriptor Unit where
  name := ⟨"color".toList.map byteOf, by decide⟩
  number := 1
  label := label
  type := .enum color

def paintSchema (label : Label) : Schema Unit where
  fields _ := [paint label]
  nodup _ := List.nodup_singleton _
  name_lt _ := by
    rw [List.forall_mem_singleton]
    show "color".toList.length < 2 ^ 32
    decide

theorem eq_of_mem_green {label : Label} {field : FieldDescriptor Unit} {slot : List (Value Unit)}
    (hmem : (field, slot) ∈ ((paintSchema label).fields ()).zip [[.enum 1]])
    : field = paint label ∧ slot = [.enum 1] := by
  have heq := List.mem_singleton.mp hmem
  injection heq with hfield hslot
  exact ⟨hfield, hslot⟩

theorem hasType_green {label : Label}
    : HasType (paintSchema label) (.message ()) (.message () [[.enum 1]]) := by
  apply HasType.message rfl
  . intro field slot hmem
    have ⟨hfield, hslot⟩ := eq_of_mem_green hmem
    rw [hfield, hslot]
    cases label with
    | optional => apply Nat.le_refl
    | required => rfl
    | repeated => trivial
  . intro field slot hmem
    have ⟨hfield, hslot⟩ := eq_of_mem_green hmem
    rw [hfield, hslot, List.forall_mem_singleton]
    apply HasType.enum
    apply List.mem_cons_of_mem
    apply List.mem_singleton_self

theorem listFields_green {label : Label}
    : listFields (paintSchema label) ⟨(), [[.enum 1]]⟩ = [(paint label, [.enum 1])] := by
  unfold listFields
  apply List.mergeSort_singleton

def Library.ofDocument (root : Json) (text : List UInt8) : Library where
  print _ := text
  parse s := if s = text then some root else none
  lexicalCastInt64 _ := none
  lexicalCastUint64 _ := none
  sharesCopies := false

theorem faithful_ofDocument {schema : Schema μ} {message : Message μ} {root : Json} {text : List UInt8}
    (hroot : serializeToJsonValue (.ofDocument root text) schema message.depth message = .ok (some root))
    (hnonzero : 0 ∉ text) : Faithful (.ofDocument root text) schema message := by
  intro root' hroot' _
  rw [hroot] at hroot'
  injection hroot' with hroot'
  injection hroot' with hroot'
  rw [← hroot']
  exact ⟨hnonzero, if_pos rfl⟩

def greens : Library :=
  .ofDocument (.object [("color".toList.map byteOf, .array [.number (.ofInt32 1)])])
    ("\x7b\n    \"color\": [\n        1\n    ]\n\x7d".toList.map byteOf)

theorem roundTrips_iff_greens
    : RoundTrips greens (paintSchema .repeated) ⟨(), [[.enum 1]]⟩ := by
  apply (roundTrips_iff ?_ hasType_green).mpr
  . apply Survives.message
    intro field slot hmem
    have ⟨hfield, hslot⟩ := eq_of_mem_green hmem
    rw [hfield, hslot, List.forall_mem_singleton]
    apply Survives.enum
  . apply faithful_ofDocument
    . unfold Message.depth serializeToJsonValue
      rw [listFields_green]
      rfl
    . decide

def greenRoot : Json := .object [("color".toList.map byteOf, .number (.ofInt32 1))]

def green : Library :=
  .ofDocument greenRoot ("\x7b\n    \"color\": 1\n\x7d".toList.map byteOf)

-- What is written for one value is not read back, what is written for a repeated one is.
theorem not_roundTrips_green
    : HasType (paintSchema .optional) (.message ()) (.message () [[.enum 1]]) ∧
      Faithful green (paintSchema .optional) ⟨(), [[.enum 1]]⟩ ∧
      ¬RoundTrips green (paintSchema .optional) ⟨(), [[.enum 1]]⟩ := by
  have hroot : serializeToJsonValue green (paintSchema .optional) (Message.depth ⟨(), [[.enum 1]]⟩)
      ⟨(), [[.enum 1]]⟩ = .ok (some greenRoot) := by
    unfold Message.depth serializeToJsonValue
    rw [listFields_green]
    rfl
  refine ⟨hasType_green, ?_, ?_⟩
  . apply faithful_ofDocument hroot
    decide
  . rintro ⟨json, hjson, hparse⟩
    unfold serializeToJson at hjson
    rw [hroot] at hjson
    injection hjson with hjson
    injection hjson with hjson
    have hrefused : parseFromJson green (paintSchema .optional) (cString (green.print greenRoot))
        (.empty (paintSchema .optional) ()) = .ok (false, ⟨(), [[]]⟩) := rfl
    rw [← hjson, hrefused] at hparse
    injection hparse with hparse
    injection hparse with hparse _
    contradiction

end Protobuf
end Claire
