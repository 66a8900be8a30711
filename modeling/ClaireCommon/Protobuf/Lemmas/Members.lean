import ClaireCommon.Protobuf.Lemmas.Json
import Mathlib.Data.List.Forall2

/-!
This module contains what `SerializeToJson` makes of the items of a field and of the fields of a message,
where `R` is what is known of each of them.
-/

namespace Claire
namespace Protobuf

variable {μ : Type} {lib : Library} {schema : Schema μ} {serializeMessage : Message μ → Serialized}

theorem exists_mem_of_forall₂ {α β : Type} {R : α → β → Prop} {as : List α} {bs : List β} {b : β}
    (h : List.Forall₂ R as bs) (hmem : b ∈ bs) : ∃ a ∈ as, R a b := by
  induction h with
  | nil => contradiction
  | @cons a _ as bs hfirst _ ih =>
    cases List.mem_cons.mp hmem with
    | inl heq =>
      rw [heq]
      exact ⟨a, List.mem_cons_self, hfirst⟩
    | inr hmem =>
      have ⟨a', ha', hrelated⟩ := ih hmem
      exact ⟨a', List.mem_cons_of_mem _ ha', hrelated⟩

theorem serializeItems_forall₂ {R : Value μ → Json → Prop} {slot : List (Value μ)}
    (h : ∀ value ∈ slot, ∃ item,
      serializeValue lib serializeMessage true value = .ok (some item) ∧ R value item)
    : ∃ items, serializeItems lib serializeMessage slot = .ok (some items) ∧
        List.Forall₂ R slot items := by
  induction slot with
  | nil => exact ⟨[], rfl, .nil⟩
  | cons value slot ih =>
    rw [List.forall_mem_cons] at h
    have ⟨item, hitem, hfirst⟩ := h.1
    have ⟨items, hitems, hrest⟩ := ih h.2
    refine ⟨item :: items, ?_, .cons hfirst hrest⟩
    unfold serializeItems
    rw [hitem, hitems]
    rfl

theorem mem_listFields {type : μ} {slots : List (List (Value μ))} {entry : Slot μ}
    : entry ∈ listFields schema ⟨type, slots⟩ ↔
        entry ∈ (schema.fields type).zip slots ∧ entry.2 ≠ [] := by
  unfold listFields
  rw [List.mem_mergeSort, List.mem_filter]
  simp

theorem nodup_zip {type : μ} {slots : List (List (Value μ))}
    (hlength : slots.length = (schema.fields type).length)
    : (((schema.fields type).zip slots).map (·.1.name)).Nodup := by
  have hnodup := schema.nodup type
  have hfst : ((schema.fields type).zip slots).map Prod.fst = schema.fields type := by
    apply List.map_fst_zip
    omega
  rw [← hfst, List.map_map] at hnodup
  exact hnodup

theorem nodup_listFields {type : μ} {slots : List (List (Value μ))}
    (hlength : slots.length = (schema.fields type).length)
    : ((listFields schema ⟨type, slots⟩).map (·.1.name)).Nodup := by
  have hperm := (List.mergeSort_perm (((schema.fields type).zip slots).filter (!·.2.isEmpty))
    (·.1.number ≤ ·.1.number)).map (·.1.name)
  have hsublist := (List.filter_sublist (p := (!·.2.isEmpty))
    (l := (schema.fields type).zip slots)).map (·.1.name)
  unfold listFields
  rw [hperm.nodup_iff]
  exact (nodup_zip hlength).sublist hsublist

section

variable {R : Slot μ → List UInt8 × Json → Prop} {fields : List (Slot μ)}

theorem serializeFields_forall₂ (hset : ∀ entry ∈ fields, entry.2 ≠ [])
    (hname : ∀ entry ∈ fields, entry.1.name.bytes.length < 2 ^ 32)
    (hfields : ∀ entry ∈ fields, ∃ json,
      serializeField lib serializeMessage entry.1 entry.2 = .ok (some json) ∧
        R entry (entry.1.name.bytes, json))
    : ∃ members, serializeFields lib serializeMessage fields = .ok (some members) ∧
        List.Forall₂ R fields members := by
  induction fields with
  | nil => exact ⟨[], rfl, .nil⟩
  | cons entry fields ih =>
    rw [List.forall_mem_cons] at hset hname hfields
    have ⟨members, hmembers, hrest⟩ := ih hset.2 hname.2 hfields.2
    have ⟨json, hjson, hfirst⟩ := hfields.1
    have hset := hset.1
    refine ⟨(entry.1.name.bytes, json) :: members, ?_, .cons hfirst hrest⟩
    unfold serializeFields
    rw [if_neg (by simp [hset]), hjson, hmembers, withUnsignedLength_eq_self.mpr hname.1]
    rfl

theorem serializeToJsonValue_forall₂ {depth : Nat} {type : μ} {slots : List (List (Value μ))}
    (hfields : ∀ field slot, (field, slot) ∈ (schema.fields type).zip slots → slot ≠ [] → ∃ json,
      serializeField lib (serializeToJsonValue lib schema depth) field slot = .ok (some json) ∧
        R (field, slot) (field.name.bytes, json))
    : ∃ members, serializeToJsonValue lib schema (depth + 1) ⟨type, slots⟩ =
          .ok (some (.object members)) ∧
        List.Forall₂ R (listFields schema ⟨type, slots⟩) members := by
  have ⟨members, hmembers, hR⟩ : ∃ members,
      serializeFields lib (serializeToJsonValue lib schema depth)
        (listFields schema ⟨type, slots⟩) = .ok (some members) ∧
      List.Forall₂ R (listFields schema ⟨type, slots⟩) members := by
    apply serializeFields_forall₂
    . intro entry hentry
      exact (mem_listFields.mp hentry).2
    . intro entry hentry
      have hmem := (mem_listFields.mp hentry).1
      exact schema.name_lt type _ (List.of_mem_zip hmem).1
    . intro entry hentry
      have ⟨hmem, hset⟩ := mem_listFields.mp hentry
      exact hfields entry.1 entry.2 hmem hset
  refine ⟨members, ?_, hR⟩
  unfold serializeToJsonValue
  dsimp only
  rw [hmembers]
  rfl

variable {members : List (List UInt8 × Json)}

theorem lookup_of_mem {entry : Slot μ} (hR : ∀ entry member, R entry member →
      member.1 = entry.1.name.bytes)
    (h : List.Forall₂ R fields members) (hnodup : (fields.map (·.1.name)).Nodup)
    (hmem : entry ∈ fields)
    : ∃ json, members.lookup entry.1.name.bytes = some json ∧ R entry (entry.1.name.bytes, json) := by
  induction h with
  | nil => contradiction
  | @cons first member fields members hfirst _ ih =>
    rw [List.map_cons, List.nodup_cons] at hnodup
    cases List.mem_cons.mp hmem with
    | inl heq =>
      rw [heq, ← hR _ _ hfirst]
      exact ⟨member.2, List.lookup_cons_self, hfirst⟩
    | inr hmem =>
      have ⟨json, hlookup, hentry⟩ := ih hnodup.2 hmem
      refine ⟨json, ?_, hentry⟩
      have hne : entry.1.name.bytes ≠ member.1 := by
        rw [hR _ _ hfirst]
        intro heq
        apply hnodup.1
        rw [List.mem_map]
        exact ⟨entry, hmem, CString.bytes_inj.mp heq⟩
      rw [List.lookup_cons, beq_eq_false_iff_ne.mpr hne, hlookup]

theorem lookup_of_not_mem {name : CString}
    (hR : ∀ entry member, R entry member → member.1 = entry.1.name.bytes)
    (h : List.Forall₂ R fields members) (hname : name ∉ fields.map (·.1.name))
    : members.lookup name.bytes = none := by
  induction h with
  | nil => rfl
  | @cons first member fields members hfirst _ ih =>
    rw [List.map_cons, List.mem_cons, not_or] at hname
    have hne : name.bytes ≠ member.1 := by
      rw [hR _ _ hfirst]
      intro heq
      exact hname.1 (CString.bytes_inj.mp heq)
    rw [List.lookup_cons, beq_eq_false_iff_ne.mpr hne, ih hname.2]

end

section

variable {R : Slot μ → List UInt8 × Json → Prop} {type : μ} {slots : List (List (Value μ))}
  {members : List (List UInt8 × Json)} {field : FieldDescriptor μ}

theorem lookup_of_set {slot : List (Value μ)} (hlength : slots.length = (schema.fields type).length)
    (hR : ∀ entry member, R entry member → member.1 = entry.1.name.bytes)
    (h : List.Forall₂ R (listFields schema ⟨type, slots⟩) members)
    (hmem : (field, slot) ∈ (schema.fields type).zip slots) (hset : slot ≠ [])
    : ∃ json, members.lookup field.name.bytes = some json ∧ (field.name.bytes, json) ∈ members ∧
        R (field, slot) (field.name.bytes, json) := by
  have ⟨json, hlookup, hslot⟩ := lookup_of_mem hR h (nodup_listFields hlength)
    (mem_listFields.mpr ⟨hmem, hset⟩)
  exact ⟨json, hlookup, UnorderedMap.mem_of_lookup hlookup, hslot⟩

theorem lookup_of_unset (hlength : slots.length = (schema.fields type).length)
    (hR : ∀ entry member, R entry member → member.1 = entry.1.name.bytes)
    (h : List.Forall₂ R (listFields schema ⟨type, slots⟩) members)
    (hmem : (field, []) ∈ (schema.fields type).zip slots)
    : members.lookup field.name.bytes = none := by
  apply lookup_of_not_mem hR h
  intro hname
  have ⟨entry, hentry, heq⟩ := List.mem_map.mp hname
  have ⟨hmem', hset⟩ := mem_listFields.mp hentry
  have := List.inj_on_of_nodup_map (nodup_zip hlength) hmem' hmem heq
  rw [this] at hset
  contradiction

end

end Protobuf
end Claire
