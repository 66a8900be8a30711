import ClaireCommon.Symbolizer.Impl.Dwarf

/-!
This module contains the abbreviation tables of `.debug_abbrev` and how they are encoded in bytes.
-/

namespace Claire
namespace Dwarf

open Bytes

def DW_CHILDREN_yes : Nat := 0x01

structure Abbreviation where
  code : Nat
  tag : Nat
  hasChildren : Bool
  attributes : List Attribute
  code_ne_zero : code ≠ 0
  code_lt : code < 2 ^ 64
  tag_lt : tag < 2 ^ 64
  name_lt : ∀ attr ∈ attributes, attr.name < 2 ^ 64
  form_lt : ∀ attr ∈ attributes, attr.form < 2 ^ 64
  -- Two zeros end the attributes.
  not_terminator : ∀ attr ∈ attributes, ¬(attr.name = 0 ∧ attr.form = 0)

def terminator : Attribute := ⟨0, 0⟩

inductive Attribute.Encodes : Attribute → List UInt8 → Prop
  | mk {attr : Attribute} {name form : List UInt8} (hname : EncodesLeb attr.name name)
      (hform : EncodesLeb attr.form form) : Encodes attr (name ++ form)

inductive Attribute.EncodesAll : List Attribute → List UInt8 → Prop
  | nil {bytes : List UInt8} (h : terminator.Encodes bytes) : EncodesAll [] bytes
  | cons {attr : Attribute} {attributes : List Attribute} {bytes rest : List UInt8}
      (h : attr.Encodes bytes) (hrest : EncodesAll attributes rest)
      : EncodesAll (attr :: attributes) (bytes ++ rest)

namespace Abbreviation

def childrenByte (hasChildren : Bool) : UInt8 :=
  UInt8.ofNat (if hasChildren then DW_CHILDREN_yes else DW_CHILDREN_no)

inductive Encodes : Abbreviation → List UInt8 → Prop
  | mk {abbreviation : Abbreviation} {code tag attributes : List UInt8}
      (hcode : EncodesLeb abbreviation.code code) (htag : EncodesLeb abbreviation.tag tag)
      (hattributes : Attribute.EncodesAll abbreviation.attributes attributes)
      : Encodes abbreviation
          (code ++ (tag ++ (childrenByte abbreviation.hasChildren :: attributes)))

inductive EncodesAll : List Abbreviation → List UInt8 → Prop
  | nil {bytes : List UInt8} (h : EncodesLeb 0 bytes) : EncodesAll [] bytes
  | cons {abbreviation : Abbreviation} {abbreviations : List Abbreviation} {bytes rest : List UInt8}
      (h : abbreviation.Encodes bytes) (hrest : EncodesAll abbreviations rest)
      : EncodesAll (abbreviation :: abbreviations) (bytes ++ rest)

end Abbreviation

theorem Attribute.exists_encodes {attr : Attribute} (hname : attr.name < 2 ^ 64)
    (hform : attr.form < 2 ^ 64) : ∃ bytes, attr.Encodes bytes := by
  have ⟨name, hname⟩ := exists_encodesLeb hname
  have ⟨form, hform⟩ := exists_encodesLeb hform
  exact ⟨name ++ form, Encodes.mk hname hform⟩

theorem Attribute.exists_encodesAll {attributes : List Attribute}
    (hname : ∀ attr ∈ attributes, attr.name < 2 ^ 64)
    (hform : ∀ attr ∈ attributes, attr.form < 2 ^ 64)
    : ∃ bytes, EncodesAll attributes bytes := by
  induction attributes with
  | nil =>
    have ⟨bytes, hbytes⟩ := @exists_encodes terminator (by decide) (by decide)
    exact ⟨bytes, EncodesAll.nil hbytes⟩
  | cons attr attributes ih =>
    rw [List.forall_mem_cons] at hname hform
    have ⟨bytes, hbytes⟩ := exists_encodes hname.1 hform.1
    have ⟨rest, hrest⟩ := ih hname.2 hform.2
    exact ⟨bytes ++ rest, EncodesAll.cons hbytes hrest⟩

theorem Abbreviation.exists_encodesAll (abbreviations : List Abbreviation)
    : ∃ bytes, EncodesAll abbreviations bytes := by
  induction abbreviations with
  | nil =>
    have ⟨bytes, hbytes⟩ := @exists_encodesLeb 0 (by decide)
    exact ⟨bytes, EncodesAll.nil hbytes⟩
  | cons abbreviation abbreviations ih =>
    have ⟨rest, hrest⟩ := ih
    have ⟨code, hcode⟩ := exists_encodesLeb abbreviation.code_lt
    have ⟨tag, htag⟩ := exists_encodesLeb abbreviation.tag_lt
    have ⟨attributes, hattributes⟩ :=
      Attribute.exists_encodesAll abbreviation.name_lt abbreviation.form_lt
    exact ⟨_, EncodesAll.cons (Encodes.mk hcode htag hattributes) hrest⟩

end Dwarf
end Claire
