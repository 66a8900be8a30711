import ClaireCommon.Symbolizer.Abbreviations
import ClaireCommon.Symbolizer.Lemmas.Read

/-!
This module proves that `GetAbbreviation` finds the first entry with a code in every table, and that
`ReadAttribute` reads the attributes of the entry back.
-/

namespace Claire
namespace Dwarf

open Bytes Traced

variable {env : Env}

theorem readULEB_of_encodesLeb {n : Nat} {bytes : List UInt8} {s : StringPiece} (hn : n < 2 ^ 64)
    (h : EncodesLeb n bytes) (hholds : env.Holds s.data bytes) (hsize : 1 < s.size)
    : (readULEB env s).result = .ok (n, ⟨s.data.add bytes.length, s.size⟩) := by
  rw [readULEB_of_holds h.leb hholds hsize, h.value, Nat.mod_eq_of_lt hn]

theorem readAttribute_of_encodes {attr : Attribute} {bytes : List UInt8} {s : StringPiece}
    (hname : attr.name < 2 ^ 64) (hform : attr.form < 2 ^ 64) (h : attr.Encodes bytes)
    (hholds : env.Holds s.data bytes) (hsize : 1 < s.size)
    : (readAttribute env s).result = .ok (attr, ⟨s.data.add bytes.length, s.size⟩) := by
  cases h with
  | @mk name form hencname hencform =>
    rw [Env.holds_append] at hholds
    have hsecond := @readULEB_of_encodesLeb env _ _ ⟨s.data.add name.length, s.size⟩ hform hencform
      hholds.2 hsize
    unfold readAttribute
    rw [result_bind_of_ok (readULEB_of_encodesLeb hname hencname hholds.1 hsize)]
    dsimp only
    rw [result_bind_of_ok hsecond, Ptr.add_add, ← List.length_append]
    rfl

theorem EncodesLeb.length_pos {n : Nat} {bytes : List UInt8} (h : EncodesLeb n bytes)
    : 0 < bytes.length :=
  h.leb.isLeb.length_pos

theorem Attribute.Encodes.two_le {attr : Attribute} {bytes : List UInt8} (h : attr.Encodes bytes)
    : 2 ≤ bytes.length := by
  cases h with
  | mk hname hform =>
    have := EncodesLeb.length_pos hname
    have := EncodesLeb.length_pos hform
    rw [List.length_append]
    omega

theorem Attribute.EncodesAll.lt_length {attributes : List Attribute} {bytes : List UInt8}
    (h : EncodesAll attributes bytes) : attributes.length + 1 < bytes.length := by
  induction h with
  | nil h => exact h.two_le
  | cons h hrest ih =>
    have := h.two_le
    rw [List.length_cons, List.length_append]
    omega

def readAttributes (env : Env) : Nat → StringPiece → Reader (List Attribute × StringPiece)
  | 0, s => return ([], s)
  | n + 1, s => do
    let (attr, s) ← readAttribute env s
    let (attributes, s) ← readAttributes env n s
    return (attr :: attributes, s)

theorem readAttributes_of_encodesAll {attributes : List Attribute} {bytes : List UInt8}
    {s : StringPiece} (hname : ∀ attr ∈ attributes, attr.name < 2 ^ 64)
    (hform : ∀ attr ∈ attributes, attr.form < 2 ^ 64) (h : Attribute.EncodesAll attributes bytes)
    (hholds : env.Holds s.data bytes) (hsize : 1 < s.size)
    : (readAttributes env (attributes.length + 1) s).result
        = .ok (attributes ++ [terminator], ⟨s.data.add bytes.length, s.size⟩) := by
  induction h generalizing s with
  | nil h =>
    have hread := readAttribute_of_encodes (by decide) (by decide) h hholds hsize
    unfold readAttributes
    rw [result_bind_of_ok hread]
    rfl
  | @cons attr attributes bytes rest h hrest ih =>
    rw [List.forall_mem_cons] at hname hform
    rw [Env.holds_append] at hholds
    have hread := readAttribute_of_encodes hname.1 hform.1 h hholds.1 hsize
    have hreads := @ih ⟨s.data.add bytes.length, s.size⟩ hname.2 hform.2 hholds.2 hsize
    unfold readAttributes
    rw [result_bind_of_ok hread]
    dsimp only
    rw [List.length_cons, result_bind_of_ok hreads, Ptr.add_add, List.length_append]
    rfl

theorem loop_skipAttributesRound {attributes : List Attribute} {bytes : List UInt8}
    {section_ : StringPiece} {fuel : Nat} (hname : ∀ attr ∈ attributes, attr.name < 2 ^ 64)
    (hform : ∀ attr ∈ attributes, attr.form < 2 ^ 64)
    (hterminator : ∀ attr ∈ attributes, ¬(attr.name = 0 ∧ attr.form = 0))
    (h : Attribute.EncodesAll attributes bytes) (hholds : env.Holds section_.data bytes)
    (hsize : 1 < section_.size) (hfuel : attributes.length < fuel)
    : (loop .stuck (skipAttributesRound env) fuel section_).result
        = .ok ⟨section_.data.add bytes.length, section_.size⟩ := by
  have hround {attr : Attribute} {bytes : List UInt8} {section_ : StringPiece}
      (hread : (readAttribute env section_).result
        = .ok (attr, ⟨section_.data.add bytes.length, section_.size⟩)) (hsize : 1 < section_.size)
      : (skipAttributesRound env section_).result = .ok (
          if attr.name = 0 ∧ attr.form = 0 then
            .inr ⟨section_.data.add bytes.length, section_.size⟩
          else
            .inl ⟨section_.data.add bytes.length, section_.size⟩) := by
    have hnonempty : section_.isEmpty = false := by
      unfold StringPiece.isEmpty
      rw [decide_eq_false_iff_not]
      omega
    unfold skipAttributesRound
    rw [hnonempty]
    have hcheck : (Reader.check (!false)).result = .ok ⟨⟩ := rfl
    rw [result_bind_of_ok hcheck, result_bind_of_ok hread]
    rfl
  induction h generalizing section_ fuel with
  | nil h =>
    have hread := readAttribute_of_encodes (by decide) (by decide) h hholds hsize
    have hlast := hround hread hsize
    rw [if_pos ⟨rfl, rfl⟩] at hlast
    cases fuel with
    | zero => contradiction
    | succ fuel => apply loop_leave _ hlast
  | @cons attr attributes bytes rest h hrest ih =>
    rw [List.forall_mem_cons] at hname hform hterminator
    rw [Env.holds_append] at hholds
    have hread := readAttribute_of_encodes hname.1 hform.1 h hholds.1 hsize
    have hmore := hround hread hsize
    rw [if_neg hterminator.1] at hmore
    rw [List.length_cons] at hfuel
    cases fuel with
    | zero => contradiction
    | succ fuel =>
      rw [loop_continue _ hmore, List.length_append, ← Ptr.add_add]
      apply @ih ⟨section_.data.add bytes.length, section_.size⟩ fuel hname.2 hform.2 hterminator.2
        hholds.2 hsize
      omega

-- What `abbr` says is what the entry says, its piece covers the encoded attributes.
structure DIEAbbreviation.Describes (env : Env) (abbr : DIEAbbreviation)
    (abbreviation : Abbreviation) : Prop where
  code : abbr.code = abbreviation.code
  tag : abbr.tag = abbreviation.tag
  hasChildren : abbr.hasChildren = abbreviation.hasChildren
  attributes : ∃ bytes, Attribute.EncodesAll abbreviation.attributes bytes ∧
    abbr.attributes.Covers env bytes

theorem childrenByte_ne_iff (hasChildren : Bool)
    : decide ((Abbreviation.childrenByte hasChildren).toNat ≠ DW_CHILDREN_no) = hasChildren := by
  cases hasChildren <;> rfl

theorem readAbbreviation_of_encodes {abbreviation : Abbreviation} {bytes : List UInt8}
    {section_ : StringPiece} (abbr : DIEAbbreviation) (h : abbreviation.Encodes bytes)
    (hholds : env.Holds section_.data bytes) (hsize : 1 < section_.size)
    : ∃ abbr', (readAbbreviation env section_ abbr).result
        = .ok (true, abbr', ⟨section_.data.add bytes.length, section_.size⟩) ∧
        abbr'.Describes env abbreviation := by
  cases h with
  | @mk code tag attributes hcode htag hattributes =>
    rw [Env.holds_append, Env.holds_append] at hholds
    have ⟨hholdsCode, hholdsTag, hholdsChildren, hholdsAttributes⟩ := hholds
    let p := (section_.data.add code.length).add tag.length
    have hreadCode := readULEB_of_encodesLeb abbreviation.code_lt hcode hholdsCode hsize
    have hreadTag := @readULEB_of_encodesLeb env _ _ ⟨section_.data.add code.length, section_.size⟩
      abbreviation.tag_lt htag hholdsTag hsize
    have hreadChildren : (read env 1 ⟨p, section_.size⟩).result
        = .ok ((Abbreviation.childrenByte abbreviation.hasChildren).toNat,
            ⟨p.add 1, section_.size⟩) := by
      rw [readByte_eq_ok]
      exact ⟨by dsimp only; omega, Or.inr hsize, _, ⟨hholdsChildren, trivial⟩, rfl, rfl⟩
    have hfuel : abbreviation.attributes.length < rounds env ⟨p.add 1, section_.size⟩ := by
      have hlt := hattributes.lt_length
      have hend := hholdsAttributes.end_le (by
        intro hnil
        rw [hnil] at hlt
        contradiction)
      simp only [Ptr.block_add] at hend
      simp only [rounds, p, Ptr.block_add]
      omega
    have hskip := @loop_skipAttributesRound env _ _ ⟨p.add 1, section_.size⟩ _
      abbreviation.name_lt abbreviation.form_lt abbreviation.not_terminator hattributes
      hholdsAttributes hsize hfuel
    have hassign : StringPiece.assign (p.add 1) ((p.add 1).add attributes.length)
        = ⟨p.add 1, attributes.length⟩ := by
      rw [StringPiece.assign, StringPiece.distance_add _ hholdsAttributes.length_lt]
    have hlast : (p.add 1).add attributes.length = section_.data.add (code ++ (tag ++
        (Abbreviation.childrenByte abbreviation.hasChildren :: attributes))).length := by
      simp only [p, Ptr.add_add, List.length_append, List.length_cons]
      congr 1
      omega
    refine ⟨⟨abbreviation.code, abbreviation.tag, abbreviation.hasChildren,
      ⟨p.add 1, attributes.length⟩⟩, ?_, rfl, rfl, rfl, attributes, hattributes,
      hholdsAttributes, rfl⟩
    unfold readAbbreviation
    rw [result_bind_of_ok hreadCode]
    dsimp only
    rw [if_neg abbreviation.code_ne_zero, result_bind_of_ok hreadTag]
    dsimp only
    rw [result_bind_of_ok hreadChildren]
    dsimp only
    rw [result_bind_of_ok hskip]
    dsimp only
    rw [result_pure, hassign, childrenByte_ne_iff, hlast]

theorem getAbbreviationRound_of_encodes {abbreviation : Abbreviation} {bytes : List UInt8}
    {section_ : StringPiece} (code : Nat) (abbr : DIEAbbreviation) (h : abbreviation.Encodes bytes)
    (hholds : env.Holds section_.data bytes) (hsize : 1 < section_.size)
    : ∃ abbr', abbr'.Describes env abbreviation ∧
        (getAbbreviationRound env code (abbr, section_)).result = .ok (
          if abbreviation.code = code then
            .inr abbr'
          else
            .inl (abbr', ⟨section_.data.add bytes.length, section_.size⟩)) := by
  have ⟨abbr', hread, hdescribes⟩ := readAbbreviation_of_encodes abbr h hholds hsize
  apply Exists.intro abbr'
  apply And.intro hdescribes
  unfold getAbbreviationRound
  rw [result_bind_of_ok hread, ← hdescribes.code]
  rfl

theorem Abbreviation.Encodes.one_lt {abbreviation : Abbreviation} {bytes : List UInt8}
    (h : abbreviation.Encodes bytes) : 1 < bytes.length := by
  cases h with
  | mk hcode htag hattributes =>
    have := EncodesLeb.length_pos hcode
    have := EncodesLeb.length_pos htag
    rw [List.length_append, List.length_append]
    omega

theorem loop_getAbbreviationRound {abbreviations : List Abbreviation} {bytes : List UInt8}
    {section_ : StringPiece} {code fuel : Nat} (abbr : DIEAbbreviation)
    (h : Abbreviation.EncodesAll abbreviations bytes) (hholds : env.Holds section_.data bytes)
    (hsize : 1 < section_.size) (hcode : ∃ abbreviation ∈ abbreviations, abbreviation.code = code)
    (hfuel : bytes.length ≤ fuel)
    : ∃ abbreviation abbr', abbreviations.find? (fun entry => entry.code = code) = some abbreviation ∧
        (loop .stuck (getAbbreviationRound env code) fuel (abbr, section_)).result = .ok abbr' ∧
        abbr'.Describes env abbreviation := by
  induction h generalizing section_ fuel abbr with
  | nil h =>
    have ⟨_, hmem, _⟩ := hcode
    contradiction
  | @cons first abbreviations bytes rest h hrest ih =>
    rw [Env.holds_append] at hholds
    have ⟨abbr', hdescribes, hround⟩ := getAbbreviationRound_of_encodes code abbr h hholds.1 hsize
    have hpos := h.one_lt
    rw [List.length_append] at hfuel
    cases fuel with
    | zero => omega
    | succ fuel =>
      by_cases hfirst : first.code = code
      . rw [if_pos hfirst] at hround
        refine ⟨first, abbr', ?_, loop_leave _ hround, hdescribes⟩
        simp [hfirst]
      . rw [if_neg hfirst] at hround
        have hcode : ∃ abbreviation ∈ abbreviations, abbreviation.code = code := by
          have ⟨abbreviation, hmem, heq⟩ := hcode
          rw [List.mem_cons] at hmem
          cases hmem with
          | inl hhead =>
            rw [hhead] at heq
            contradiction
          | inr htail => exact ⟨abbreviation, htail, heq⟩
        have ⟨abbreviation, abbr'', hfind, hloop, hdescribes⟩ :=
          @ih ⟨section_.data.add bytes.length, section_.size⟩ fuel abbr' hholds.2 hsize hcode
            (by omega)
        refine ⟨abbreviation, abbr'', ?_, ?_, hdescribes⟩
        . rw [List.find?_cons_of_neg (by simpa using hfirst), hfind]
        . rw [loop_continue _ hround, hloop]

theorem readAttributes_of_describes {abbr : DIEAbbreviation} {abbreviation : Abbreviation}
    (h : abbr.Describes env abbreviation)
    : ∃ s, s.data = abbr.attributes.stop ∧
        (readAttributes env (abbreviation.attributes.length + 1) abbr.attributes).result
          = .ok (abbreviation.attributes ++ [terminator], s) := by
  have ⟨bytes, hencodes, hcovers⟩ := h.attributes
  have hlt := hencodes.lt_length
  have hsize : 1 < abbr.attributes.size := by
    rw [hcovers.size]
    omega
  have hread := readAttributes_of_encodesAll abbreviation.name_lt abbreviation.form_lt hencodes
    hcovers.holds hsize
  rw [← hcovers.size] at hread
  exact ⟨_, rfl, hread⟩

theorem getAbbreviation_firstEntry {abbreviations : List Abbreviation}
    {before bytes after : List UInt8} {code : Nat}
    (hencodes : Abbreviation.EncodesAll abbreviations bytes)
    (hcontent : (env.mapping .debugAbbrev).content = before ++ bytes ++ after)
    (hcode : ∃ abbreviation ∈ abbreviations, abbreviation.code = code)
    : ∃ abbreviation abbr s,
        abbreviations.find? (fun entry => entry.code = code) = some abbreviation ∧
        (getAbbreviation env code before.length).result = .ok abbr ∧
        abbr.code = code ∧
        abbr.tag = abbreviation.tag ∧
        abbr.hasChildren = abbreviation.hasChildren ∧
        (readAttributes env (abbreviation.attributes.length + 1) abbr.attributes).result
          = .ok (abbreviation.attributes ++ [terminator], s) ∧
        s.data = abbr.attributes.stop := by
  have hlength : 1 < bytes.length := by
    cases hencodes with
    | nil h =>
      obtain ⟨_, hmem, _⟩ := hcode
      contradiction
    | cons h hrest =>
      have := h.one_lt
      rw [List.length_append]
      omega
  have hmapped : env.mapped .debugAbbrev
      = before ++ bytes ++ (after ++ (env.mapping .debugAbbrev).behind) := by
    rw [Env.mapped, hcontent, List.append_assoc]
  have hholds := Env.holds_of_mapped hmapped
  have hend := hholds.end_le (by
    intro hnil
    rw [hnil] at hlength
    contradiction)
  have hsize : before.length + bytes.length ≤ (debugSection env .debugAbbrev).size := by
    simp [debugSection, hcontent]
  have hadvance : ((debugSection env .debugAbbrev).advance env before.length).result
      = .ok ⟨⟨.debugAbbrev, before.length⟩, (debugSection env .debugAbbrev).size⟩ := by
    rw [StringPiece.advance_eq_ok]
    apply And.intro (Or.inr (by omega))
    simp [debugSection, Ptr.add]
  have hfuel : bytes.length
      ≤ rounds env ⟨⟨.debugAbbrev, before.length⟩, (debugSection env .debugAbbrev).size⟩ := by
    unfold rounds
    dsimp only at hend ⊢
    omega
  obtain ⟨abbreviation, abbr, hfind, hloop, hdescribes⟩ := @loop_getAbbreviationRound env _ _
    ⟨⟨.debugAbbrev, before.length⟩, (debugSection env .debugAbbrev).size⟩ code _
    ⟨env.uninitialized, env.uninitialized, env.uninitialized ≠ 0, .null⟩
    hencodes hholds (by dsimp only; omega) hcode hfuel
  obtain ⟨s, hstop, hread⟩ := readAttributes_of_describes hdescribes
  have hfound : abbreviation.code = code := by
    have := List.find?_some hfind
    simpa using this
  refine ⟨abbreviation, abbr, s, hfind, ?_, ?_, hdescribes.tag, hdescribes.hasChildren, hread, hstop⟩
  . unfold getAbbreviation
    rw [result_bind_of_ok hadvance]
    apply hloop
  . rw [hdescribes.code, hfound]

theorem encodesLeb_byte {n : Nat} (h : n < 128) : EncodesLeb n [UInt8.ofNat n] := by
  have hbyte : (UInt8.ofNat n).toNat = n := UInt8.toNat_ofNat_of_lt' (Nat.lt_trans h (by decide))
  refine ⟨⟨IsLeb.last ?_, by simp⟩, ?_⟩
  . omega
  . simp only [unsigned, hbyte]
    omega

def unitEntry : Abbreviation :=
  ⟨1, DW_TAG_compile_unit, true, [⟨DW_AT_name, DW_FORM_string⟩], by decide, by decide, by decide,
    by decide, by decide, by decide⟩

def subprogramEntry : Abbreviation :=
  ⟨2, 0x2e, false, [], by decide, by decide, by decide, by decide, by decide, by decide⟩

theorem encodesAll_unitAndSubprogram
    : Abbreviation.EncodesAll [unitEntry, subprogramEntry]
        [1, 0x11, 1, 3, 8, 0, 0, 2, 0x2e, 0, 0, 0, 0] := by
  have hterminator : terminator.Encodes [0, 0] :=
    .mk (encodesLeb_byte (by decide)) (encodesLeb_byte (by decide))
  have hname : (⟨DW_AT_name, DW_FORM_string⟩ : Attribute).Encodes [3, 8] :=
    .mk (encodesLeb_byte (by decide)) (encodesLeb_byte (by decide))
  have hunit : unitEntry.Encodes [1, 0x11, 1, 3, 8, 0, 0] :=
    .mk (encodesLeb_byte (by decide)) (encodesLeb_byte (by decide)) (.cons hname (.nil hterminator))
  have hsubprogram : subprogramEntry.Encodes [2, 0x2e, 0, 0, 0] :=
    .mk (encodesLeb_byte (by decide)) (encodesLeb_byte (by decide)) (.nil hterminator)
  exact .cons hunit (.cons hsubprogram (.nil (encodesLeb_byte (by decide))))

theorem getAbbreviation_unitAndSubprogram
    : let env := Env.ofSection .debugAbbrev ([7] ++ [1, 0x11, 1, 3, 8, 0, 0, 2, 0x2e, 0, 0, 0, 0] ++ [9])
        (by decide)
      ∃ abbreviation abbr s,
        [unitEntry, subprogramEntry].find? (fun entry => entry.code = 2) = some abbreviation ∧
        (getAbbreviation env 2 1).result = .ok abbr ∧
        abbr.code = 2 ∧
        abbr.tag = abbreviation.tag ∧
        abbr.hasChildren = abbreviation.hasChildren ∧
        (readAttributes env (abbreviation.attributes.length + 1) abbr.attributes).result
          = .ok (abbreviation.attributes ++ [terminator], s) ∧
        s.data = abbr.attributes.stop := by
  intro env
  have hcontent : (env.mapping .debugAbbrev).content
      = [7] ++ [1, 0x11, 1, 3, 8, 0, 0, 2, 0x2e, 0, 0, 0, 0] ++ [9] := rfl
  have hcode : ∃ abbreviation ∈ [unitEntry, subprogramEntry], abbreviation.code = 2 := by
    simp [unitEntry, subprogramEntry]
  exact getAbbreviation_firstEntry encodesAll_unitAndSubprogram hcontent hcode

end Dwarf
end Claire
