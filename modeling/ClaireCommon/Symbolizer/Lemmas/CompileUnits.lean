import ClaireCommon.Symbolizer.CompileUnits
import ClaireCommon.Symbolizer.Lemmas.Abbreviations
import ClaireCommon.Symbolizer.Lemmas.AddressRanges
import ClaireCommon.Symbolizer.Lemmas.AttributeValue

/-!
This module contains that the reader finds the attributes of a compilation unit with their values.
-/

namespace Claire
namespace Dwarf

open Bytes Traced

variable {env : Env} {is64Bits : Bool}

-- `rest` is what is left of `s`. Its end does not come closer, the size of `s` covers what is behind it.
def KeepsEnd {α : Type} (s : StringPiece) (rest : α → StringPiece) (x : Reader α) : Prop :=
  ∀ a, x.result = .ok a → (rest a).size ≤ s.size
    ∧ s.data.offset + s.size ≤ (rest a).data.offset + (rest a).size

section

variable {α β : Type} {s : StringPiece} {rest : α → StringPiece} {rest' : β → StringPiece}

theorem KeepsEnd.bind {x : Reader α} {f : α → Reader β} (h : KeepsEnd s rest x)
    (hf : ∀ a b, (f a).result = .ok b → rest' b = rest a) : KeepsEnd s rest' (x >>= f) := by
  intro b hb
  have ⟨a, ha, hb⟩ := bind_eq_ok.mp hb
  rw [hf a b hb]
  exact h a ha

theorem keepsEnd_read (n : Nat) (s : StringPiece) : KeepsEnd s Prod.snd (read env n s) := by
  intro (value, s') h
  have ⟨_, _, _, _, _, _, hs⟩ := read_eq_ok.mp h
  rw [hs]
  dsimp only [Ptr.offset_add]
  omega

theorem keepsEnd_readULEB (s : StringPiece) : KeepsEnd s Prod.snd (readULEB env s) := by
  intro (value, s') h
  have ⟨_, _, _, _, _, _, hs⟩ := readULEB_eq_ok.mp h
  rw [hs]
  dsimp only [Ptr.offset_add]
  omega

theorem keepsEnd_readSLEB (s : StringPiece) : KeepsEnd s Prod.snd (readSLEB env s) := by
  have hfull : KeepsEnd s (fun result : Nat × ULEB => result.2.s) (readULEBFull env s) := by
    intro (value, u) h
    have ⟨_, _, _, _, _, _, hu⟩ := readULEBFull_eq_ok.mp h
    rw [hu]
    dsimp only [Ptr.offset_add]
    omega
  apply hfull.bind
  intro (_, u) b hb
  injection hb with hb
  rw [← hb]

theorem keepsEnd_readNullTerminated (hsize : s.size < 2 ^ 64)
    : KeepsEnd s Prod.snd (readNullTerminated env s) := by
  intro (ret, s') h
  have ⟨_, _, hlen, _, hs⟩ := (readNullTerminated_eq_ok hsize).mp h
  rw [hs]
  dsimp only [Ptr.offset_add]
  omega

theorem keepsEnd_readLayout (hsize : s.size < 2 ^ 64) {layout : Layout} (hblock : layout.isBlock = false)
    : KeepsEnd s Prod.snd (readLayout env s layout) := by
  have hpure (val : AttributeValue) (s' : StringPiece) (b : AttributeValue × StringPiece)
      (hb : (pure (val, s') : Reader (AttributeValue × StringPiece)).result = .ok b) : b.2 = s' := by
    injection hb with hb
    rw [← hb]
  cases layout with
  | number width => exact (keepsEnd_read width s).bind fun _ _ hb => hpure _ _ _ hb
  | block | lebBlock => contradiction
  | unsigned => exact (keepsEnd_readULEB s).bind fun _ _ hb => hpure _ _ _ hb
  | signed => exact (keepsEnd_readSLEB s).bind fun _ _ hb => hpure _ _ _ hb
  | present =>
    intro b hb
    rw [hpure _ _ _ hb]
    omega
  | text => exact (keepsEnd_readNullTerminated hsize).bind fun _ _ hb => hpure _ _ _ hb
  | textOffset width =>
    apply (keepsEnd_read width s).bind
    intro a b hb
    have ⟨_, _, hb⟩ := bind_eq_ok.mp hb
    exact hpure _ _ _ hb

end

theorem readAttributeValue_of_encodes {form : Form} {value : Value} {bytes : List UInt8} {s : StringPiece}
    (h : form.Encodes env is64Bits value bytes) (hblock : form.innermost.isBlock = false)
    (hbytes : env.Holds s.data bytes) (hlen : bytes.length < s.size) (hsize : s.size < 2 ^ 64)
    : ∃ val s', (readAttributeValue env s form.code is64Bits).result = .ok (val, s')
        ∧ val.Represents env value ∧ s'.data = s.data.add bytes.length
        ∧ s'.size ≤ s.size ∧ s.size ≤ bytes.length + s'.size := by
  have hfuel : bytes.length < rounds env s := by
    unfold rounds
    by_cases hnil : bytes = []
    . simp [hnil]
    . have := hbytes.end_le hnil
      omega
  have ⟨skipped, rest, heq, hencodes, hloop⟩ := loop_readAttributeValueRound h hbytes hlen hfuel
  have hblock := (form.innermost.isBlock_layout is64Bits).trans hblock
  rw [heq] at hbytes
  have hlength : bytes.length = skipped.length + rest.length := by rw [heq, List.length_append]
  have ⟨val, s', hval, hrepresents, hdata⟩ := readLayout_of_encodes
    (s := ⟨s.data.add skipped.length, s.size⟩) hencodes hblock (fun _ => DirectForm.width_le)
    (Env.holds_append.mp hbytes).2 (by dsimp only; omega) hsize
  have hend := keepsEnd_readLayout (s := ⟨s.data.add skipped.length, s.size⟩) hsize hblock _ hval
  refine ⟨val, s', hloop.trans hval, hrepresents, ?_, ?_⟩
  . rw [hdata, Ptr.add_add, hlength]
  . rw [hdata] at hend
    simp only [Ptr.offset_add] at hend
    omega

theorem UnitAttribute.find_concat (name : Nat) (attributes : List UnitAttribute) (attr : UnitAttribute)
    : find name (attributes ++ [attr])
        = if attr.name = name then some attr.value else find name attributes := by
  unfold find
  rw [List.reverse_append, List.reverse_singleton, List.singleton_append, List.find?_cons]
  split
  . next h => rw [if_pos (of_decide_eq_true h), Option.map_some]
  . next h => rw [if_neg (of_decide_eq_false h)]

theorem UnitAttribute.findText_concat_of_ne {name : Nat} (attributes : List UnitAttribute)
    {attr : UnitAttribute} (h : attr.name ≠ name)
    : findText name (attributes ++ [attr]) = findText name attributes := by
  unfold findText
  rw [find_concat, if_neg h]

theorem UnitAttribute.findText_concat_of_eq {name : Nat} (attributes : List UnitAttribute)
    {attr : UnitAttribute} {bytes : List UInt8} (h : attr.name = name) (hvalue : attr.value = .bytes bytes)
    : findText name (attributes ++ [attr]) = bytes := by
  unfold findText
  rw [find_concat, if_pos h, hvalue]

structure UnitAttributes.Describes (env : Env) (unit : UnitAttributes) (attributes : List UnitAttribute)
    : Prop where
  line : ∀ n, UnitAttribute.find DW_AT_stmt_list attributes = some (.number n) →
    unit.foundLineOffset = true ∧ (unit.lineOffset : Int) = n % 2 ^ 64
  noLine : UnitAttribute.find DW_AT_stmt_list attributes = none → unit.foundLineOffset = false
  compilationDirectory : unit.compilationDirectory.Covers env
    (UnitAttribute.findText DW_AT_comp_dir attributes)
  mainFileName : unit.mainFileName.Covers env (UnitAttribute.findText DW_AT_name attributes)

theorem describes_nil : (⟨false, 0, .null, .null⟩ : UnitAttributes).Describes env [] where
  line := by
    intro n h
    contradiction
  noLine _ := rfl
  compilationDirectory := ⟨trivial, rfl⟩
  mainFileName := ⟨trivial, rfl⟩

variable {unit : UnitAttributes} {done : List UnitAttribute}

theorem getUint64_of_represents {val : AttributeValue} {n : Int} (h : val.Represents env (.number n))
    : ∃ value, (getUint64 val).result = .ok value ∧ (value : Int) = n % 2 ^ 64 := by
  cases h with
  | uint64 h => exact ⟨_, rfl, h⟩

theorem getStringPiece_of_represents {val : AttributeValue} {bytes : List UInt8}
    (h : val.Represents env (.bytes bytes))
    : ∃ s, (getStringPiece val).result = .ok s ∧ s.Covers env bytes := by
  cases h with
  | stringPiece h => exact ⟨_, rfl, h⟩

theorem UnitAttributes.Describes.note (h : unit.Describes env done) (attr : UnitAttribute)
    {val : AttributeValue} (hval : val.Represents env attr.value)
    : ∃ unit', (noteAttribute unit attr.name val).result = .ok unit'
        ∧ unit'.Describes env (done ++ [attr]) := by
  unfold noteAttribute
  by_cases hline : attr.name = DW_AT_stmt_list
  . have ⟨n, hn⟩ := attr.number_of_line hline
    rw [hn] at hval
    have ⟨value, hget, hvalue⟩ := getUint64_of_represents hval
    rw [if_pos hline, result_bind_of_ok hget]
    refine ⟨_, rfl, ?_, ?_, ?_, ?_⟩
    . intro m hm
      rw [UnitAttribute.find_concat, if_pos hline, hn] at hm
      injection hm with hm
      injection hm with hm
      rw [← hm]
      exact ⟨rfl, hvalue⟩
    . intro hnone
      rw [UnitAttribute.find_concat, if_pos hline] at hnone
      contradiction
    . rw [UnitAttribute.findText_concat_of_ne done (by rw [hline]; decide)]
      exact h.compilationDirectory
    . rw [UnitAttribute.findText_concat_of_ne done (by rw [hline]; decide)]
      exact h.mainFileName
  have hfind : UnitAttribute.find DW_AT_stmt_list (done ++ [attr])
      = UnitAttribute.find DW_AT_stmt_list done := by
    rw [UnitAttribute.find_concat, if_neg hline]
  rw [if_neg hline]
  by_cases hdir : attr.name = DW_AT_comp_dir
  . have ⟨bytes, hbytes⟩ := attr.bytes_of_text (Or.inl hdir)
    rw [hbytes] at hval
    have ⟨s, hget, hs⟩ := getStringPiece_of_represents hval
    rw [if_pos hdir, result_bind_of_ok hget]
    refine ⟨_, rfl, hfind ▸ h.line, hfind ▸ h.noLine, ?_, ?_⟩
    . rw [UnitAttribute.findText_concat_of_eq done hdir hbytes]
      exact hs
    . rw [UnitAttribute.findText_concat_of_ne done (by rw [hdir]; decide)]
      exact h.mainFileName
  rw [if_neg hdir]
  by_cases hname : attr.name = DW_AT_name
  . have ⟨bytes, hbytes⟩ := attr.bytes_of_text (Or.inr hname)
    rw [hbytes] at hval
    have ⟨s, hget, hs⟩ := getStringPiece_of_represents hval
    rw [if_pos hname, result_bind_of_ok hget]
    refine ⟨_, rfl, hfind ▸ h.line, hfind ▸ h.noLine, ?_, ?_⟩
    . rw [UnitAttribute.findText_concat_of_ne done hdir]
      exact h.compilationDirectory
    . rw [UnitAttribute.findText_concat_of_eq done hname hbytes]
      exact hs
  . rw [if_neg hname]
    refine ⟨unit, rfl, hfind ▸ h.line, hfind ▸ h.noLine, ?_, ?_⟩
    . rw [UnitAttribute.findText_concat_of_ne done hdir]
      exact h.compilationDirectory
    . rw [UnitAttribute.findText_concat_of_ne done hname]
      exact h.mainFileName

theorem loop_readAttributesRound {attributes : List UnitAttribute} {entries values : List UInt8}
    {s chunk : StringPiece} {fuel : Nat} {unit : UnitAttributes} {done : List UnitAttribute}
    (hname : ∀ entry ∈ attributes.map UnitAttribute.entry, entry.name < 2 ^ 64)
    (hform : ∀ entry ∈ attributes.map UnitAttribute.entry, entry.form < 2 ^ 64)
    (hterminator : ∀ entry ∈ attributes.map UnitAttribute.entry, ¬(entry.name = 0 ∧ entry.form = 0))
    (hentries : Attribute.EncodesAll (attributes.map UnitAttribute.entry) entries)
    (hholds : env.Holds s.data entries) (hsize : 1 < s.size)
    (hvalues : UnitAttribute.EncodesAll env is64Bits attributes values)
    (hchunk : env.Holds chunk.data values) (hroom : values.length < chunk.size)
    (hlt : chunk.size < 2 ^ 64) (hfuel : attributes.length < fuel) (hdone : unit.Describes env done)
    : ∃ unit', (loop .stuck (readAttributesRound env is64Bits) fuel (s, chunk, unit)).result = .ok unit'
        ∧ unit'.Describes env (done ++ attributes) := by
  induction hvalues generalizing entries s chunk fuel unit done with
  | nil =>
    cases hentries with
    | nil h =>
      have hread := readAttribute_of_encodes (by decide) (by decide) h hholds hsize
      have hround : (readAttributesRound env is64Bits (s, chunk, unit)).result = .ok (.inr unit) := by
        unfold readAttributesRound
        dsimp only
        rw [result_bind_of_ok hread]
        rfl
      cases fuel with
      | zero => contradiction
      | succ fuel =>
        refine ⟨unit, loop_leave _ hround, ?_⟩
        rw [List.append_nil]
        exact hdone
  | @cons attr attributes bytes rest h hrest ih =>
    cases hentries with
    | @cons _ _ entry entries hentry hentries =>
      rw [List.map_cons, List.forall_mem_cons] at hname hform hterminator
      rw [Env.holds_append] at hholds hchunk
      rw [List.length_append] at hroom
      have hread := readAttribute_of_encodes hname.1 hform.1 hentry hholds.1 hsize
      have ⟨val, chunk', hval, hrepresents, hdata, hsizeLe, hsizeGe⟩ := readAttributeValue_of_encodes h
        attr.not_block hchunk.1 (by omega) hlt
      have ⟨unit', hnote, hdescribes⟩ := hdone.note attr hrepresents
      have hround : (readAttributesRound env is64Bits (s, chunk, unit)).result
          = .ok (.inl (⟨s.data.add entry.length, s.size⟩, chunk', unit')) := by
        unfold readAttributesRound
        dsimp only
        rw [result_bind_of_ok hread]
        dsimp only
        rw [if_neg hterminator.1]
        dsimp only [UnitAttribute.entry]
        rw [result_bind_of_ok hval]
        dsimp only
        rw [result_bind_of_ok hnote]
        rfl
      rw [List.length_cons] at hfuel
      cases fuel with
      | zero => contradiction
      | succ fuel =>
        rw [loop_continue _ hround, List.append_cons]
        exact ih hname.2 hform.2 hterminator.2 hentries hholds.2 hsize (hdata ▸ hchunk.2) (by omega)
          (by omega) (by omega) hdescribes

section

variable {block : Block} {offset : Nat} {bytes : List UInt8}

theorem SectionHas.holds (h : SectionHas env block offset bytes) : env.Holds ⟨block, offset⟩ bytes := by
  have ⟨before, after, hcontent, hlength⟩ := h
  have hmapped : env.mapped block = before ++ bytes ++ (after ++ (env.mapping block).behind) := by
    rw [Env.mapped, hcontent, List.append_assoc]
  rw [← hlength]
  exact Env.holds_of_mapped hmapped

theorem SectionHas.le_size (h : SectionHas env block offset bytes)
    : offset + bytes.length ≤ (debugSection env block).size := by
  have ⟨before, after, hcontent, hlength⟩ := h
  simp only [debugSection, hcontent, List.length_append, hlength]
  omega

theorem SectionHas.advance (h : SectionHas env block offset bytes) (hpos : 0 < bytes.length)
    : ((debugSection env block).advance env offset).result
        = .ok ⟨⟨block, offset⟩, (debugSection env block).size⟩ := by
  have hle := h.le_size
  rw [StringPiece.advance_eq_ok]
  refine ⟨Or.inr (by omega), ?_⟩
  simp [debugSection, Ptr.add]

theorem SectionHas.length_lt_rounds (h : SectionHas env block offset bytes) (size : Nat)
    : bytes.length < rounds env ⟨⟨block, offset⟩, size⟩ := by
  have hle := h.le_size
  simp only [debugSection] at hle
  simp only [rounds, Env.mapped, List.length_append]
  omega

end

theorem Abbreviation.EncodesAll.one_lt {abbreviations : List Abbreviation} {bytes : List UInt8}
    (h : EncodesAll abbreviations bytes) (hne : abbreviations ≠ []) : 1 < bytes.length := by
  cases h with
  | nil => contradiction
  | cons h hrest =>
    have := h.one_lt
    rw [List.length_append]
    omega

theorem getAbbreviation_of_sectionHas {abbreviations : List Abbreviation} {bytes : List UInt8}
    {code offset : Nat} {entry : Abbreviation} (h : Abbreviation.EncodesAll abbreviations bytes)
    (hhas : SectionHas env .debugAbbrev offset bytes)
    (hfind : abbreviations.find? (fun entry => entry.code = code) = some entry)
    : ∃ abbr, (getAbbreviation env code offset).result = .ok abbr ∧ abbr.Describes env entry := by
  have hmem := List.mem_of_find?_eq_some hfind
  have hcode := List.find?_some hfind
  have hlength := h.one_lt (List.ne_nil_of_mem hmem)
  have hle := hhas.le_size
  have hfuel := hhas.length_lt_rounds (debugSection env .debugAbbrev).size
  have ⟨entry', abbr, hfind', hloop, hdescribes⟩ := @loop_getAbbreviationRound env _ _
    ⟨⟨.debugAbbrev, offset⟩, (debugSection env .debugAbbrev).size⟩ code _
    ⟨env.uninitialized, env.uninitialized, env.uninitialized ≠ 0, .null⟩ h hhas.holds
    (by dsimp only; omega) ⟨entry, hmem, of_decide_eq_true hcode⟩ (Nat.le_of_lt hfuel)
  rw [hfind] at hfind'
  injection hfind' with hfind'
  refine ⟨abbr, ?_, hfind' ▸ hdescribes⟩
  unfold getAbbreviation
  rw [result_bind_of_ok (hhas.advance (by omega))]
  exact hloop

theorem CompileUnit.length_header (unit : CompileUnit)
    : unit.header.length = 3 + offsetSize unit.is64Bits := by
  simp [header]
  omega

theorem readUnit_of_unitAt {offset : Nat} {unit : CompileUnit} (h : UnitAt env offset unit)
    : ∃ attributes, (readUnit env offset).result = .ok attributes
        ∧ attributes.Describes env unit.attributes := by
  have ⟨bytes, hencodes, hhas⟩ := h.info
  have ⟨abbreviations, table, entry, htable, hhasTable, hfind, htag, hattributes⟩ := h.abbreviation
  have ⟨abbr, habbr, hdescribes⟩ := getAbbreviation_of_sectionHas htable hhasTable hfind
  cases hencodes with
  | @mk code values children hcode hvalues hlt =>
    have hlength : (unit.header ++ (code ++ (values ++ children))).length
        = 3 + offsetSize unit.is64Bits + (code.length + (values.length + children.length)) := by
      simp only [List.length_append, CompileUnit.length_header]
    have hle := hhas.le_size
    have hholds := hhas.holds
    have hcodePos := EncodesLeb.length_pos hcode
    rw [List.length_append, AddressRangeSet.length_initialLength] at hle
    generalize hunitLength : (unit.header ++ (code ++ (values ++ children))).length = unitLength at *
    generalize hw : (initialLength unit.is64Bits unitLength).length = w at *
    rw [Env.holds_append, hw] at hholds
    have hoffsetSize : 4 ≤ offsetSize unit.is64Bits ∧ offsetSize unit.is64Bits ≤ 8 := by
      unfold offsetSize
      split <;> omega
    have hbytes := hholds.2
    simp only [CompileUnit.header, List.append_assoc, Env.holds_append, length_toLittleEndian, Ptr.add_add]
      at hbytes
    have ⟨hversion, habbrevOffset, haddressSize, hcodeBytes, hvaluesBytes, _⟩ := hbytes
    have hallows : ∀ width, width ≤ (if unit.is64Bits then 8 else 4) →
        width ≤ (debugSection env .debugInfo).size
          ∧ StringPiece.Allows env ⟨⟨.debugInfo, offset⟩, (debugSection env .debugInfo).size⟩ width := by
      intro width hwidth
      have hinitial : 4 ≤ if unit.is64Bits then 12 else 4 := by split <;> omega
      have hwidth : width < (debugSection env .debugInfo).size := by split at hwidth <;> omega
      exact ⟨Nat.le_of_lt hwidth, Or.inr hwidth⟩
    have hnext := @next_of_initialLength env unit.is64Bits false _ _ _ hlt hallows hholds.1
    rw [if_pos (by omega), hw] at hnext
    have hversionRange := unit.version_range
    have hread (width n distance : Nat)
        (hn : env.Holds (Ptr.add ⟨.debugInfo, offset⟩ distance) (toLittleEndian width n))
        (hlt : n < 256 ^ width) (hwidth : width < unitLength)
        : (read env width ⟨Ptr.add ⟨.debugInfo, offset⟩ distance, unitLength⟩).result
            = .ok (n, ⟨Ptr.add ⟨.debugInfo, offset⟩ (distance + width), unitLength⟩) := by
      rw [read_toLittleEndian hn hlt hwidth, Ptr.add_add]
    have hversion := hread _ _ _ hversion (by omega) (by omega)
    have habbrevOffset := hread _ _ _ habbrevOffset unit.abbrevOffset_lt (by omega)
    have haddressSize := hread _ _ _ haddressSize (by decide) (by omega)
    have hcode := readULEB_of_encodesLeb (s := ⟨Ptr.add ⟨.debugInfo, offset⟩ _, unitLength⟩) unit.code_lt
      hcode hcodeBytes (by dsimp only; omega)
    rw [Ptr.add_add] at hcode
    have ⟨entries, hentries, hcovers⟩ := hdescribes.attributes
    rw [hattributes] at hentries
    have hentriesLength := hentries.lt_length
    have hfuel : unit.attributes.length < rounds env abbr.attributes := by
      have hend := hcovers.holds.end_le (by intro hnil; simp [hnil] at hentriesLength)
      rw [List.length_map] at hentriesLength
      unfold rounds
      omega
    have ⟨attributes, hloop, hunit⟩ := @loop_readAttributesRound env unit.is64Bits unit.attributes _ _
      abbr.attributes ⟨Ptr.add ⟨.debugInfo, offset⟩ _, unitLength⟩ _ _ _
      (hattributes ▸ entry.name_lt) (hattributes ▸ entry.form_lt) (hattributes ▸ entry.not_terminator)
      hentries hcovers.holds (by rw [hcovers.size]; omega) hvalues hvaluesBytes (by dsimp only; omega)
      (by dsimp only; split at hlt <;> omega) hfuel describes_nil
    refine ⟨attributes, ?_, hunit⟩
    unfold readUnit
    rw [result_bind_of_ok (hhas.advance (by rw [List.length_append]; omega))]
    dsimp only [Section.create]
    rw [result_bind_of_ok hnext]
    dsimp only
    rw [result_bind_of_ok hversion]
    dsimp only
    rw [result_bind_of_ok (a := ⟨⟩) (Reader.check_eq_ok.mpr (decide_eq_true hversionRange)), readOffset_eq]
    dsimp only [offsetSize] at *
    rw [result_bind_of_ok habbrevOffset]
    dsimp only
    rw [result_bind_of_ok haddressSize]
    dsimp only
    rw [result_bind_of_ok (a := ⟨⟩) (Reader.check_eq_ok.mpr (decide_eq_true rfl)), result_bind_of_ok hcode]
    dsimp only
    rw [result_bind_of_ok (a := ⟨⟩) (Reader.check_eq_ok.mpr (decide_eq_true unit.code_ne_zero)),
      result_bind_of_ok habbr,
      result_bind_of_ok (a := ⟨⟩) (Reader.check_eq_ok.mpr (decide_eq_true (hdescribes.tag.trans htag)))]
    exact hloop

end Dwarf
end Claire
