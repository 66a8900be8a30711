import ClaireCommon.Symbolizer.Lemmas.Symbols

/-!
This module contains which symbol `ElfFile::GetDefinitionByAddress` finds: the first of the file that
locates the address, with the name that its string table has for it.
-/

namespace Claire

open Bytes Traced

variable {env : Env} {elf : ElfFile} {image : SymbolImage} {p ptr sym : Ptr} {address : Nat}

namespace SymbolEntry.IsAt

variable {entry : SymbolEntry} (h : entry.IsAt env p)

include h

theorem info_eq : (Sym.info env p).result = .ok entry.info := Env.field_of_isField h.info

theorem value_eq : (Sym.value env p).result = .ok entry.value := Env.field_of_isField h.value

theorem size_eq : (Sym.size env p).result = .ok entry.size := Env.field_of_isField h.size

end SymbolEntry.IsAt

namespace ElfFile

open SymbolImage StringTable

variable {i k : Nat} {header : SectionHeader} {entry : SymbolEntry}

-- Where `st_value + st_size` wraps around it is below `st_value`.
theorem isDefinition_eq (h : entry.IsAt env sym)
    : (isDefinition env address sym).result = .ok (decide (entry.Locates address)) := by
  have hvalue : entry.value < 2 ^ 64 := h.value.lt
  have hsize : entry.size < 2 ^ 64 := h.size.lt
  unfold isDefinition
  rw [result_bind_of_ok h.info_eq]
  dsimp only
  split
  . next htype =>
    rw [result_bind_of_ok h.shndx_eq]
    split
    . next hdefined =>
      rw [result_bind_of_ok h.value_eq]
      split
      . next hle =>
        rw [result_bind_of_ok h.size_eq, result_pure]
        congr 1
        rw [decide_eq_decide]
        constructor
        . intro hlt
          exact ⟨htype, hdefined, hle, by omega, by omega⟩
        . intro hlocates
          have := hlocates.lt_end
          have := hlocates.end_lt
          omega
      . next hle =>
        rw [decide_eq_false (fun hlocates => hle hlocates.value_le)]
        rfl
    . next hdefined =>
      rw [decide_eq_false (fun hlocates => hdefined hlocates.defined)]
      rfl
  . next htype =>
    rw [decide_eq_false (fun hlocates => htype hlocates.type)]
    rfl

def symbolAt (elf : ElfFile) (image : SymbolImage) (header : SectionHeader) (i k : Nat) : Symbol :=
  ⟨some (elf.file.add (image.shoff + i * Shdr.sizeof)),
    some (elf.file.add (header.offset + k * Sym.sizeof))⟩

section

variable (h : image.IsImage env elf) (hi : image.sections[i]? = some header)

include h hi

theorem definitionIn_of_isSymbolTable (htype : IsSymbolTable header.type)
    : ∃ body : Ptr → Reader (Option Symbol),
        (definitionIn env elf address (elf.file.add (image.shoff + i * Shdr.sizeof))).result
          = (scan (·.add Sym.sizeof) body (image.tables i).symbols.length (elf.file.add header.offset)).result
        ∧ ∀ k (entry : SymbolEntry), (image.tables i).symbols[k]? = some entry →
          (body ((·.add Sym.sizeof)^[k] (elf.file.add header.offset))).result
            = .ok (if entry.Locates address then some (symbolAt elf image header i k) else none) := by
  have hsection := hasHeader_of_isImage h hi
  have hsymbols := h.hasSymbols i header hi htype
  have hskips : ¬(header.type ≠ SHT_DYNSYM && header.type ≠ SHT_SYMTAB) = true := by
    cases htype with
    | inl htype => simp [htype]
    | inr htype => simp [htype]
  have hroom : header.offset + Sym.sizeof ≤ elf.length := by
    have hbounds := hsymbols.inBounds
    have hle := Nat.mul_le_mul_right Sym.sizeof hsymbols.nonempty
    rw [hsymbols.size] at hbounds
    omega
  have hcount : header.size / (image.tables i).entsize = (image.tables i).symbols.length := by
    rw [hsymbols.size, hsymbols.entsize, Nat.mul_div_cancel _ (by decide)]
  unfold definitionIn findSymbol
  rw [result_bind_of_ok (skipsByAddress_eq hsection), if_neg hskips,
    result_bind_of_ok hsection.isAt.offset_eq, result_bind_of_ok (at_eq hroom h.length_lt),
    result_bind_of_ok hsection.isAt.size_eq, result_bind_of_ok hsection.entsize, hcount,
    if_neg (by rw [hsymbols.entsize]; decide)]
  refine ⟨_, rfl, ?_⟩
  intro k entry hentry
  have hat := hsymbols.symbols k entry hentry
  rw [← Ptr.add_add] at hat
  rw [Ptr.iterate_add, result_bind_of_ok (isDefinition_eq hat), Ptr.add_add]
  unfold symbolAt
  simp only [decide_eq_true_eq]
  rfl

theorem definitionIn_eq_none
    : (definitionIn env elf address (elf.file.add (image.shoff + i * Shdr.sizeof))).result = .ok none
        ↔ ∀ k, ¬image.LocatesAt address i k := by
  by_cases htype : IsSymbolTable header.type
  . have ⟨body, hscan, hbody⟩ := @definitionIn_of_isSymbolTable _ _ _ address _ _ h hi htype
    rw [hscan, scan_eq_none]
    constructor
    . intro hnone k ⟨header', _, _, entry, hentry, hlocates⟩
      have ⟨hlt, _⟩ := List.getElem?_eq_some_iff.mp hentry
      have hk := hnone k hlt
      rw [hbody k entry hentry, if_pos hlocates] at hk
      simp at hk
    . intro hnot k hk
      have hentry := List.getElem?_eq_getElem hk
      rw [hbody k _ hentry, if_neg (fun hlocates => hnot k ⟨header, hi, htype, _, hentry, hlocates⟩)]
  . have hsection := hasHeader_of_isImage h hi
    have hskips : (header.type ≠ SHT_DYNSYM && header.type ≠ SHT_SYMTAB) = true := by
      simpa [IsSymbolTable] using htype
    unfold definitionIn
    rw [result_bind_of_ok (skipsByAddress_eq hsection), if_pos hskips]
    simp only [result_pure, true_iff]
    intro k ⟨header', hi', htype', _⟩
    rw [hi] at hi'
    injection hi' with hheader
    exact htype (hheader ▸ htype')

theorem definitionIn_of_first (hlocates : image.LocatesAt address i k)
    (hfirst : ∀ j < k, ¬image.LocatesAt address i j)
    : (definitionIn env elf address (elf.file.add (image.shoff + i * Shdr.sizeof))).result
        = .ok (some (symbolAt elf image header i k)) := by
  have ⟨header', hi', htype, entry, hentry, hlocates⟩ := hlocates
  rw [hi] at hi'
  injection hi' with hheader
  subst hheader
  have ⟨body, hscan, hbody⟩ := @definitionIn_of_isSymbolTable _ _ _ address _ _ h hi htype
  have ⟨hlt, _⟩ := List.getElem?_eq_some_iff.mp hentry
  rw [hscan, scan_eq_some]
  refine ⟨k, hlt, ?_, by rw [hbody k entry hentry, if_pos hlocates]⟩
  intro j hj
  have hentry' := List.getElem?_eq_getElem (Nat.lt_trans hj hlt)
  rw [hbody j _ hentry', if_neg (fun hlocates => hfirst j hj ⟨header, hi, htype, _, hentry', hlocates⟩)]

end

theorem getDefinitionByAddress_eq (h : image.IsImage env elf)
    : (getDefinitionByAddress env elf address).result
        = ((scan (·.add Shdr.sizeof) (definitionIn env elf address) image.sections.length
            (elf.file.add image.shoff)).result.map fun found => found.getD ⟨none, none⟩) := by
  unfold getDefinitionByAddress findInSections
  rw [result_bind_of_ok (getElfHeader_eq h.toIsImage), result_bind_of_ok (shoff_eq h.toIsImage),
    result_bind_of_ok (at_eq (shoff_end_le h) h.length_lt), result_bind_of_ok (shnum_eq h.toIsImage),
    result_bind]
  cases (scan (·.add Shdr.sizeof) (definitionIn env elf address) image.sections.length
    (elf.file.add image.shoff)).result <;> rfl

theorem getDefinitionByAddress_of_none (h : image.IsImage env elf)
    (hnone : ∀ i k, ¬image.LocatesAt address i k)
    : (getDefinitionByAddress env elf address).result = .ok ⟨none, none⟩ := by
  have hscan : (scan (·.add Shdr.sizeof) (definitionIn env elf address) image.sections.length
      (elf.file.add image.shoff)).result = .ok none := by
    rw [scan_eq_none]
    intro i hi
    rw [Ptr.iterate_add, Ptr.add_add]
    exact (definitionIn_eq_none h (List.getElem?_eq_getElem hi)).mpr (hnone i)
  rw [getDefinitionByAddress_eq h, hscan]
  rfl

theorem getDefinitionByAddress_of_isFirst (h : image.IsImage env elf)
    (hi : image.sections[i]? = some header) (hfirst : image.IsFirstDefinition address i k)
    : (getDefinitionByAddress env elf address).result = .ok (symbolAt elf image header i k) := by
  have ⟨hlt, _⟩ := List.getElem?_eq_some_iff.mp hi
  have hscan : (scan (·.add Shdr.sizeof) (definitionIn env elf address) image.sections.length
      (elf.file.add image.shoff)).result = .ok (some (symbolAt elf image header i k)) := by
    rw [scan_eq_some]
    refine ⟨i, hlt, ?_, ?_⟩
    . intro j hj
      rw [Ptr.iterate_add, Ptr.add_add]
      apply (definitionIn_eq_none h (List.getElem?_eq_getElem (Nat.lt_trans hj hlt))).mpr
      intro k' hlocates
      have := hfirst.first j k' hlocates
      omega
    . rw [Ptr.iterate_add, Ptr.add_add]
      apply definitionIn_of_first h hi hfirst.locates
      intro j hj hlocates
      have := hfirst.first i j hlocates
      omega
  rw [getDefinitionByAddress_eq h, hscan]
  rfl

theorem exists_isFirstDefinition (h : ∃ i k, image.LocatesAt address i k)
    : ∃ i k, image.IsFirstDefinition address i k := by
  classical
  have hinner := Nat.find_spec h
  refine ⟨Nat.find h, Nat.find hinner, Nat.find_spec hinner, ?_⟩
  intro i' k' hlocates
  have hle := Nat.find_min' h ⟨k', hlocates⟩
  rcases Nat.lt_or_eq_of_le hle with hlt | heq
  . exact Or.inl hlt
  . refine Or.inr ⟨heq, ?_⟩
    apply Nat.find_min'
    rw [heq]
    exact hlocates

theorem getSymbolName_symbolAt (h : image.IsImage env elf) (hi : image.sections[i]? = some header)
    (htype : IsSymbolTable header.type) (hentry : (image.tables i).symbols[k]? = some entry)
    : ((entry.name = 0 ∨ (image.tables i).link = SHN_UNDEF) →
          (getSymbolName env elf (symbolAt elf image header i k)).result = .ok none)
        ∧ (entry.name ≠ 0 → (image.tables i).link ≠ SHN_UNDEF → ∀ name : CString,
          HasSymbolName env elf (symbolAt elf image header i k) name
            ↔ IsNameAt (image.strings (image.tables i).link) name entry.name) := by
  have hsection := hasHeader_of_isImage h hi
  have hsymbols := h.hasSymbols i header hi htype
  have hat := hsymbols.symbols k entry hentry
  unfold HasSymbolName getSymbolName symbolAt
  dsimp only
  rw [result_bind_of_ok hat.name_eq]
  constructor
  . intro hunnamed
    split
    . rfl
    . next hne =>
      rw [result_bind_of_ok hsection.link, if_pos (hunnamed.resolve_left hne)]
      rfl
  . intro hne hlink name
    have ⟨stringTable, symName, hindex, hstring, hnamed⟩ :=
      getLinkedString_eq h hsymbols hlink (List.mem_of_getElem? hentry)
    rw [if_neg hne, result_bind_of_ok hsection.link, if_neg hlink, result_bind_of_ok hindex,
      result_bind_of_ok hstring, ← hnamed name]
    simp

structure Defined (env : Env) (elf : ElfFile) (image : SymbolImage) (i k : Nat) (symbol : Symbol)
    : Prop where
  found : ∃ header, image.sections[i]? = some header ∧ symbol = symbolAt elf image header i k
  unnamed : ∀ entry, (image.tables i).symbols[k]? = some entry →
    (entry.name = 0 ∨ (image.tables i).link = SHN_UNDEF) → (getSymbolName env elf symbol).result = .ok none
  named : ∀ entry, (image.tables i).symbols[k]? = some entry → entry.name ≠ 0 →
    (image.tables i).link ≠ SHN_UNDEF → ∀ name : CString, HasSymbolName env elf symbol name
      ↔ IsNameAt (image.strings (image.tables i).link) name entry.name

-- The lookup finds the first entry for the address, and nothing where there is none.
structure FindsDefinition (env : Env) (elf : ElfFile) (image : SymbolImage) (address : Nat) : Prop where
  none_iff : (getDefinitionByAddress env elf address).result = .ok ⟨none, none⟩
    ↔ ∀ i k, ¬image.LocatesAt address i k
  first : ∀ i k, image.IsFirstDefinition address i k →
    ∃ symbol, (getDefinitionByAddress env elf address).result = .ok symbol ∧ Defined env elf image i k symbol

theorem findsDefinition_of_isImage (h : image.IsImage env elf) (address : Nat)
    : FindsDefinition env elf image address := by
  have hfirst {i k : Nat} (hfirst : image.IsFirstDefinition address i k)
      : ∃ header, image.sections[i]? = some header ∧ IsSymbolTable header.type
          ∧ (getDefinitionByAddress env elf address).result = .ok (symbolAt elf image header i k) := by
    have ⟨header, hi, htype, _⟩ := hfirst.locates
    exact ⟨header, hi, htype, getDefinitionByAddress_of_isFirst h hi hfirst⟩
  constructor
  . constructor
    . intro hnone
      by_contra hsome
      push Not at hsome
      have ⟨i, k, hik⟩ := exists_isFirstDefinition hsome
      have ⟨header, _, _, hfound⟩ := hfirst hik
      rw [hnone] at hfound
      simp [symbolAt] at hfound
    . exact getDefinitionByAddress_of_none h
  . intro i k hik
    have ⟨header, hi, htype, hfound⟩ := hfirst hik
    refine ⟨_, hfound, ⟨header, hi, rfl⟩, ?_, ?_⟩
    . intro entry hentry
      exact (getSymbolName_symbolAt h hi htype hentry).1
    . intro entry hentry
      exact (getSymbolName_symbolAt h hi htype hentry).2

theorem findsDefinition_of_isImage_symtab
    : (∃ symbol, (getDefinitionByAddress symtabEnv symtabElf 17).result = .ok symbol
          ∧ HasSymbolName symtabEnv symtabElf symbol functionName)
        ∧ (getDefinitionByAddress symtabEnv symtabElf 20).result = .ok ⟨none, none⟩ := by
  have hsecond {address i k : Nat} (h : symtabImage.LocatesAt address i k)
      : i = 1 ∧ k = 1 ∧ 16 ≤ address ∧ address < 20 := by
    have ⟨header, hi, htype, entry, hentry, hlocates⟩ := h
    match i with
    | 0 | 2 =>
      injection hi with hi
      subst hi
      cases htype <;> contradiction
    | 1 =>
      match k with
      | 0 =>
        injection hentry with hentry
        subst hentry
        exact absurd hlocates.defined (by decide)
      | 1 =>
        injection hentry with hentry
        subst hentry
        exact ⟨rfl, rfl, hlocates.value_le, hlocates.lt_end⟩
      | k + 2 => contradiction
    | i + 3 => contradiction
  have hfirst : symtabImage.IsFirstDefinition 17 1 1 := by
    refine ⟨⟨_, rfl, Or.inr rfl, _, rfl, by decide⟩, ?_⟩
    intro i k h
    have := hsecond h
    omega
  have hfinds := findsDefinition_of_isImage symtabImage_isImage
  constructor
  . have ⟨symbol, hsymbol, hdefined⟩ := (hfinds 17).first 1 1 hfirst
    refine ⟨symbol, hsymbol, ?_⟩
    exact (hdefined.named _ rfl (by decide) (by decide) functionName).mpr ⟨[], rfl⟩
  . apply (hfinds 20).none_iff.mpr
    intro i k h
    have := hsecond h
    omega

end ElfFile
end Claire
