import ClaireCommon.Symbolizer.Lemmas.ElfContent

/-!
This module contains when the lookups of symbols stay inside an ELF file.
-/

namespace Claire
namespace ElfContent

open Traced

variable {env : Env} {block : Block} {α : Type} {n offset : Nat}

section Fields

variable {s : Nat} {f : Nat → Reader α}

theorem inside_stName_bind : Inside env block (Sym.name env ⟨block, s⟩ >>= f)
    ↔ (of env block).InFile 4 s ∧ Inside env block (f ((of env block).stName s)) :=
  inside_field_bind (by decide)

theorem inside_stInfo_bind : Inside env block (Sym.info env ⟨block, s⟩ >>= f)
    ↔ (of env block).InFile 1 (s + 4) ∧ Inside env block (f ((of env block).stInfo s)) :=
  inside_field_bind (by decide)

theorem inside_stShndx_bind : Inside env block (Sym.shndx env ⟨block, s⟩ >>= f)
    ↔ (of env block).InFile 2 (s + 6) ∧ Inside env block (f ((of env block).stShndx s)) :=
  inside_field_bind (by decide)

theorem inside_stValue_bind : Inside env block (Sym.value env ⟨block, s⟩ >>= f)
    ↔ (of env block).InFile 8 (s + 8) ∧ Inside env block (f ((of env block).stValue s)) :=
  inside_field_bind (by decide)

theorem inside_stSize_bind : Inside env block (Sym.size env ⟨block, s⟩ >>= f)
    ↔ (of env block).InFile 8 (s + 16) ∧ Inside env block (f ((of env block).field 8 (s + 16))) :=
  inside_field_bind (by decide)

theorem stName_eq_ok (h : (of env block).InFile 4 s)
    : (Sym.name env ⟨block, s⟩).result = .ok ((of env block).stName s) := field_eq h

theorem stInfo_eq_ok (h : (of env block).InFile 1 (s + 4))
    : (Sym.info env ⟨block, s⟩).result = .ok ((of env block).stInfo s) := field_eq h

theorem stShndx_eq_ok (h : (of env block).InFile 2 (s + 6))
    : (Sym.shndx env ⟨block, s⟩).result = .ok ((of env block).stShndx s) := field_eq h

theorem stValue_eq_ok (h : (of env block).InFile 8 (s + 8))
    : (Sym.value env ⟨block, s⟩).result = .ok ((of env block).stValue s) := field_eq h

theorem stSize_eq_ok (h : (of env block).InFile 8 (s + 16))
    : (Sym.size env ⟨block, s⟩).result = .ok ((of env block).field 8 (s + 16)) := field_eq h

end Fields

variable {s h : Nat} {body : Ptr → Reader (Option α)} {readable stops : Nat → Prop}

-- Where `readable` holds the body stays inside, and it does not go on where it stops.
structure Sound (env : Env) (block : Block) (body : Ptr → Reader (Option α))
    (readable stops : Nat → Prop) : Prop where
  inside : ∀ offset, readable offset → Inside env block (body ⟨block, offset⟩)
  goesOn : ∀ offset, readable offset → (body ⟨block, offset⟩).result = .ok none → ¬stops offset

structure Complete (env : Env) (block : Block) (body : Ptr → Reader (Option α))
    (readable stops : Nat → Prop) : Prop where
  readable : ∀ offset, Inside env block (body ⟨block, offset⟩) → readable offset
  goesOn : ∀ offset, Inside env block (body ⟨block, offset⟩) → ¬stops offset →
    (body ⟨block, offset⟩).result = .ok none

theorem iterate_add {stride i : Nat}
    : (·.add stride)^[i] (⟨block, offset⟩ : Ptr) = ⟨block, offset + i * stride⟩ :=
  Ptr.iterate_add _ _ _

theorem Sound.scan (hbody : Sound env block body readable stops) {stride : Nat}
    (h : ∀ i < n, (∀ j < i, ¬stops (offset + j * stride)) → readable (offset + i * stride))
    : Inside env block (Traced.scan (·.add stride) body n ⟨block, offset⟩) := by
  apply obeys_scan_of _ _ h
  . intro i _ hready
    rw [iterate_add]
    exact hbody.inside _ hready
  . intro i _ hready hnone
    rw [iterate_add] at hnone
    exact hbody.goesOn _ hready hnone

theorem Sound.reached (hbody : Sound env block body readable stops) {stride i : Nat}
    (h : ∀ i < n, (∀ j < i, ¬stops (offset + j * stride)) → readable (offset + i * stride))
    (hi : i ≤ n) (hnone : ∀ j < i, (body ⟨block, offset + j * stride⟩).result = .ok none)
    : ∀ j < i, ¬stops (offset + j * stride) := by
  simp only [← iterate_add] at hnone
  apply not_stops_of_none _ h hi hnone
  intro j _ hready hnone
  rw [iterate_add] at hnone
  exact hbody.goesOn _ hready hnone

theorem Complete.goesOn_iterate (hbody : Complete env block body readable stops) {stride i : Nat}
    (hinside : Inside env block (body ((·.add stride)^[i] ⟨block, offset⟩)))
    (hgoes : ¬stops (offset + i * stride))
    : (body ((·.add stride)^[i] ⟨block, offset⟩)).result = .ok none := by
  rw [iterate_add] at hinside ⊢
  exact hbody.goesOn _ hinside hgoes

theorem Complete.scan (hbody : Complete env block body readable stops) {stride : Nat}
    (h : Inside env block (Traced.scan (·.add stride) body n ⟨block, offset⟩))
    : ∀ i < n, (∀ j < i, ¬stops (offset + j * stride)) → readable (offset + i * stride) := by
  refine ready_of_obeys_scan ?_ (fun i _ hinside hgoes => hbody.goesOn_iterate hinside hgoes) h
  intro i _ hinside
  rw [iterate_add] at hinside
  exact hbody.readable _ hinside

theorem Complete.goesThrough (hbody : Complete env block body readable stops) {stride : Nat}
    (h : Inside env block (Traced.scan (·.add stride) body n ⟨block, offset⟩))
    (hreached : ∀ i < n, ¬stops (offset + i * stride))
    : ∀ i < n, (body ⟨block, offset + i * stride⟩).result = .ok none := by
  intro i hi
  rw [← iterate_add]
  exact none_of_obeys_scan (fun i _ hinside hgoes => hbody.goesOn_iterate hinside hgoes) h
    (Nat.le_refl _) hreached i hi

def matchBody (isMatch : Ptr → Reader Bool) (ptr sym : Ptr) : Reader (Option ElfFile.Symbol) := do
  let found ← isMatch sym
  return if found then some ⟨some ptr, some sym⟩ else none

theorem inside_matchBody {isMatch : Ptr → Reader Bool} {ptr sym : Ptr}
    : Inside env block (matchBody isMatch ptr sym) ↔ Inside env block (isMatch sym) := by
  unfold matchBody
  rw [inside_bind]
  exact and_iff_left fun _ _ => obeys_pure _

theorem matchBody_eq_none {isMatch : Ptr → Reader Bool} {ptr sym : Ptr}
    : (matchBody isMatch ptr sym).result = .ok none ↔ (isMatch sym).result = .ok false := by
  unfold matchBody
  rw [bind_eq_ok]
  constructor
  . intro ⟨found, hfound, hnone⟩
    cases found with
    | true => simp at hnone
    | false => exact hfound
  . intro h
    exact ⟨false, h, rfl⟩

theorem inside_findSymbol {isMatch : Ptr → Reader Bool}
    : Inside env block (ElfFile.findSymbol env (.ofBlock env block) isMatch ⟨block, h⟩)
        ↔ (of env block).InFile 8 (h + 24)
          ∧ ((of env block).Passes Sym.sizeof ((of env block).shOffset h) →
            (of env block).InFile 8 (h + 32) ∧ (of env block).InFile 8 (h + 56)
              ∧ (of env block).shEntsize h ≠ 0
              ∧ Inside env block (Traced.scan (·.add Sym.sizeof) (matchBody isMatch ⟨block, h⟩)
                ((of env block).shSize h / (of env block).shEntsize h)
                ⟨block, (of env block).shOffset h⟩)) := by
  unfold ElfFile.findSymbol
  rw [inside_offset_bind, inside_at_bind, inside_size_bind, inside_entsize_bind]
  by_cases hzero : (of env block).shEntsize h = 0
  . rw [if_pos hzero]
    simp [hzero, Inside]
  . rw [if_neg hzero]
    simp only [ne_eq, hzero, not_false_eq_true, true_and]
    rfl

theorem findSymbol_eq_none {isMatch : Ptr → Reader Bool} (hoffset : (of env block).InFile 8 (h + 24))
    (hfields : (of env block).Passes Sym.sizeof ((of env block).shOffset h) →
      (of env block).InFile 8 (h + 32) ∧ (of env block).InFile 8 (h + 56))
    : (ElfFile.findSymbol env (.ofBlock env block) isMatch ⟨block, h⟩).result = .ok none
        ↔ (of env block).Passes Sym.sizeof ((of env block).shOffset h)
          ∧ (of env block).shEntsize h ≠ 0
          ∧ ∀ k < (of env block).shSize h / (of env block).shEntsize h,
            (matchBody isMatch ⟨block, h⟩
              ⟨block, (of env block).shOffset h + k * Sym.sizeof⟩).result = .ok none := by
  unfold ElfFile.findSymbol
  rw [result_bind_of_ok (offset_eq_ok hoffset)]
  by_cases hpasses : (of env block).Passes Sym.sizeof ((of env block).shOffset h)
  . have ⟨hsize, hentsize⟩ := hfields hpasses
    rw [result_bind_of_ok (at_eq_ok.mpr ⟨hpasses, rfl⟩), result_bind_of_ok (size_eq_ok hsize),
      result_bind_of_ok (entsize_eq_ok hentsize)]
    by_cases hzero : (of env block).shEntsize h = 0
    . rw [if_pos hzero]
      simp [hzero]
    . rw [if_neg hzero]
      simp only [hpasses, ne_eq, hzero, not_false_eq_true, true_and]
      have hscan := @scan_eq_none _ _ _ _ (·.add Sym.sizeof) (matchBody isMatch ⟨block, h⟩)
        ((of env block).shSize h / (of env block).shEntsize h) ⟨block, (of env block).shOffset h⟩
      simp only [iterate_add] at hscan
      exact hscan
  . rw [bind_eq_ok]
    refine iff_of_false ?_ (by simp [hpasses])
    intro ⟨p, hp, _⟩
    exact hpasses (at_eq_ok.mp hp).1

theorem TableReadable.fields (hreadable : (of env block).TableReadable readable stops h)
    : (of env block).Passes Sym.sizeof ((of env block).shOffset h) →
      (of env block).InFile 8 (h + 32) ∧ (of env block).InFile 8 (h + 56) := by
  intro hpasses
  have ⟨hsize, hentsize, _⟩ := hreadable.2 hpasses
  exact ⟨hsize, hentsize⟩

theorem not_tableStops_iff : ¬(of env block).TableStops stops h
    ↔ (of env block).Passes Sym.sizeof ((of env block).shOffset h)
      ∧ ∀ k < (of env block).shSize h / (of env block).shEntsize h,
        ¬stops ((of env block).shOffset h + k * Sym.sizeof) := by
  unfold TableStops
  simp only [not_or, not_not, not_exists, not_and]

theorem Sound.inside_findSymbol {isMatch : Ptr → Reader Bool}
    (hmatch : Sound env block (matchBody isMatch ⟨block, h⟩) readable stops)
    (hreadable : (of env block).TableReadable readable stops h)
    : Inside env block (ElfFile.findSymbol env (.ofBlock env block) isMatch ⟨block, h⟩) := by
  rw [ElfContent.inside_findSymbol]
  refine ⟨hreadable.1, ?_⟩
  intro hpasses
  have ⟨hsize, hentsize, hne, hsymbols⟩ := hreadable.2 hpasses
  exact ⟨hsize, hentsize, hne, hmatch.scan hsymbols⟩

theorem Sound.not_tableStops {isMatch : Ptr → Reader Bool}
    (hmatch : Sound env block (matchBody isMatch ⟨block, h⟩) readable stops)
    (hreadable : (of env block).TableReadable readable stops h)
    (hnone : (ElfFile.findSymbol env (.ofBlock env block) isMatch ⟨block, h⟩).result = .ok none)
    : ¬(of env block).TableStops stops h := by
  have ⟨hpasses, _, hsymbols⟩ :=
    (findSymbol_eq_none hreadable.1 (TableReadable.fields hreadable)).mp hnone
  have ⟨_, _, _, hready⟩ := hreadable.2 hpasses
  rw [not_tableStops_iff]
  exact ⟨hpasses, hmatch.reached hready (Nat.le_refl _) hsymbols⟩

theorem Complete.tableReadable {isMatch : Ptr → Reader Bool}
    (hmatch : Complete env block (matchBody isMatch ⟨block, h⟩) readable stops)
    (hinside : Inside env block (ElfFile.findSymbol env (.ofBlock env block) isMatch ⟨block, h⟩))
    : (of env block).TableReadable readable stops h := by
  rw [ElfContent.inside_findSymbol] at hinside
  refine ⟨hinside.1, ?_⟩
  intro hpasses
  have ⟨hsize, hentsize, hne, hscan⟩ := hinside.2 hpasses
  exact ⟨hsize, hentsize, hne, hmatch.scan hscan⟩

theorem Complete.findSymbol_eq_none {isMatch : Ptr → Reader Bool}
    (hmatch : Complete env block (matchBody isMatch ⟨block, h⟩) readable stops)
    (hinside : Inside env block (ElfFile.findSymbol env (.ofBlock env block) isMatch ⟨block, h⟩))
    (hgoes : ¬(of env block).TableStops stops h)
    : (ElfFile.findSymbol env (.ofBlock env block) isMatch ⟨block, h⟩).result = .ok none := by
  have ⟨hpasses, hgoes⟩ := not_tableStops_iff.mp hgoes
  have hreadable := hmatch.tableReadable hinside
  rw [ElfContent.inside_findSymbol] at hinside
  have ⟨_, _, hne, hscan⟩ := hinside.2 hpasses
  rw [ElfContent.findSymbol_eq_none hreadable.1 (TableReadable.fields hreadable)]
  exact ⟨hpasses, hne, hmatch.goesThrough hscan hgoes⟩

variable {address : Nat}

theorem inside_isDefinition
    : Inside env block (ElfFile.isDefinition env address ⟨block, s⟩)
        ↔ (of env block).InFile 1 (s + 4)
          ∧ ((of env block).stInfo s % 16 = STT_OBJECT ∨ (of env block).stInfo s % 16 = STT_FUNC →
            (of env block).InFile 2 (s + 6) ∧ ((of env block).stShndx s ≠ SHN_UNDEF →
              (of env block).InFile 8 (s + 8) ∧ (address ≥ (of env block).stValue s →
                (of env block).InFile 8 (s + 16)))) := by
  unfold ElfFile.isDefinition
  rw [inside_stInfo_bind]
  refine and_congr_right fun _ => ?_
  dsimp only
  split
  next htype =>
    rw [inside_stShndx_bind]
    simp only [htype, true_implies]
    refine and_congr_right fun _ => ?_
    split
    next hdefined =>
      rw [inside_stValue_bind]
      simp only [hdefined, ne_eq, not_false_eq_true, true_implies]
      refine and_congr_right fun _ => ?_
      split
      next hge =>
        rw [inside_stSize_bind]
        simp [hge, Inside]
      next hlt => exact iff_of_true (obeys_pure _) (by simp [hlt])
    next hundefined => exact iff_of_true (obeys_pure _) (by simp [hundefined])
  next htype => exact iff_of_true (obeys_pure _) (by simp [htype])

-- No symbol extends up to the last address.
def lastAddress : Nat := 2 ^ 64 - 1

theorem field_lt {m : Nat} : (of env block).field m offset < 256 ^ m := by
  unfold field
  have hlt := Bytes.littleEndian_lt (((of env block).bytes.drop offset).take m)
  have hle := List.length_take_le m ((of env block).bytes.drop offset)
  exact Nat.lt_of_lt_of_le hlt (Nat.pow_le_pow_right (by decide) hle)

theorem definitionReadable_iff (hlast : lastAddress ≤ address)
    : Inside env block (ElfFile.isDefinition env address ⟨block, s⟩)
        ↔ (of env block).DefinitionReadable s := by
  have hge : address ≥ (of env block).stValue s := by
    have hlt := @field_lt env block (s + 8) 8
    unfold lastAddress at hlast
    unfold stValue
    omega
  rw [inside_isDefinition]
  unfold DefinitionReadable
  simp only [hge, true_implies]
  have hfields : (of env block).InFile 8 (s + 8) ∧ (of env block).InFile 8 (s + 16)
      ↔ (of env block).InFile Sym.sizeof s := by
    unfold InFile Sym.sizeof
    omega
  rw [hfields]

theorem inside_of_definitionReadable (h : (of env block).DefinitionReadable s)
    : Inside env block (ElfFile.isDefinition env address ⟨block, s⟩) := by
  rw [inside_isDefinition]
  refine ⟨h.1, ?_⟩
  intro htype
  have ⟨hshndx, hrest⟩ := h.2 htype
  refine ⟨hshndx, ?_⟩
  intro hdefined
  have hin := hrest hdefined
  unfold InFile Sym.sizeof at hin
  unfold InFile
  omega

theorem isDefinition_last (h : Inside env block (ElfFile.isDefinition env lastAddress ⟨block, s⟩))
    : (ElfFile.isDefinition env lastAddress ⟨block, s⟩).result = .ok false := by
  rw [inside_isDefinition] at h
  have ⟨hinfo, hrest⟩ := h
  unfold ElfFile.isDefinition
  rw [result_bind_of_ok (stInfo_eq_ok hinfo)]
  dsimp only
  split
  next htype =>
    have ⟨hshndx, hrest⟩ := hrest htype
    rw [result_bind_of_ok (stShndx_eq_ok hshndx)]
    split
    next hdefined =>
      have ⟨hvalue, hrest⟩ := hrest hdefined
      rw [result_bind_of_ok (stValue_eq_ok hvalue)]
      split
      next hge =>
        rw [result_bind_of_ok (stSize_eq_ok (hrest hge)), result_pure]
        congr 1
        rw [decide_eq_false_iff_not]
        unfold lastAddress
        omega
      next => rfl
    next => rfl
  next => rfl

theorem sound_isDefinition {ptr : Ptr}
    : Sound env block (matchBody (ElfFile.isDefinition env address) ptr)
        (of env block).DefinitionReadable (fun _ => False) where
  inside := by
    intro offset h
    rw [inside_matchBody]
    exact inside_of_definitionReadable h
  goesOn := by simp

theorem complete_isDefinition {ptr : Ptr}
    : Complete env block (matchBody (ElfFile.isDefinition env lastAddress) ptr)
        (of env block).DefinitionReadable (fun _ => False) where
  readable := by
    intro offset h
    rw [inside_matchBody] at h
    exact (definitionReadable_iff (Nat.le_refl _)).mp h
  goesOn := by
    intro offset h _
    rw [inside_matchBody] at h
    rw [matchBody_eq_none]
    exact isDefinition_last h

theorem inside_skipsByAddress_bind {f : Bool → Reader α}
    : Inside env block (ElfFile.skipsByAddress env ⟨block, h⟩ >>= f)
        ↔ (of env block).InFile Shdr.sizeof h
          ∧ Inside env block (f ((of env block).shType h ≠ SHT_DYNSYM
            && (of env block).shType h ≠ SHT_SYMTAB)) := by
  unfold ElfFile.skipsByAddress
  rw [bind_bind]
  constructor
  . intro hinside
    have ⟨hcopy, hrest⟩ := obeys_bind.mp hinside
    have hin := (inside_peekMany (by decide)).mp hcopy
    have hrest := hrest _ (peekMany_eq hin)
    rw [bind_bind] at hrest
    exact ⟨hin, (inside_type_bind.mp hrest).2⟩
  . intro ⟨hin, hrest⟩
    have htype : (of env block).InFile 4 (h + 4) := by
      unfold InFile Shdr.sizeof at hin
      unfold InFile
      omega
    refine obeys_bind.mpr ⟨(inside_peekMany (by decide)).mpr hin, ?_⟩
    intro _ _
    rw [bind_bind]
    exact inside_type_bind.mpr ⟨htype, hrest⟩

theorem skipsByAddress_eq_ok (hin : (of env block).InFile Shdr.sizeof h)
    : (ElfFile.skipsByAddress env ⟨block, h⟩).result
        = .ok ((of env block).shType h ≠ SHT_DYNSYM && (of env block).shType h ≠ SHT_SYMTAB) := by
  have htype : (of env block).InFile 4 (h + 4) := by
    unfold InFile Shdr.sizeof at hin
    unfold InFile
    omega
  unfold ElfFile.skipsByAddress
  rw [result_bind_of_ok (peekMany_eq hin), result_bind_of_ok (type_eq_ok htype)]
  rfl

theorem skips_iff {type : Nat}
    : (type ≠ SHT_DYNSYM && type ≠ SHT_SYMTAB : Bool) = true ↔ ¬SymbolImage.IsSymbolTable type := by
  unfold SymbolImage.IsSymbolTable
  simp

theorem inside_definitionIn
    : Inside env block (ElfFile.definitionIn env (.ofBlock env block) address ⟨block, h⟩)
        ↔ (of env block).InFile Shdr.sizeof h
          ∧ (SymbolImage.IsSymbolTable ((of env block).shType h) →
            Inside env block (ElfFile.findSymbol env (.ofBlock env block)
              (ElfFile.isDefinition env address) ⟨block, h⟩)) := by
  unfold ElfFile.definitionIn
  rw [inside_skipsByAddress_bind]
  refine and_congr_right fun _ => ?_
  split
  next hskips =>
    refine iff_of_true (obeys_pure _) ?_
    intro htable
    exact absurd htable (skips_iff.mp hskips)
  next hskips =>
    have htable := not_not.mp (mt skips_iff.mpr hskips)
    simp [htable]

theorem definitionIn_eq_none (hin : (of env block).InFile Shdr.sizeof h)
    : (ElfFile.definitionIn env (.ofBlock env block) address ⟨block, h⟩).result = .ok none
        ↔ (SymbolImage.IsSymbolTable ((of env block).shType h) →
          (ElfFile.findSymbol env (.ofBlock env block) (ElfFile.isDefinition env address)
            ⟨block, h⟩).result = .ok none) := by
  unfold ElfFile.definitionIn
  rw [result_bind_of_ok (skipsByAddress_eq_ok hin)]
  split
  next hskips =>
    refine iff_of_true rfl ?_
    intro htable
    exact absurd htable (skips_iff.mp hskips)
  next hskips =>
    have htable := not_not.mp (mt skips_iff.mpr hskips)
    simp [htable]

theorem sound_definitionIn
    : Sound env block (ElfFile.definitionIn env (.ofBlock env block) address)
        (of env block).DefinitionsReadable (of env block).DefinitionsStop where
  inside := by
    intro h ⟨hin, hreadable⟩
    rw [inside_definitionIn]
    exact ⟨hin, fun htable => sound_isDefinition.inside_findSymbol (hreadable htable)⟩
  goesOn := by
    intro h ⟨hin, hreadable⟩ hnone ⟨htable, hstops⟩
    have hnone := (definitionIn_eq_none hin).mp hnone htable
    exact sound_isDefinition.not_tableStops (hreadable htable) hnone hstops

theorem complete_definitionIn
    : Complete env block (ElfFile.definitionIn env (.ofBlock env block) lastAddress)
        (of env block).DefinitionsReadable (of env block).DefinitionsStop where
  readable := by
    intro h hinside
    rw [inside_definitionIn] at hinside
    exact ⟨hinside.1, fun htable => complete_isDefinition.tableReadable (hinside.2 htable)⟩
  goesOn := by
    intro h hinside hgoes
    rw [inside_definitionIn] at hinside
    rw [definitionIn_eq_none hinside.1]
    intro htable
    apply complete_isDefinition.findSymbol_eq_none (hinside.2 htable)
    intro hstops
    exact hgoes ⟨htable, hstops⟩

theorem inside_findInSections (hheader : (of env block).InFile Ehdr.sizeof 0)
    {body : Ptr → Reader (Option ElfFile.Symbol)}
    : Inside env block (ElfFile.findInSections env (.ofBlock env block) body)
        ↔ ((of env block).Passes Shdr.sizeof (of env block).shoff →
          Inside env block (Traced.scan (·.add Shdr.sizeof) body (of env block).shnum
            ⟨block, (of env block).shoff⟩)) := by
  unfold ElfFile.findInSections
  rw [inside_getElfHeader_bind hheader, inside_shoff_bind hheader, inside_at_bind,
    inside_shnum_bind hheader]
  refine imp_congr_right fun _ => ?_
  rw [inside_bind]
  exact and_iff_left fun _ _ => obeys_pure _

theorem Sound.inside_findInSections {body : Ptr → Reader (Option ElfFile.Symbol)}
    (hbody : Sound env block body readable stops) (hheader : (of env block).InFile Ehdr.sizeof 0)
    (h : (of env block).SectionsReadable readable stops)
    : Inside env block (ElfFile.findInSections env (.ofBlock env block) body) := by
  rw [ElfContent.inside_findInSections hheader]
  intro hpasses
  exact hbody.scan (h hpasses)

theorem Complete.sectionsReadable {body : Ptr → Reader (Option ElfFile.Symbol)}
    (hbody : Complete env block body readable stops) (hheader : (of env block).InFile Ehdr.sizeof 0)
    (h : Inside env block (ElfFile.findInSections env (.ofBlock env block) body))
    : (of env block).SectionsReadable readable stops := by
  rw [ElfContent.inside_findInSections hheader] at h
  intro hpasses
  exact hbody.scan (h hpasses)

theorem inside_getDefinitionByAddress_iff (hheader : (of env block).InFile Ehdr.sizeof 0)
    : (∀ address < 2 ^ 64,
        Inside env block (ElfFile.getDefinitionByAddress env (.ofBlock env block) address))
      ↔ (of env block).SectionsReadable (of env block).DefinitionsReadable
        (of env block).DefinitionsStop := by
  constructor
  . intro h
    exact complete_definitionIn.sectionsReadable hheader (h lastAddress (by decide))
  . intro h address _
    exact sound_definitionIn.inside_findInSections hheader h

variable {name : CString}

-- The strings that `strcmp` with the name stays inside of
def Compares (env : Env) (block : Block) (name : CString) (offset : Nat) : Prop :=
  ¬(of env block).bytes.drop offset <+: name.bytes

theorem inside_isNamed (hheader : (of env block).InFile Ehdr.sizeof 0)
    (hlink : (of env block).InFile 4 (h + 40))
    : Inside env block (ElfFile.isNamed env (.ofBlock env block) name ⟨block, h⟩ ⟨block, s⟩)
        ↔ (of env block).NameReadable (Compares env block name) ((of env block).shLink h) s := by
  unfold ElfFile.isNamed NameReadable
  rw [inside_stShndx_bind]
  refine and_congr_right fun _ => ?_
  split
  next hdefined =>
    rw [inside_stName_bind]
    simp only [hdefined, ne_eq, not_false_eq_true, true_implies]
    refine and_congr_right fun _ => ?_
    split
    next hne =>
      rw [inside_link_bind, inside_getSectionByIndex_bind hheader, inside_getString_bind]
      simp only [hlink, true_and, hne, not_false_eq_true, true_implies]
      refine imp_congr_right fun _ => and_congr_right fun _ => imp_congr_right fun _ => ?_
      unfold Compares
      rw [← inside_strcmp]
      rw [inside_bind]
      exact and_iff_left fun _ _ => obeys_pure _
    next hzero => exact iff_of_true (obeys_pure _) (by simp [hzero])
  next hundefined => exact iff_of_true (obeys_pure _) (by simp [hundefined])

variable {ends : Nat → Prop}

theorem not_nameStops_of_ok (hheader : (of env block).InFile Ehdr.sizeof 0)
    (hlink : (of env block).InFile 4 (h + 40))
    (hreadable : (of env block).NameReadable ends ((of env block).shLink h) s) {found : Bool}
    (hok : (ElfFile.isNamed env (.ofBlock env block) name ⟨block, h⟩ ⟨block, s⟩).result = .ok found)
    : ¬(of env block).NameStops ((of env block).shLink h) s := by
  intro ⟨hdefined, hne, hstops⟩
  have ⟨hshndx, hrest⟩ := hreadable
  have ⟨hname, hrest⟩ := hrest hdefined
  unfold ElfFile.isNamed at hok
  rw [result_bind_of_ok (stShndx_eq_ok hshndx), if_pos hdefined,
    result_bind_of_ok (stName_eq_ok hname), if_pos hne, result_bind_of_ok (link_eq_ok hlink),
    bind_eq_ok] at hok
  have ⟨stringTable, htable, hok⟩ := hok
  have ⟨hindex, hp⟩ := (getSectionByIndex_eq_ok hheader).mp htable
  subst hp
  have ⟨symName, hstring, _⟩ := bind_eq_ok.mp hok
  have hstring := (getString_eq_ok (hrest hne hindex).1).mp hstring
  exact hstops ⟨hindex, hstring.1⟩

theorem isNamed_of_long (hheader : (of env block).InFile Ehdr.sizeof 0)
    (hlink : (of env block).InFile 4 (h + 40)) (hlong : (of env block).bytes.length ≤ name.bytes.length)
    (hinside : Inside env block
      (ElfFile.isNamed env (.ofBlock env block) name ⟨block, h⟩ ⟨block, s⟩))
    (hgoes : ¬(of env block).NameStops ((of env block).shLink h) s)
    : (ElfFile.isNamed env (.ofBlock env block) name ⟨block, h⟩ ⟨block, s⟩).result = .ok false := by
  have ⟨hshndx, hrest⟩ := (inside_isNamed hheader hlink).mp hinside
  unfold ElfFile.isNamed
  rw [result_bind_of_ok (stShndx_eq_ok hshndx)]
  split
  next hdefined =>
    have ⟨hname, hrest⟩ := hrest hdefined
    rw [result_bind_of_ok (stName_eq_ok hname)]
    split
    next hne =>
      have ⟨hindex, hpasses⟩ : (of env block).IndexPasses ((of env block).shLink h)
          ∧ (of env block).StringPasses ((of env block).indexed ((of env block).shLink h))
            ((of env block).stName s) := by
        by_contra hstops
        exact hgoes ⟨hdefined, hne, hstops⟩
      have ⟨hreadable, hcompares⟩ := hrest hne hindex
      have hstrcmp := inside_strcmp.mpr (hcompares hpasses)
      have hdiffers := strcmp_of_long (by omega) hstrcmp
      rw [result_bind_of_ok (link_eq_ok hlink),
        result_bind_of_ok ((getSectionByIndex_eq_ok hheader).mpr ⟨hindex, rfl⟩),
        result_bind_of_ok ((getString_eq_ok hreadable).mpr ⟨hpasses, rfl⟩), result_bind_of_ok hdiffers]
      rfl
    next => rfl
  next => rfl

theorem NameReadable.mono {ends' : Nat → Prop} {link : Nat} (h : ∀ offset, ends offset → ends' offset)
    (hreadable : (of env block).NameReadable ends link s) : (of env block).NameReadable ends' link s := by
  refine ⟨hreadable.1, ?_⟩
  intro hdefined
  have ⟨hname, hrest⟩ := hreadable.2 hdefined
  refine ⟨hname, ?_⟩
  intro hne hindex
  have ⟨hvalidate, hends⟩ := hrest hne hindex
  exact ⟨hvalidate, fun hpasses => h _ (hends hpasses)⟩

theorem sound_isNamed (hheader : (of env block).InFile Ehdr.sizeof 0)
    (hlink : (of env block).InFile 4 (h + 40))
    : Sound env block (matchBody (ElfFile.isNamed env (.ofBlock env block) name ⟨block, h⟩) ⟨block, h⟩)
        ((of env block).NameReadable (of env block).Terminated ((of env block).shLink h))
        ((of env block).NameStops ((of env block).shLink h)) where
  inside := by
    intro s hreadable
    rw [inside_matchBody, inside_isNamed hheader hlink]
    exact hreadable.mono fun offset hends => not_prefix_of_terminated name hends
  goesOn := by
    intro s hreadable hnone
    rw [matchBody_eq_none] at hnone
    exact not_nameStops_of_ok hheader hlink hreadable hnone

theorem complete_isNamed (hheader : (of env block).InFile Ehdr.sizeof 0)
    (hlink : (of env block).InFile 4 (h + 40)) (hlong : (of env block).bytes.length ≤ name.bytes.length)
    : Complete env block
        (matchBody (ElfFile.isNamed env (.ofBlock env block) name ⟨block, h⟩) ⟨block, h⟩)
        ((of env block).NameReadable (Compares env block name) ((of env block).shLink h))
        ((of env block).NameStops ((of env block).shLink h)) where
  readable := by
    intro s hinside
    rw [inside_matchBody] at hinside
    exact (inside_isNamed hheader hlink).mp hinside
  goesOn := by
    intro s hinside hgoes
    rw [inside_matchBody] at hinside
    rw [matchBody_eq_none]
    exact isNamed_of_long hheader hlink hlong hinside hgoes

theorem inside_symbolIn
    : Inside env block (ElfFile.symbolIn env (.ofBlock env block) name ⟨block, h⟩)
        ↔ (of env block).InFile 4 (h + 40) ∧ ((of env block).shLink h ≠ SHN_UNDEF →
          (of env block).InFile 4 (h + 4) ∧ ((of env block).shType h = SHT_DYNSYM →
            Inside env block (ElfFile.findSymbol env (.ofBlock env block)
              (ElfFile.isNamed env (.ofBlock env block) name ⟨block, h⟩) ⟨block, h⟩))) := by
  unfold ElfFile.symbolIn ElfFile.skipsByName
  rw [bind_bind, inside_link_bind]
  refine and_congr_right fun _ => ?_
  by_cases hlink : (of env block).shLink h = SHN_UNDEF
  . rw [if_pos hlink, Traced.pure_bind, if_pos rfl]
    exact iff_of_true (obeys_pure _) (by simp [hlink])
  . rw [if_neg hlink, bind_bind, inside_type_bind, Traced.pure_bind]
    simp only [ne_eq, hlink, not_false_eq_true, true_implies]
    refine and_congr_right fun _ => ?_
    by_cases htype : (of env block).shType h = SHT_DYNSYM
    . simp [htype]
    . simp [htype, Inside]

theorem symbolIn_eq_none (hlink : (of env block).InFile 4 (h + 40))
    (htype : (of env block).shLink h ≠ SHN_UNDEF → (of env block).InFile 4 (h + 4))
    : (ElfFile.symbolIn env (.ofBlock env block) name ⟨block, h⟩).result = .ok none
        ↔ ((of env block).shLink h ≠ SHN_UNDEF → (of env block).shType h = SHT_DYNSYM →
          (ElfFile.findSymbol env (.ofBlock env block)
            (ElfFile.isNamed env (.ofBlock env block) name ⟨block, h⟩) ⟨block, h⟩).result
              = .ok none) := by
  unfold ElfFile.symbolIn ElfFile.skipsByName
  rw [bind_bind, result_bind_of_ok (link_eq_ok hlink)]
  by_cases hundef : (of env block).shLink h = SHN_UNDEF
  . simp [hundef]
  . rw [if_neg hundef, bind_bind, result_bind_of_ok (type_eq_ok (htype hundef)), Traced.pure_bind]
    by_cases hdynsym : (of env block).shType h = SHT_DYNSYM
    . simp [hundef, hdynsym]
    . simp [hdynsym]

theorem sound_symbolIn (hheader : (of env block).InFile Ehdr.sizeof 0)
    : Sound env block (ElfFile.symbolIn env (.ofBlock env block) name)
        ((of env block).NamesReadable (of env block).Terminated) (of env block).NamesStop where
  inside := by
    intro h ⟨hlink, hrest⟩
    rw [inside_symbolIn]
    refine ⟨hlink, ?_⟩
    intro hlinked
    have ⟨htype, htable⟩ := hrest hlinked
    refine ⟨htype, ?_⟩
    intro hdynsym
    exact (sound_isNamed hheader hlink).inside_findSymbol (htable hdynsym)
  goesOn := by
    intro h ⟨hlink, hrest⟩ hnone ⟨hlinked, hdynsym, hstops⟩
    have ⟨htype, htable⟩ := hrest hlinked
    have hnone := (symbolIn_eq_none hlink fun _ => htype).mp hnone hlinked hdynsym
    exact (sound_isNamed hheader hlink).not_tableStops (htable hdynsym) hnone hstops

theorem complete_symbolIn (hheader : (of env block).InFile Ehdr.sizeof 0)
    (hlong : (of env block).bytes.length ≤ name.bytes.length)
    : Complete env block (ElfFile.symbolIn env (.ofBlock env block) name)
        ((of env block).NamesReadable (Compares env block name)) (of env block).NamesStop where
  readable := by
    intro h hinside
    have ⟨hlink, hrest⟩ := inside_symbolIn.mp hinside
    refine ⟨hlink, ?_⟩
    intro hlinked
    have ⟨htype, htable⟩ := hrest hlinked
    refine ⟨htype, ?_⟩
    intro hdynsym
    exact (complete_isNamed hheader hlink hlong).tableReadable (htable hdynsym)
  goesOn := by
    intro h hinside hgoes
    have ⟨hlink, hrest⟩ := inside_symbolIn.mp hinside
    rw [symbolIn_eq_none hlink fun hlinked => (hrest hlinked).1]
    intro hlinked hdynsym
    apply (complete_isNamed hheader hlink hlong).findSymbol_eq_none ((hrest hlinked).2 hdynsym)
    intro hstops
    exact hgoes ⟨hlinked, hdynsym, hstops⟩

def LongName (env : Env) (block : Block) : Type :=
  { name : CString // (of env block).bytes.length ≤ name.bytes.length }

def LongName.of (bytes : List UInt8) (h : 0 ∉ bytes) : LongName env block :=
  ⟨⟨bytes ++ List.replicate (ElfContent.of env block).bytes.length 1, by simp [h]⟩, by simp⟩

theorem terminated_of_compares (h : ∀ name : LongName env block, Compares env block name.1 offset)
    : (of env block).Terminated offset := by
  by_contra hnot
  apply h (LongName.of ((of env block).bytes.drop offset) hnot)
  exact List.prefix_append _ _

theorem NameReadable.of_forall {link : Nat}
    (h : ∀ name : LongName env block, (of env block).NameReadable (Compares env block name.1) link s)
    : (of env block).NameReadable (of env block).Terminated link s := by
  have ⟨hshndx, hrest⟩ := h (LongName.of [] (by decide))
  refine ⟨hshndx, ?_⟩
  intro hdefined
  have ⟨hname, hrest⟩ := hrest hdefined
  refine ⟨hname, ?_⟩
  intro hne hindex
  have ⟨hvalidate, _⟩ := hrest hne hindex
  refine ⟨hvalidate, ?_⟩
  intro hpasses
  apply terminated_of_compares
  intro name
  exact (((h name).2 hdefined).2 hne hindex).2 hpasses

theorem NamesReadable.of_forall
    (hnames : ∀ name : LongName env block, (of env block).NamesReadable (Compares env block name.1) h)
    : (of env block).NamesReadable (of env block).Terminated h := by
  have ⟨hlink, hrest⟩ := hnames (LongName.of [] (by decide))
  refine ⟨hlink, ?_⟩
  intro hlinked
  have ⟨htype, htable⟩ := hrest hlinked
  refine ⟨htype, ?_⟩
  intro hdynsym
  have ⟨hoffset, hfields⟩ := htable hdynsym
  refine ⟨hoffset, ?_⟩
  intro hpasses
  have ⟨hsize, hentsize, hne, _⟩ := hfields hpasses
  refine ⟨hsize, hentsize, hne, ?_⟩
  intro k hk hreached
  apply NameReadable.of_forall
  intro name
  have ⟨_, _, _, hsymbols⟩ := (((hnames name).2 hlinked).2 hdynsym).2 hpasses
  exact hsymbols k hk hreached

theorem inside_getSymbolByName_iff (hheader : (of env block).InFile Ehdr.sizeof 0)
    : (∀ name, Inside env block (ElfFile.getSymbolByName env (.ofBlock env block) name))
      ↔ (of env block).SectionsReadable ((of env block).NamesReadable (of env block).Terminated)
        (of env block).NamesStop := by
  constructor
  . intro h hpasses i hi hreached
    apply NamesReadable.of_forall
    intro name
    exact (complete_symbolIn hheader name.2).sectionsReadable hheader (h name.1) hpasses i hi hreached
  . intro h name
    exact (sound_symbolIn hheader).inside_findInSections hheader h

end ElfContent
end Claire
