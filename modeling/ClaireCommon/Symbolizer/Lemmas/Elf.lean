import ClaireCommon.Symbolizer.SectionTable

/-!
This module contains where `ElfFile::GetSectionByName` agrees with `ElfFile::GetSectionName`: it takes
the first string of the table that is the name, and then only the sections that have their name there.
-/

namespace Claire

open Bytes Traced

variable {env : Env} {elf : ElfFile} {image : Image} {p : Ptr}

theorem Env.field_of_isField {n value : Nat} (h : IsField env n p value)
    : (env.field n p).result = .ok value := by
  have hbytes : (env.peekMany p n).result = .ok (toLittleEndian n value) :=
    Env.peekMany_eq_ok.mpr ⟨by simp, h.holds⟩
  unfold Env.field
  rw [result_bind_of_ok hbytes, littleEndian_toLittleEndian_of_lt h.lt]
  rfl

theorem Env.dcheckRead_of_ok {condition : Reader Bool} (h : condition.result = .ok true)
    : (env.dcheckRead condition).result = .ok ⟨⟩ := by
  unfold Env.dcheckRead
  split
  . rfl
  . rw [result_bind_of_ok h]
    rfl

namespace SectionHeader.IsAt

variable {section_ : SectionHeader} (h : section_.IsAt env p)

include h

theorem name_eq : (Shdr.name env p).result = .ok section_.name := Env.field_of_isField h.name

theorem type_eq : (Shdr.type env p).result = .ok section_.type := Env.field_of_isField h.type

theorem offset_eq : (Shdr.offset env p).result = .ok section_.offset := Env.field_of_isField h.offset

theorem size_eq : (Shdr.size env p).result = .ok section_.size := Env.field_of_isField h.size

end SectionHeader.IsAt

theorem Env.strcmp_of_terminated {text : List UInt8} (h : Dwarf.Terminated env p text) (name : CString)
    : (env.strcmp p name.bytes).result = .ok (decide (text ≠ name.bytes)) := by
  have hnonzero := name.nonzero
  generalize name.bytes = bytes at hnonzero ⊢
  induction bytes generalizing p text with
  | nil =>
    cases text with
    | nil =>
      unfold Env.strcmp
      rw [result_bind_of_ok (Env.peek_eq_ok.mpr h.holds.1)]
      rfl
    | cons byte text =>
      have hbyte : byte ≠ 0 := by
        intro hzero
        apply h.nonzero
        rw [hzero]
        apply List.mem_cons_self
      unfold Env.strcmp
      rw [result_bind_of_ok (Env.peek_eq_ok.mpr h.holds.1)]
      simp [hbyte]
  | cons c bytes ih =>
    rw [List.mem_cons, not_or] at hnonzero
    cases text with
    | nil =>
      unfold Env.strcmp
      rw [result_bind_of_ok (Env.peek_eq_ok.mpr h.holds.1), if_neg hnonzero.1]
      simp
    | cons byte text =>
      have htext := h.nonzero
      rw [List.mem_cons, not_or] at htext
      unfold Env.strcmp
      rw [result_bind_of_ok (Env.peek_eq_ok.mpr h.holds.1)]
      split
      . next heq =>
        rw [ih ⟨h.holds.2, htext.2⟩ hnonzero.2, heq]
        simp
      . next hne => simp [hne]

theorem Env.strlen_of_terminated {text : List UInt8} (h : Dwarf.Terminated env p text)
    : (env.strlen p).result = .ok text.length := by
  have hend := h.holds.end_le (by simp)
  have hlt := @Env.mapped_length_lt env p.block
  rw [List.length_append, List.length_singleton] at hend
  have hmemchr : (env.memchr p 0 ((env.mapped p.block).length + 1)).result
      = .ok (some (p.add text.length)) := by
    rw [Env.memchr_eq_some]
    exact ⟨text, h.holds, h.nonzero, by omega, rfl⟩
  unfold Env.strlen
  rw [result_bind_of_ok hmemchr]
  dsimp only
  rw [StringPiece.distance_add _ (by omega)]
  rfl

namespace StringTable

theorem encodeAll_cons (s : CString) (strings : List CString)
    : encodeAll (s :: strings) = s.bytes ++ [0] ++ encodeAll strings := rfl

theorem encodeAll_append (strings strings' : List CString)
    : encodeAll (strings ++ strings') = encodeAll strings ++ encodeAll strings' :=
  List.flatMap_append

theorem exists_strings {bytes : List UInt8} (h : bytes.getLast? = some 0)
    : ∃ strings, bytes = encodeAll strings := by
  induction bytes with
  | nil => contradiction
  | cons byte bytes ih =>
    cases bytes with
    | nil =>
      have hzero : byte = 0 := by simpa using h
      exact ⟨[⟨[], by simp⟩], by rw [hzero]; rfl⟩
    | cons byte' bytes =>
      rw [List.getLast?_cons_cons] at h
      have ⟨strings, hstrings⟩ := ih h
      by_cases hzero : byte = 0
      . refine ⟨⟨[], by simp⟩ :: strings, ?_⟩
        rw [hstrings, hzero]
        rfl
      . cases strings with
        | nil => contradiction
        | cons s strings =>
          have hnonzero : 0 ∉ byte :: s.bytes := by
            rw [List.mem_cons, not_or]
            exact ⟨Ne.symm hzero, s.nonzero⟩
          refine ⟨⟨byte :: s.bytes, hnonzero⟩ :: strings, ?_⟩
          rw [hstrings]
          rfl

theorem length_le_length_encodeAll (strings : List CString)
    : strings.length ≤ (encodeAll strings).length := by
  induction strings with
  | nil => apply Nat.zero_le
  | cons s strings ih =>
    rw [encodeAll_cons, List.length_cons, List.length_append, List.length_append, List.length_singleton]
    omega

variable {table : List UInt8} {name : CString} {offset : Nat}

theorem isNameAt_of_isFirstString (h : IsFirstString table name offset) : IsNameAt table name offset := by
  have ⟨before, rest, htable, _, hoffset⟩ := h
  refine ⟨rest, ?_⟩
  rw [htable, ← hoffset, List.append_assoc, List.drop_left]

theorem exists_isNameAt (h : WellFormed table) (hoffset : offset < table.length)
    : ∃ name, IsNameAt table name offset := by
  have hlast : (table.drop offset).getLast? = some 0 := by
    rw [List.getLast?_drop, if_neg (by omega)]
    exact h.last
  have ⟨strings, hstrings⟩ := exists_strings hlast
  cases strings with
  | nil =>
    rw [hstrings] at hlast
    contradiction
  | cons s strings => exact ⟨s, encodeAll strings, hstrings⟩

theorem exists_isFirstString (h : table.getLast? = some 0) (name : CString)
    : (∃ offset, IsFirstString table name offset)
        ∨ ∃ strings, table = encodeAll strings ∧ name ∉ strings := by
  have ⟨strings, hstrings⟩ := exists_strings h
  by_cases hmem : name ∈ strings
  . have ⟨before, after, heq, hbefore⟩ := List.eq_append_cons_of_mem hmem
    refine Or.inl ⟨_, before, encodeAll after, ?_, hbefore, rfl⟩
    rw [hstrings, heq, encodeAll_append, encodeAll_cons, ← List.append_assoc]
  . exact Or.inr ⟨strings, hstrings, hmem⟩

end StringTable

namespace ElfFile

open StringTable

variable {name : CString}

theorem rounds_findNameRound {before : List CString} {n : Nat} (hbytes : env.Holds p (encodeAll before))
    (hbefore : name ∉ before) (hsize : (encodeAll before).length ≤ n)
    : Rounds (findNameRound env name (p.add n)) before.length p
        (p.add (encodeAll before).length) := by
  induction before generalizing p n with
  | nil => exact Rounds.refl p
  | cons s before ih =>
    rw [List.mem_cons, not_or] at hbefore
    rw [encodeAll_cons] at hbytes hsize ⊢
    have ⟨hfirst, hrest⟩ := Env.holds_append.mp hbytes
    have hterminated : Dwarf.Terminated env p s.bytes := ⟨hfirst, s.nonzero⟩
    simp only [List.length_append, List.length_singleton] at hrest hsize
    have hne : p ≠ p.add n := by
      intro heq
      have hoffset := congrArg Ptr.offset heq
      rw [Ptr.offset_add] at hoffset
      omega
    have hdiffers : s.bytes ≠ name.bytes := by
      intro heq
      apply hbefore.1
      cases name
      cases s
      simpa using heq.symm
    have hround : (findNameRound env name (p.add n) p).result
        = .ok (.inl (p.add (s.bytes.length + 1))) := by
      unfold findNameRound
      rw [if_neg hne, result_bind_of_ok (Env.strcmp_of_terminated hterminated name),
        decide_eq_true hdiffers, if_pos rfl, result_bind_of_ok (Env.strlen_of_terminated hterminated)]
      rfl
    have hstop : p.add n = (p.add (s.bytes.length + 1)).add (n - (s.bytes.length + 1)) := by
      rw [Ptr.add_add]
      congr 1
      omega
    have hrounds := @ih (p.add (s.bytes.length + 1)) (n - (s.bytes.length + 1)) hrest hbefore.2 (by omega)
    rw [← hstop, Ptr.add_add] at hrounds
    rw [List.length_append, List.length_append, List.length_singleton]
    exact Rounds.head hround hrounds

theorem findName_of_first {before : List CString} {n : Nat}
    (hbytes : env.Holds p (encodeAll before ++ (name.bytes ++ [0]))) (hbefore : name ∉ before)
    (hsize : (encodeAll before ++ (name.bytes ++ [0])).length ≤ n)
    : (findName env name p (p.add n)).result = .ok (p.add (encodeAll before).length) := by
  have ⟨hfirst, hname⟩ := Env.holds_append.mp hbytes
  have hend := hbytes.end_le (by simp)
  have hlen := length_le_length_encodeAll before
  simp only [List.length_append, List.length_singleton] at hsize hend
  have hne : p.add (encodeAll before).length ≠ p.add n := by
    intro heq
    have hoffset := congrArg Ptr.offset heq
    rw [Ptr.offset_add, Ptr.offset_add] at hoffset
    omega
  apply (rounds_findNameRound hfirst hbefore (by omega)).loop_leave
  . unfold findNameRound
    rw [if_neg hne, result_bind_of_ok (Env.strcmp_of_terminated ⟨hname, name.nonzero⟩ name)]
    simp
  . omega

theorem findName_of_not_mem {strings : List CString} (hbytes : env.Holds p (encodeAll strings))
    (hstrings : name ∉ strings)
    : (findName env name p (p.add (encodeAll strings).length)).result
        = .ok (p.add (encodeAll strings).length) := by
  have hlen := length_le_length_encodeAll strings
  apply (rounds_findNameRound hbytes hstrings (Nat.le_refl _)).loop_leave
  . unfold findNameRound
    rw [if_pos rfl]
    rfl
  . cases strings with
    | nil => apply Nat.zero_lt_succ
    | cons s strings =>
      have hend := hbytes.end_le (by simp [encodeAll_cons])
      omega

theorem findOffset_eq {sections : List SectionHeader} (offset : Nat)
    (h : ∀ i (section_ : SectionHeader), sections[i]? = some section_ →
      section_.IsAt env (p.add (i * Shdr.sizeof)))
    : (findOffset env offset p sections.length).result
        = .ok ((sections.findIdx? (·.name = offset)).map fun i => p.add (i * Shdr.sizeof)) := by
  induction sections generalizing p with
  | nil => rfl
  | cons section_ sections ih =>
    have hfirst := h 0 section_ rfl
    rw [Nat.zero_mul, Ptr.add_zero] at hfirst
    have hrest := @ih (p.add Shdr.sizeof) (by
      intro i other hother
      have hother := h (i + 1) other hother
      rw [Nat.add_mul, Nat.one_mul, Nat.add_comm] at hother
      rw [Ptr.add_add]
      exact hother)
    rw [List.length_cons]
    unfold findOffset
    rw [result_bind_of_ok hfirst.name_eq, List.findIdx?_cons]
    split
    . next heq => simp [heq]
    . next hne =>
      rw [hrest, if_neg (by simpa using hne), Option.map_map]
      congr 2
      funext i
      simp [Nat.add_mul, Nat.add_comm]

theorem at_eq {n offset : Nat} (hbounds : offset + n ≤ elf.length) (hlt : elf.length < 2 ^ 64)
    : (at_ env elf n offset).result = .ok (elf.file.add offset) := by
  have hcheck : (offset + n) % 2 ^ 64 ≤ elf.length := by omega
  unfold at_
  rw [result_bind_of_ok (a := ⟨⟩) (Env.dcheck_eq_ok.mpr (Or.inr (decide_eq_true hcheck)))]
  rfl

variable {header section_ : SectionHeader}

section IsImage

variable (h : image.IsImage env elf)

include h

theorem getElfHeader_eq : (getElfHeader env elf).result = .ok elf.file :=
  at_eq (by simpa using h.hasHeader) h.length_lt

theorem shoff_eq : (Ehdr.shoff env elf.file).result = .ok image.shoff := Env.field_of_isField h.shoff

theorem shnum_eq : (Ehdr.shnum env elf.file).result = .ok image.sections.length :=
  Env.field_of_isField h.shnum

theorem shstrndx_eq : (Ehdr.shstrndx env elf.file).result = .ok image.shstrndx :=
  Env.field_of_isField h.shstrndx

theorem end_le {i : Nat} (hi : i < image.sections.length)
    : image.shoff + i * Shdr.sizeof + Shdr.sizeof ≤ elf.length := by
  have hbounds := h.inBounds
  have hle : (i + 1) * Shdr.sizeof ≤ image.sections.length * Shdr.sizeof := by
    apply Nat.mul_le_mul_right
    omega
  rw [Nat.add_mul, Nat.one_mul] at hle
  omega

theorem getSectionByIndex_eq {i : Nat} (hi : i < image.sections.length)
    : (getSectionByIndex env elf i).result
        = .ok (elf.file.add (image.shoff + i * Shdr.sizeof)) := by
  have hend := end_le h hi
  have hlt := h.length_lt
  have hmod : (image.shoff + i * Shdr.sizeof) % 2 ^ 64 = image.shoff + i * Shdr.sizeof := by
    apply Nat.mod_eq_of_lt
    omega
  unfold getSectionByIndex
  rw [result_bind_of_ok (a := ⟨⟩)]
  . rw [result_bind_of_ok (getElfHeader_eq h), result_bind_of_ok (shoff_eq h), hmod, at_eq hend hlt]
  . apply Env.dcheckRead_of_ok
    rw [result_bind_of_ok (getElfHeader_eq h), result_bind_of_ok (shnum_eq h), decide_eq_true hi]
    rfl

theorem isAt_of_hasNames (hnames : image.HasNames env elf header)
    : header.IsAt env (elf.file.add (image.shoff + image.shstrndx * Shdr.sizeof)) :=
  h.sections image.shstrndx header hnames.found

theorem getSectionNames_eq (hnames : image.HasNames env elf header)
    : (getSectionByIndex env elf image.shstrndx).result
        = .ok (elf.file.add (image.shoff + image.shstrndx * Shdr.sizeof)) := by
  have ⟨hlt, _⟩ := List.getElem?_eq_some_iff.mp hnames.found
  apply getSectionByIndex_eq h hlt

end IsImage

theorem isTerminated_of_wellFormed {table : List UInt8} (hbytes : env.Holds p table)
    (htable : WellFormed table) : (isTerminated env p table.length).result = .ok true := by
  have hlast : table[table.length - 1]? = some 0 := by
    rw [← List.getLast?_eq_getElem?]
    exact htable.last
  have hpeek : (env.peek (p.add (table.length - 1))).result = .ok 0 :=
    Env.peek_eq_ok.mpr (hbytes.getElem? hlast)
  unfold isTerminated
  split
  . rfl
  . cases table with
    | nil => contradiction
    | cons byte table =>
      have hfirst : byte = 0 := by simpa using htable.first
      rw [result_bind_of_ok (Env.peek_eq_ok.mpr hbytes.1), if_neg (by simpa using hfirst),
        result_bind_of_ok hpeek]
      rfl

variable {table : List UInt8}

theorem validateStringTable_eq (htable : header.IsStringTable env elf table) (hat : header.IsAt env p)
    : (validateStringTable env elf p).result = .ok ⟨⟩ := by
  unfold validateStringTable
  rw [result_bind_of_ok (a := ⟨⟩), result_bind_of_ok hat.offset_eq]
  . apply Env.dcheckRead_of_ok
    rw [result_bind_of_ok hat.size_eq, htable.size]
    apply isTerminated_of_wellFormed htable.holds htable.wellFormed
  . apply Env.dcheckRead_of_ok
    rw [result_bind_of_ok hat.type_eq, decide_eq_true htable.type]
    rfl

theorem getString_eq (htable : header.IsStringTable env elf table) (hat : header.IsAt env p) {offset : Nat}
    (hoffset : offset < table.length)
    : (getString env elf p offset).result = .ok (elf.file.add (header.offset + offset)) := by
  unfold getString
  rw [result_bind_of_ok (validateStringTable_eq htable hat), result_bind_of_ok (a := ⟨⟩),
    result_bind_of_ok hat.offset_eq, Ptr.add_add]
  . rfl
  . apply Env.dcheckRead_of_ok
    rw [result_bind_of_ok hat.size_eq, htable.size, decide_eq_true hoffset]
    rfl

theorem terminated_iff_isNameAt (htable : header.IsStringTable env elf table) {offset : Nat}
    (hoffset : offset < table.length) {name : CString}
    : Dwarf.Terminated env (elf.file.add (header.offset + offset)) name.bytes
        ↔ IsNameAt table name offset := by
  have hdrop : env.Holds (elf.file.add (header.offset + offset)) (table.drop offset) := by
    have hholds := htable.holds
    rw [← List.take_append_drop offset table, Env.holds_append, Ptr.add_add,
      List.length_take_of_le (by omega)] at hholds
    exact hholds.2
  constructor
  . intro hterminated
    have ⟨other, rest, hother⟩ := StringTable.exists_isNameAt htable.wellFormed hoffset
    rw [hother] at hdrop
    have heq := Dwarf.terminated_unique ⟨(Env.holds_append.mp hdrop).1, other.nonzero⟩ hterminated
    rw [heq] at hother
    exact ⟨rest, hother⟩
  . intro ⟨rest, hrest⟩
    rw [hrest] at hdrop
    exact ⟨(Env.holds_append.mp hdrop).1, name.nonzero⟩

theorem getSectionName_eq (h : image.IsImage env elf) (hndx : image.shstrndx ≠ SHN_UNDEF)
    (hnames : image.HasNames env elf header) (hat : section_.IsAt env p)
    (hmem : section_ ∈ image.sections)
    : (getSectionName env elf p).result
        = .ok (some (elf.file.add (header.offset + section_.name))) := by
  unfold getSectionName
  rw [result_bind_of_ok (getElfHeader_eq h), result_bind_of_ok (shstrndx_eq h), if_neg hndx,
    result_bind_of_ok (getSectionNames_eq h hnames), result_bind_of_ok hat.name_eq,
    result_bind_of_ok
      (getString_eq hnames.isStringTable (isAt_of_hasNames h hnames) (hnames.names _ hmem))]
  rfl

theorem getSectionName_undef (h : image.IsImage env elf) (hndx : image.shstrndx = SHN_UNDEF)
    : (getSectionName env elf p).result = .ok none := by
  unfold getSectionName
  rw [result_bind_of_ok (getElfHeader_eq h), result_bind_of_ok (shstrndx_eq h), if_pos hndx]
  rfl

def HasName (env : Env) (elf : ElfFile) (ptr : Ptr) (name : CString) : Prop :=
  ∃ q, (getSectionName env elf ptr).result = .ok (some q) ∧ Dwarf.Terminated env q name.bytes

structure AgreesOn (env : Env) (elf : ElfFile) (image : Image) (name : CString) : Prop where
  returns : ∃ found, (getSectionByName env elf name).result = .ok found
  found_iff : (∃ ptr, (getSectionByName env elf name).result = .ok (some ptr))
    ↔ ∃ ptr, image.IsSection elf ptr ∧ HasName env elf ptr name
  hasName : ∀ ptr, (getSectionByName env elf name).result = .ok (some ptr) →
    image.IsSection elf ptr ∧ HasName env elf ptr name

theorem hasName_iff (h : image.IsImage env elf) (hat : section_.IsAt env p)
    (hmem : section_ ∈ image.sections) : HasName env elf p name ↔ image.IsNamed name section_ := by
  by_cases hndx : image.shstrndx = SHN_UNDEF
  . constructor
    . intro ⟨q, hq, _⟩
      simp [getSectionName_undef h hndx] at hq
    . intro hnamed
      exact absurd hndx hnamed.1
  . have ⟨header, hnames⟩ := h.names hndx
    have hoffset := hnames.names _ hmem
    have hname := getSectionName_eq h hndx hnames hat hmem
    have hterminated := @terminated_iff_isNameAt env elf header image.names hnames.isStringTable _ hoffset name
    constructor
    . intro ⟨q, hq, hq'⟩
      rw [hname] at hq
      injection hq with hq
      injection hq with hq
      subst hq
      exact ⟨hndx, hterminated.mp hq'⟩
    . intro ⟨_, hnamed⟩
      exact ⟨_, hname, hterminated.mpr hnamed⟩

theorem getSectionByName_undef (h : image.IsImage env elf) (hndx : image.shstrndx = SHN_UNDEF)
    : (getSectionByName env elf name).result = .ok none := by
  unfold getSectionByName
  rw [result_bind_of_ok (getElfHeader_eq h), result_bind_of_ok (shstrndx_eq h), if_pos hndx]
  rfl

theorem getSectionByName_of_findName (h : image.IsImage env elf) (hndx : image.shstrndx ≠ SHN_UNDEF)
    (hnames : image.HasNames env elf header) {offset : Nat} (hoffset : offset ≤ image.names.length)
    (hfind : (findName env name (elf.file.add header.offset)
      ((elf.file.add header.offset).add image.names.length)).result
        = .ok ((elf.file.add header.offset).add offset))
    : (getSectionByName env elf name).result
        = .ok (if offset = image.names.length then none else
          (image.sections.findIdx? (·.name = offset)).map fun i =>
            elf.file.add (image.shoff + i * Shdr.sizeof)) := by
  have hat := isAt_of_hasNames h hnames
  have ⟨hlt, _⟩ := List.getElem?_eq_some_iff.mp hnames.found
  have hfirst := end_le h (Nat.zero_lt_of_lt hlt)
  have hnames_lt := hnames.holds.length_lt
  have hfound := @findOffset_eq env (elf.file.add image.shoff) image.sections offset (by
    intro i other hother
    rw [Ptr.add_add]
    apply h.sections i other hother)
  simp only [Ptr.add_add] at hfound
  unfold getSectionByName
  rw [result_bind_of_ok (getElfHeader_eq h), result_bind_of_ok (shstrndx_eq h), if_neg hndx,
    result_bind_of_ok (getSectionNames_eq h hnames),
    result_bind_of_ok (validateStringTable_eq hnames.isStringTable hat),
    result_bind_of_ok hat.offset_eq, result_bind_of_ok hat.size_eq, hnames.size, result_bind_of_ok hfind]
  by_cases hstop : offset = image.names.length
  . rw [if_pos (by rw [hstop]), if_pos hstop]
    rfl
  . have hne : (elf.file.add header.offset).add offset
        ≠ (elf.file.add header.offset).add image.names.length := by
      intro heq
      have heq := congrArg Ptr.offset heq
      simp only [Ptr.offset_add] at heq
      omega
    rw [if_neg hne, if_neg hstop, result_bind_of_ok (shoff_eq h),
      result_bind_of_ok (at_eq (by omega) h.length_lt), result_bind_of_ok (shnum_eq h),
      StringPiece.distance_add _ (by omega)]
    exact hfound

theorem getSectionByName_of_first (h : image.IsImage env elf) (hndx : image.shstrndx ≠ SHN_UNDEF)
    {offset : Nat} (hfirst : IsFirstString image.names name offset)
    : (getSectionByName env elf name).result
        = .ok ((image.sections.findIdx? (·.name = offset)).map fun i =>
            elf.file.add (image.shoff + i * Shdr.sizeof)) := by
  have ⟨header, hnames⟩ := h.names hndx
  have ⟨before, rest, htable, hbefore, hlen⟩ := hfirst
  have hholds := hnames.holds
  rw [htable] at hholds
  have hlength := congrArg List.length htable
  simp only [List.length_append, List.length_singleton] at hlength
  have hfind := @findName_of_first env (elf.file.add header.offset) name before image.names.length
    (Env.holds_append.mp hholds).1 hbefore (by
      simp only [List.length_append, List.length_singleton]
      omega)
  rw [hlen] at hfind
  rw [getSectionByName_of_findName h hndx hnames (by omega) hfind, if_neg (by omega)]

theorem getSectionByName_of_not_mem (h : image.IsImage env elf) (hndx : image.shstrndx ≠ SHN_UNDEF)
    {strings : List CString} (htable : image.names = encodeAll strings) (hmem : name ∉ strings)
    : (getSectionByName env elf name).result = .ok none := by
  have ⟨header, hnames⟩ := h.names hndx
  have hholds := hnames.holds
  rw [htable] at hholds
  have hfind := findName_of_not_mem hholds hmem
  rw [← htable] at hfind
  rw [getSectionByName_of_findName h hndx hnames (Nat.le_refl _) hfind, if_pos rfl]

theorem getSectionByName_ok (h : image.IsImage env elf) (hndx : image.shstrndx ≠ SHN_UNDEF)
    (name : CString)
    : ∃ found, (getSectionByName env elf name).result = .ok found ∧ ∀ ptr, found = some ptr →
        ∃ i section_, image.sections[i]? = some section_
          ∧ ptr = elf.file.add (image.shoff + i * Shdr.sizeof)
          ∧ IsFirstString image.names name section_.name := by
  have ⟨header, hnames⟩ := h.names hndx
  cases exists_isFirstString hnames.wellFormed.last name with
  | inl hfirst =>
    have ⟨offset, hfirst⟩ := hfirst
    refine ⟨_, getSectionByName_of_first h hndx hfirst, ?_⟩
    intro ptr hptr
    have ⟨i, hi, heq⟩ := Option.map_eq_some_iff.mp hptr
    have ⟨hlt, hname, _⟩ := List.findIdx?_eq_some_iff_getElem.mp hi
    have hoffset : image.sections[i].name = offset := by simpa using hname
    refine ⟨i, image.sections[i], List.getElem?_eq_getElem hlt, heq.symm, ?_⟩
    rw [hoffset]
    exact hfirst
  | inr hmem =>
    have ⟨strings, htable, hmem⟩ := hmem
    refine ⟨_, getSectionByName_of_not_mem h hndx htable hmem, ?_⟩
    intro ptr hptr
    contradiction

theorem getSectionByName_of_mem (h : image.IsImage env elf) (hndx : image.shstrndx ≠ SHN_UNDEF)
    (hmem : section_ ∈ image.sections) (hfirst : IsFirstString image.names name section_.name)
    : ∃ ptr, (getSectionByName env elf name).result = .ok (some ptr) := by
  rw [getSectionByName_of_first h hndx hfirst]
  cases hfind : image.sections.findIdx? (·.name = section_.name) with
  | some i => exact ⟨_, rfl⟩
  | none =>
    have hnot := List.findIdx?_eq_none_iff.mp hfind section_ hmem
    simp at hnot

theorem agreesOn_iff (h : image.IsImage env elf) (name : CString)
    : AgreesOn env elf image name ↔ ¬image.Hides name := by
  have hsection {i : Nat} {section_ : SectionHeader} (hi : image.sections[i]? = some section_)
      : HasName env elf (elf.file.add (image.shoff + i * Shdr.sizeof)) name
          ↔ image.IsNamed name section_ :=
    hasName_iff h (h.sections i section_ hi) (List.mem_of_getElem? hi)
  by_cases hndx : image.shstrndx = SHN_UNDEF
  . have hnone := @getSectionByName_undef env elf image name h hndx
    constructor
    . intro _ ⟨⟨section_, _, hnamed⟩, _⟩
      exact hnamed.1 hndx
    . intro _
      constructor
      . exact ⟨none, hnone⟩
      . constructor
        . intro ⟨ptr, hptr⟩
          simp [hnone] at hptr
        . intro ⟨ptr, ⟨i, hi, hptr⟩, hname⟩
          rw [hptr, hsection (List.getElem?_eq_getElem hi)] at hname
          exact absurd hndx hname.1
      . intro ptr hptr
        simp [hnone] at hptr
  . have ⟨found, hfound, hfirst⟩ := getSectionByName_ok h hndx name
    constructor
    . intro hagrees ⟨⟨section_, hmem, hnamed⟩, hhidden⟩
      have ⟨i, hi⟩ := List.mem_iff_getElem?.mp hmem
      have ⟨hlt, _⟩ := List.getElem?_eq_some_iff.mp hi
      have ⟨ptr, hptr⟩ := hagrees.found_iff.mpr ⟨_, ⟨i, hlt, rfl⟩, (hsection hi).mpr hnamed⟩
      rw [hfound] at hptr
      injection hptr with hptr
      have ⟨j, other, hj, _, hother⟩ := hfirst ptr hptr
      exact hhidden ⟨hndx, other, List.mem_of_getElem? hj, hother⟩
    . intro hhides
      have hreturned : ∀ ptr, (getSectionByName env elf name).result = .ok (some ptr) →
          image.IsSection elf ptr ∧ HasName env elf ptr name := by
        intro ptr hptr
        rw [hfound] at hptr
        injection hptr with hptr
        have ⟨i, section_, hi, hptr, hname⟩ := hfirst ptr hptr
        have ⟨hlt, _⟩ := List.getElem?_eq_some_iff.mp hi
        rw [hptr, hsection hi]
        exact ⟨⟨i, hlt, rfl⟩, hndx, isNameAt_of_isFirstString hname⟩
      constructor
      . exact ⟨found, hfound⟩
      . constructor
        . intro ⟨ptr, hptr⟩
          exact ⟨ptr, hreturned ptr hptr⟩
        . intro ⟨ptr, ⟨i, hi, hptr⟩, hname⟩
          rw [hptr, hsection (List.getElem?_eq_getElem hi)] at hname
          have ⟨_, other, hother, hfirst⟩ : image.Finds name := by
            by_contra hnot
            exact hhides ⟨⟨_, List.getElem_mem hi, hname⟩, hnot⟩
          apply getSectionByName_of_mem h hndx hother hfirst
      . exact hreturned

/-! A file whose section `.text` has its name at the end of the name of `.rela.text`. -/

def null : CString := ⟨[], by decide⟩

def relaText : CString := ⟨['.', 'r', 'e', 'l', 'a', '.', 't', 'e', 'x', 't'].map Char.toUInt8, by decide⟩

def text : CString := ⟨['.', 't', 'e', 'x', 't'].map Char.toUInt8, by decide⟩

def shstrtab : CString := ⟨['.', 's', 'h', 's', 't', 'r', 't', 'a', 'b'].map Char.toUInt8, by decide⟩

def exampleImage : Image where
  shoff := 88
  shstrndx := 3
  sections := [⟨0, 0, 0, 0⟩, ⟨1, 4, 0, 0⟩, ⟨6, 1, 0, 0⟩, ⟨12, SHT_STRTAB, 64, 22⟩]
  names := encodeAll [null, relaText, shstrtab]

def exampleSection (section_ : SectionHeader) : List UInt8 :=
  toLittleEndian 4 section_.name ++ toLittleEndian 4 section_.type ++ List.replicate 16 0
    ++ toLittleEndian 8 section_.offset ++ toLittleEndian 8 section_.size ++ List.replicate 24 0

def exampleFile : List UInt8 :=
  [0x7f, 0x45, 0x4c, 0x46, 2, 1, 1] ++ List.replicate 33 0 ++ toLittleEndian 8 88
    ++ List.replicate 12 0 ++ toLittleEndian 2 4 ++ toLittleEndian 2 3
    ++ exampleImage.names ++ [0, 0] ++ exampleImage.sections.flatMap exampleSection

def exampleEnv : Env := .ofSection .debugInfo exampleFile (by decide +kernel)

def exampleElf : ElfFile := ⟨⟨.debugInfo, 0⟩, 344⟩

theorem exampleElf_isImage : exampleImage.IsImage exampleEnv exampleElf := by
  constructor
  . decide
  . decide
  . decide +kernel
  . decide +kernel
  . decide +kernel
  . decide
  . intro i section_ hi
    match i with
    | 0 | 1 | 2 | 3 =>
      injection hi with hi
      subst hi
      decide +kernel
    | i + 4 => contradiction
  . intro _
    refine ⟨⟨12, SHT_STRTAB, 64, 22⟩, rfl, rfl, by decide, by decide, by decide +kernel, ?_, by decide⟩
    exact ⟨by decide, by decide⟩

theorem not_agreesOn_tail
    : exampleImage.IsImage exampleEnv exampleElf ∧ ¬AgreesOn exampleEnv exampleElf exampleImage text := by
  apply And.intro exampleElf_isImage
  intro h
  have hname : HasName exampleEnv exampleElf ⟨.debugInfo, 216⟩ text := by
    refine ⟨⟨.debugInfo, 70⟩, ?_, ?_, text.nonzero⟩
    . decide +kernel
    . decide +kernel
  have ⟨ptr, hptr⟩ := h.found_iff.mpr ⟨_, ⟨2, by decide, rfl⟩, hname⟩
  have hnone : (getSectionByName exampleEnv exampleElf text).result = .ok none := by
    decide +kernel
  simp [hnone] at hptr

theorem agreesOn_iff_own_string : AgreesOn exampleEnv exampleElf exampleImage relaText := by
  rw [agreesOn_iff exampleElf_isImage]
  intro ⟨_, hnot⟩
  apply hnot
  refine ⟨by decide, ⟨1, 4, 0, 0⟩, by decide, [null], encodeAll [shstrtab], ?_, by decide, rfl⟩
  decide

end ElfFile

namespace Dwarf

open ElfFile

theorem getSection_ok (h : image.IsImage env elf) (name : CString)
    : ∃ body, (getSection env elf name).result = .ok body ∧ (body.isSome ↔ image.Finds name) := by
  by_cases hndx : image.shstrndx = SHN_UNDEF
  . refine ⟨none, ?_, ?_⟩
    . unfold getSection
      rw [result_bind_of_ok (getSectionByName_undef h hndx)]
      rfl
    . simp [Image.Finds, hndx]
  . have ⟨found, hfound, hfirst⟩ := getSectionByName_ok h hndx name
    unfold getSection
    rw [result_bind_of_ok hfound]
    cases found with
    | none =>
      refine ⟨none, rfl, ?_⟩
      simp only [Option.isSome_none, Bool.false_eq_true, false_iff]
      intro ⟨_, section_, hmem, hname⟩
      have ⟨ptr, hptr⟩ := getSectionByName_of_mem h hndx hmem hname
      simp [hfound] at hptr
    | some ptr =>
      have ⟨i, section_, hi, hptr, hname⟩ := hfirst ptr rfl
      have hat := h.sections i section_ hi
      rw [← hptr] at hat
      have hbody : (elf.getSectionBody env ptr).result
          = .ok ⟨elf.file.add section_.offset, section_.size⟩ := by
        unfold getSectionBody
        rw [result_bind_of_ok hat.offset_eq, result_bind_of_ok hat.size_eq]
        rfl
      dsimp only
      rw [result_bind_of_ok hbody]
      refine ⟨_, rfl, ?_⟩
      simp only [Option.isSome_some, true_iff]
      exact ⟨hndx, section_, List.mem_of_getElem? hi, hname⟩

theorem init_isSome_iff (h : image.IsImage env elf)
    : ∃ sections, (init env elf).result = .ok sections ∧ (sections.isSome ↔
        ∀ name ∈ [debugInfo, debugAbbrev, debugAranges, debugLine, debugStr], image.Finds name) := by
  have ⟨info, hinfo, hinfoIff⟩ := getSection_ok h debugInfo
  have ⟨abbrev_, habbrev, habbrevIff⟩ := getSection_ok h debugAbbrev
  have ⟨aranges, haranges, harangesIff⟩ := getSection_ok h debugAranges
  have ⟨line, hline, hlineIff⟩ := getSection_ok h debugLine
  have ⟨strings, hstrings, hstringsIff⟩ := getSection_ok h debugStr
  simp only [List.forall_mem_cons, ← hinfoIff, ← habbrevIff, ← harangesIff, ← hlineIff, ← hstringsIff]
  unfold init
  rw [result_bind_of_ok hinfo]
  cases info with
  | none => exact ⟨none, rfl, by simp⟩
  | some info =>
    dsimp only
    rw [result_bind_of_ok habbrev]
    cases abbrev_ with
    | none => exact ⟨none, rfl, by simp⟩
    | some abbrev_ =>
      dsimp only
      rw [result_bind_of_ok haranges]
      cases aranges with
      | none => exact ⟨none, rfl, by simp⟩
      | some aranges =>
        dsimp only
        rw [result_bind_of_ok hline]
        cases line with
        | none => exact ⟨none, rfl, by simp⟩
        | some line =>
          dsimp only
          rw [result_bind_of_ok hstrings]
          cases strings with
          | none => exact ⟨none, rfl, by simp⟩
          | some strings =>
            dsimp only
            rw [result_bind_of_ok hstrings]
            exact ⟨_, rfl, by simp⟩

end Dwarf
end Claire
