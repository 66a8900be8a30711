import ClaireCommon.Lib.Obeys
import ClaireCommon.Symbolizer.ElfContent
import ClaireCommon.Symbolizer.Impl.ElfInit
import ClaireCommon.Symbolizer.Lemmas.Elf

/-!
This module contains what a lookup in an ELF file needs to stay inside the file, step by step: the fields
of headers, sections by their index and strings in string tables.
-/

namespace Claire

open Traced

variable {env : Env} {block : Block} {α : Type}

def ElfFile.ofBlock (env : Env) (block : Block) : ElfFile :=
  ⟨⟨block, 0⟩, (env.mapping block).content.length⟩

-- Accesses inside the file only, until the end or until a check stops
def Inside (env : Env) (block : Block) : Reader α → Prop :=
  Obeys (fun event => ∀ p, event = .access p → p.block = block ∧ p.offset < (env.mapping block).content.length)
    (· = .check)

theorem inside_bind {β : Type} {x : Reader α} {f : α → Reader β}
    : Inside env block (x >>= f)
        ↔ Inside env block x ∧ ∀ a, x.result = .ok a → Inside env block (f a) :=
  obeys_bind

namespace ElfContent

variable {n offset : Nat}

@[simp]
theorem file_add : (ElfFile.ofBlock env block).file.add offset = ⟨block, offset⟩ := by
  simp [ElfFile.ofBlock, Ptr.add]

@[simp]
theorem ptr_add {m : Nat} : (⟨block, offset⟩ : Ptr).add m = ⟨block, offset + m⟩ := rfl

theorem getElem?_mapped (h : offset < (env.mapping block).content.length)
    : (env.mapped block)[offset]? = (env.mapping block).content[offset]? :=
  List.getElem?_append_left h

theorem peek_eq (h : offset < (env.mapping block).content.length)
    : (env.peek ⟨block, offset⟩).result = .ok (env.mapping block).content[offset] := by
  rw [Env.peek_eq_ok, getElem?_mapped h, List.getElem?_eq_getElem h]

theorem inside_peek : Inside env block (env.peek ⟨block, offset⟩) ↔ (of env block).InFile 1 offset := by
  constructor
  . intro h
    exact (h.log (.access ⟨block, offset⟩) (Env.mem_log_peek.mpr rfl) _ rfl).2
  . intro h
    constructor
    . intro event hevent p hp
      rw [Env.mem_log_peek, hp] at hevent
      injection hevent with hevent
      rw [hevent]
      exact ⟨rfl, h⟩
    . intro e he
      rw [peek_eq h] at he
      contradiction

theorem holds_of_inFile (h : (of env block).InFile n offset)
    : env.Holds ⟨block, offset⟩ (((env.mapping block).content.drop offset).take n) := by
  have hsplit : env.mapped block = (env.mapping block).content.take offset
      ++ ((env.mapping block).content.drop offset).take n
      ++ (((env.mapping block).content.drop offset).drop n ++ (env.mapping block).behind) := by
    rw [List.append_assoc, ← List.append_assoc (List.take n _), List.take_append_drop,
      ← List.append_assoc, List.take_append_drop]
    rfl
  have hholds := Env.holds_of_mapped hsplit
  have hle : offset ≤ (env.mapping block).content.length := Nat.le_of_add_right_le h
  rw [List.length_take_of_le hle] at hholds
  exact hholds

theorem length_of_inFile (h : (of env block).InFile n offset)
    : (((env.mapping block).content.drop offset).take n).length = n := by
  rw [List.length_take, List.length_drop]
  unfold InFile of at h
  dsimp only at h
  omega

theorem peekMany_eq (h : (of env block).InFile n offset)
    : (env.peekMany ⟨block, offset⟩ n).result
        = .ok (((env.mapping block).content.drop offset).take n) :=
  Env.peekMany_eq_ok.mpr ⟨length_of_inFile h, holds_of_inFile h⟩

theorem inside_peekMany (hpos : 0 < n)
    : Inside env block (env.peekMany ⟨block, offset⟩ n) ↔ (of env block).InFile n offset := by
  constructor
  . intro h
    induction n generalizing offset with
    | zero => contradiction
    | succ n ih =>
      unfold Env.peekMany at h
      rw [inside_bind] at h
      have hfirst := inside_peek.mp h.1
      cases n with
      | zero => exact hfirst
      | succ n =>
        have hrest := h.2 _ (peek_eq hfirst)
        rw [inside_bind] at hrest
        have htail := @ih (offset + 1) (Nat.zero_lt_succ n) hrest.1
        unfold InFile at htail ⊢
        omega
  . intro h
    constructor
    . intro event hevent p hp
      obtain ⟨i, hi, heq⟩ := Env.mem_log_peekMany hevent
      rw [hp] at heq
      injection heq with heq
      rw [heq]
      refine ⟨rfl, ?_⟩
      unfold InFile of at h
      dsimp only [ptr_add] at h ⊢
      omega
    . intro e he
      rw [peekMany_eq h] at he
      contradiction

theorem field_eq (h : (of env block).InFile n offset)
    : (env.field n ⟨block, offset⟩).result = .ok ((of env block).field n offset) := by
  unfold Env.field
  rw [result_bind_of_ok (peekMany_eq h)]
  rfl

variable {f : Nat → Reader α} {g : PUnit → Reader α}

theorem inside_field (hpos : 0 < n)
    : Inside env block (env.field n ⟨block, offset⟩) ↔ (of env block).InFile n offset := by
  unfold Env.field
  rw [inside_bind]
  constructor
  . intro h
    exact (inside_peekMany hpos).mp h.1
  . intro h
    exact ⟨(inside_peekMany hpos).mpr h, fun _ _ => obeys_pure _⟩

theorem inside_field_bind (hpos : 0 < n)
    : Inside env block (env.field n ⟨block, offset⟩ >>= f)
        ↔ (of env block).InFile n offset ∧ Inside env block (f ((of env block).field n offset)) := by
  constructor
  . intro h
    have ⟨hfield, hrest⟩ := inside_bind.mp h
    have hin := (inside_field hpos).mp hfield
    exact ⟨hin, hrest _ (field_eq hin)⟩
  . intro ⟨hin, hrest⟩
    exact (obeys_bind_of_ok ((inside_field hpos).mpr hin) (field_eq hin)).mpr hrest

theorem inside_dcheck_bind {condition : Bool}
    : Inside env block (env.dcheck condition >>= g)
        ↔ (env.ndebug = true ∨ condition = true → Inside env block (g ⟨⟩)) := by
  by_cases hpasses : env.ndebug = true ∨ condition = true
  . have hpure : env.dcheck condition = pure ⟨⟩ := by
      unfold Env.dcheck
      rw [if_pos (by simpa using hpasses)]
    rw [hpure, Traced.pure_bind]
    simp [hpasses]
  . have hstop : env.dcheck condition = stop .check := by
      unfold Env.dcheck
      rw [if_neg (by simpa using hpasses)]
    rw [hstop, stop_bind]
    simp [hpasses, Inside]

theorem inside_dcheckRead_bind {condition : Reader Bool}
    : Inside env block (env.dcheckRead condition >>= g)
        ↔ (env.ndebug = false → Inside env block condition)
          ∧ (env.ndebug = true ∨ condition.result = .ok true → Inside env block (g ⟨⟩)) := by
  unfold Env.dcheckRead
  cases hndebug : env.ndebug with
  | true =>
    rw [if_pos rfl, Traced.pure_bind]
    simp
  | false =>
    rw [if_neg (by decide)]
    rw [inside_bind, inside_bind]
    constructor
    . rintro ⟨⟨hcondition, _⟩, hrest⟩
      refine ⟨fun _ => hcondition, ?_⟩
      intro h
      have htrue : condition.result = .ok true := by simpa using h
      exact hrest ⟨⟩ (bind_eq_ok.mpr ⟨true, htrue, rfl⟩)
    . rintro ⟨hcondition, hrest⟩
      refine ⟨⟨hcondition rfl, ?_⟩, ?_⟩
      . intro holds _
        cases holds <;> simp [Reader.check, Inside]
      . intro u hu
        obtain ⟨holds, hholds, hcheck⟩ := bind_eq_ok.mp hu
        rw [Reader.check_eq_ok] at hcheck
        subst hcheck
        exact hrest (Or.inr hholds)

theorem inside_at_bind {f : Ptr → Reader α}
    : Inside env block (ElfFile.at_ env (.ofBlock env block) n offset >>= f)
        ↔ ((of env block).Passes n offset → Inside env block (f ⟨block, offset⟩)) := by
  unfold ElfFile.at_
  rw [bind_bind, inside_dcheck_bind, decide_eq_true_iff, Traced.pure_bind, file_add]
  rfl

theorem at_eq_ok {p : Ptr} : (ElfFile.at_ env (.ofBlock env block) n offset).result = .ok p
    ↔ (of env block).Passes n offset ∧ p = ⟨block, offset⟩ := by
  unfold ElfFile.at_ Passes
  simp only [bind_eq_ok, Env.dcheck_eq_ok, decide_eq_true_iff, result_pure, Except.ok.injEq, file_add]
  constructor
  . intro ⟨_, hpasses, hp⟩
    exact ⟨hpasses, hp.symm⟩
  . intro ⟨hpasses, hp⟩
    exact ⟨⟨⟩, hpasses, hp.symm⟩

theorem dcheckRead_eq_ok {condition : Reader Bool} {u : PUnit}
    : (env.dcheckRead condition).result = .ok u
        ↔ env.ndebug = true ∨ condition.result = .ok true := by
  unfold Env.dcheckRead
  cases hndebug : env.ndebug with
  | true => simp
  | false =>
    rw [if_neg (by decide), bind_eq_ok]
    simp only [Reader.check_eq_ok]
    constructor
    . intro ⟨holds, hholds, htrue⟩
      rw [htrue] at hholds
      exact Or.inr hholds
    . intro h
      exact ⟨true, by simpa using h, rfl⟩

section Header

variable (hheader : (of env block).InFile Ehdr.sizeof 0)

include hheader

theorem passes_header : (of env block).Passes Ehdr.sizeof 0 := by
  have hle : Ehdr.sizeof ≤ (of env block).bytes.length := by simpa [InFile] using hheader
  exact Or.inr (by simpa [Ehdr.sizeof] using hle)

theorem inFile_header (h : offset + n ≤ Ehdr.sizeof) : (of env block).InFile n offset := by
  unfold InFile at hheader ⊢
  omega

theorem inside_getElfHeader_bind {f : Ptr → Reader α}
    : Inside env block (ElfFile.getElfHeader env (.ofBlock env block) >>= f)
        ↔ Inside env block (f ⟨block, 0⟩) := by
  unfold ElfFile.getElfHeader
  rw [inside_at_bind]
  simp [passes_header hheader]

theorem getElfHeader_eq_ok
    : (ElfFile.getElfHeader env (.ofBlock env block)).result = .ok ⟨block, 0⟩ := by
  unfold ElfFile.getElfHeader
  rw [at_eq_ok]
  exact ⟨passes_header hheader, rfl⟩

theorem inside_shoff_bind
    : Inside env block (Ehdr.shoff env ⟨block, 0⟩ >>= f)
        ↔ Inside env block (f (of env block).shoff) := by
  have hin : (of env block).InFile 8 40 := inFile_header hheader (by decide)
  unfold Ehdr.shoff
  rw [ptr_add, Nat.zero_add, inside_field_bind (by decide)]
  simp [hin, shoff]

theorem shoff_eq_ok : (Ehdr.shoff env ⟨block, 0⟩).result = .ok (of env block).shoff :=
  field_eq (inFile_header hheader (by decide : 40 + 8 ≤ Ehdr.sizeof))

theorem inside_shnum_bind
    : Inside env block (Ehdr.shnum env ⟨block, 0⟩ >>= f)
        ↔ Inside env block (f (of env block).shnum) := by
  have hin : (of env block).InFile 2 60 := inFile_header hheader (by decide)
  unfold Ehdr.shnum
  rw [ptr_add, Nat.zero_add, inside_field_bind (by decide)]
  simp [hin, shnum]

theorem shnum_eq_ok : (Ehdr.shnum env ⟨block, 0⟩).result = .ok (of env block).shnum :=
  field_eq (inFile_header hheader (by decide : 60 + 2 ≤ Ehdr.sizeof))

theorem inside_shstrndx_bind
    : Inside env block (Ehdr.shstrndx env ⟨block, 0⟩ >>= f)
        ↔ Inside env block (f (of env block).shstrndx) := by
  have hin : (of env block).InFile 2 62 := inFile_header hheader (by decide)
  unfold Ehdr.shstrndx
  rw [ptr_add, Nat.zero_add, inside_field_bind (by decide)]
  simp [hin, shstrndx]

theorem checksIndex_eq_ok {i : Nat} {holds : Bool} : ((do
      let header ← ElfFile.getElfHeader env (.ofBlock env block)
      let shnum ← Ehdr.shnum env header
      return decide (i < shnum)) : Reader Bool).result = .ok holds
        ↔ decide (i < (of env block).shnum) = holds := by
  rw [result_bind_of_ok (getElfHeader_eq_ok hheader), result_bind_of_ok (shnum_eq_ok hheader),
    result_pure, Except.ok.injEq]

theorem inside_getSectionByIndex_bind {i : Nat} {f : Ptr → Reader α}
    : Inside env block (ElfFile.getSectionByIndex env (.ofBlock env block) i >>= f)
        ↔ ((of env block).IndexPasses i →
          Inside env block (f ⟨block, (of env block).indexed i⟩)) := by
  have hchecks : Inside env block (do
      let shnum ← Ehdr.shnum env ⟨block, 0⟩
      return decide (i < shnum)) := by
    rw [inside_shnum_bind hheader]
    exact obeys_pure _
  unfold ElfFile.getSectionByIndex
  rw [bind_bind, inside_dcheckRead_bind, checksIndex_eq_ok hheader, decide_eq_true_iff]
  simp only [bind_bind, inside_getElfHeader_bind hheader, inside_shoff_bind hheader, inside_at_bind]
  unfold IndexPasses
  constructor
  . intro ⟨_, h⟩ ⟨hindex, hpasses⟩
    exact h hindex hpasses
  . intro h
    exact ⟨fun _ => hchecks, fun hindex hpasses => h ⟨hindex, hpasses⟩⟩

theorem getSectionByIndex_eq_ok {i : Nat} {p : Ptr}
    : (ElfFile.getSectionByIndex env (.ofBlock env block) i).result = .ok p
        ↔ (of env block).IndexPasses i ∧ p = ⟨block, (of env block).indexed i⟩ := by
  unfold ElfFile.getSectionByIndex
  rw [bind_eq_ok]
  simp only [dcheckRead_eq_ok, checksIndex_eq_ok hheader, decide_eq_true_iff]
  rw [result_bind_of_ok (getElfHeader_eq_ok hheader), result_bind_of_ok (shoff_eq_ok hheader), at_eq_ok]
  unfold IndexPasses
  constructor
  . intro ⟨_, hindex, hpasses, hp⟩
    exact ⟨⟨hindex, hpasses⟩, hp⟩
  . intro ⟨⟨hindex, hpasses⟩, hp⟩
    exact ⟨⟨⟩, hindex, hpasses, hp⟩

end Header

variable {t : Nat}

theorem inFile_one : (of env block).InFile 1 offset ↔ ∃ byte, (of env block).bytes[offset]? = some byte := by
  constructor
  . intro h
    exact ⟨_, List.getElem?_eq_getElem h⟩
  . intro ⟨byte, hbyte⟩
    have ⟨hlt, _⟩ := List.getElem?_eq_some_iff.mp hbyte
    exact hlt

theorem inside_peek_bind {f : UInt8 → Reader α} {byte : UInt8}
    (hbyte : (of env block).bytes[offset]? = some byte)
    : Inside env block (env.peek ⟨block, offset⟩ >>= f) ↔ Inside env block (f byte) := by
  have ⟨hlt, heq⟩ := List.getElem?_eq_some_iff.mp hbyte
  have hpeek := peek_eq hlt
  rw [← heq]
  exact obeys_bind_of_ok (inside_peek.mpr hlt) hpeek

theorem peek_of_byte {byte : UInt8} (hbyte : (of env block).bytes[offset]? = some byte)
    : (env.peek ⟨block, offset⟩).result = .ok byte := by
  have ⟨hlt, heq⟩ := List.getElem?_eq_some_iff.mp hbyte
  rw [← heq]
  exact peek_eq hlt

theorem inside_isTerminated {size : Nat}
    : Inside env block (ElfFile.isTerminated env ⟨block, offset⟩ size)
        ↔ (size ≠ 0 → (of env block).InFile 1 offset
          ∧ ((of env block).bytes[offset]? = some 0 →
            (of env block).InFile 1 (offset + (size - 1)))) := by
  unfold ElfFile.isTerminated
  split
  next hzero =>
    refine iff_of_true (obeys_pure _) ?_
    intro hne
    contradiction
  next hsize =>
    constructor
    . intro h _
      have hfirst := inside_peek.mp (inside_bind.mp h).1
      refine ⟨hfirst, ?_⟩
      intro hbyte
      rw [inside_peek_bind hbyte, if_neg (by decide)] at h
      exact inside_peek.mp (inside_bind.mp h).1
    . intro h
      have ⟨hfirst, hlast⟩ := h hsize
      have ⟨byte, hbyte⟩ := inFile_one.mp hfirst
      rw [inside_peek_bind hbyte]
      split
      next => exact obeys_pure _
      next hzero =>
        rw [not_not.mp hzero] at hbyte
        exact inside_bind.mpr ⟨inside_peek.mpr (hlast hbyte), fun _ _ => obeys_pure _⟩

theorem isTerminated_eq_ok {size : Nat}
    (h : Inside env block (ElfFile.isTerminated env ⟨block, offset⟩ size))
    : (ElfFile.isTerminated env ⟨block, offset⟩ size).result = .ok true
        ↔ size = 0 ∨ (of env block).bytes[offset]? = some 0
          ∧ (of env block).bytes[offset + (size - 1)]? = some 0 := by
  have hreads := inside_isTerminated.mp h
  unfold ElfFile.isTerminated
  split
  next hzero => simp [hzero]
  next hsize =>
    have ⟨hfirst, hlast⟩ := hreads hsize
    have ⟨byte, hbyte⟩ := inFile_one.mp hfirst
    rw [result_bind_of_ok (peek_of_byte hbyte), hbyte]
    split
    next hne => simp [hsize, hne]
    next hzero =>
      have hzero := not_not.mp hzero
      rw [hzero] at hbyte
      have ⟨last, hlastByte⟩ := inFile_one.mp (hlast hbyte)
      rw [ptr_add, result_bind_of_ok (peek_of_byte hlastByte), hlastByte]
      simp [hsize, hzero]

theorem inside_type_bind : Inside env block (Shdr.type env ⟨block, t⟩ >>= f)
    ↔ (of env block).InFile 4 (t + 4) ∧ Inside env block (f ((of env block).shType t)) :=
  inside_field_bind (by decide)

theorem inside_offset_bind : Inside env block (Shdr.offset env ⟨block, t⟩ >>= f)
    ↔ (of env block).InFile 8 (t + 24) ∧ Inside env block (f ((of env block).shOffset t)) :=
  inside_field_bind (by decide)

theorem inside_size_bind : Inside env block (Shdr.size env ⟨block, t⟩ >>= f)
    ↔ (of env block).InFile 8 (t + 32) ∧ Inside env block (f ((of env block).shSize t)) :=
  inside_field_bind (by decide)

theorem type_eq_ok (h : (of env block).InFile 4 (t + 4))
    : (Shdr.type env ⟨block, t⟩).result = .ok ((of env block).shType t) := field_eq h

theorem offset_eq_ok (h : (of env block).InFile 8 (t + 24))
    : (Shdr.offset env ⟨block, t⟩).result = .ok ((of env block).shOffset t) := field_eq h

theorem size_eq_ok (h : (of env block).InFile 8 (t + 32))
    : (Shdr.size env ⟨block, t⟩).result = .ok ((of env block).shSize t) := field_eq h

theorem inside_link_bind : Inside env block (Shdr.link env ⟨block, t⟩ >>= f)
    ↔ (of env block).InFile 4 (t + 40) ∧ Inside env block (f ((of env block).shLink t)) :=
  inside_field_bind (by decide)

theorem link_eq_ok (h : (of env block).InFile 4 (t + 40))
    : (Shdr.link env ⟨block, t⟩).result = .ok ((of env block).shLink t) := field_eq h

theorem inside_entsize_bind : Inside env block (Shdr.entsize env ⟨block, t⟩ >>= f)
    ↔ (of env block).InFile 8 (t + 56) ∧ Inside env block (f ((of env block).shEntsize t)) :=
  inside_field_bind (by decide)

theorem entsize_eq_ok (h : (of env block).InFile 8 (t + 56))
    : (Shdr.entsize env ⟨block, t⟩).result = .ok ((of env block).shEntsize t) := field_eq h

theorem inside_validateStringTable_bind
    : Inside env block (ElfFile.validateStringTable env (.ofBlock env block) ⟨block, t⟩ >>= g)
        ↔ (of env block).ValidateReadable t
          ∧ ((of env block).ValidPasses t → Inside env block (g ⟨⟩)) := by
  unfold ElfFile.validateStringTable ValidateReadable ValidPasses
  rw [bind_bind, inside_dcheckRead_bind, inside_type_bind, bind_bind, inside_offset_bind, file_add,
    inside_dcheckRead_bind, inside_size_bind]
  change _ ↔ ((env.ndebug = false → _) ∧ (env.ndebug = true ∨ _ → _ ∧ (env.ndebug = false → _)))
    ∧ (env.ndebug = true ∨ _ → _)
  cases hndebug : env.ndebug with
  | true => simp
  | false =>
    simp only [true_implies, Bool.false_eq_true, false_or]
    constructor
    . intro ⟨⟨htype, _⟩, h⟩
      rw [result_bind_of_ok (type_eq_ok htype), result_pure, Except.ok.injEq, decide_eq_true_iff] at h
      refine ⟨⟨htype, ?_⟩, ?_⟩
      . intro hstrtab
        have ⟨hoffset, ⟨hsize, hterminated⟩, _⟩ := h hstrtab
        exact ⟨hoffset, hsize, inside_isTerminated.mp hterminated⟩
      . intro ⟨hstrtab, hvalid⟩
        have ⟨hoffset, ⟨hsize, hterminated⟩, hrest⟩ := h hstrtab
        rw [result_bind_of_ok (size_eq_ok hsize), isTerminated_eq_ok hterminated] at hrest
        exact hrest hvalid
    . intro ⟨⟨htype, hreads⟩, hrest⟩
      rw [result_bind_of_ok (type_eq_ok htype), result_pure, Except.ok.injEq, decide_eq_true_iff]
      refine ⟨⟨htype, obeys_pure _⟩, ?_⟩
      intro hstrtab
      have ⟨hoffset, hsize, hterminated⟩ := hreads hstrtab
      have hterminated := inside_isTerminated.mpr hterminated
      refine ⟨hoffset, ⟨hsize, hterminated⟩, ?_⟩
      rw [result_bind_of_ok (size_eq_ok hsize), isTerminated_eq_ok hterminated]
      intro hvalid
      exact hrest ⟨hstrtab, hvalid⟩

theorem validateStringTable_eq_ok (h : (of env block).ValidateReadable t)
    : (ElfFile.validateStringTable env (.ofBlock env block) ⟨block, t⟩).result = .ok ⟨⟩
        ↔ (of env block).ValidPasses t := by
  unfold ElfFile.validateStringTable
  unfold ValidateReadable at h
  unfold ValidPasses
  change (env.ndebug = false → _) ∧ (env.ndebug = true ∨ _ → _ ∧ (env.ndebug = false → _)) at h
  change _ ↔ env.ndebug = true ∨ _
  simp only [bind_eq_ok, dcheckRead_eq_ok, file_add]
  cases hndebug : env.ndebug with
  | true =>
    rw [hndebug] at h
    simp [offset_eq_ok (h.2 (Or.inl rfl)).1]
  | false =>
    rw [hndebug] at h
    simp only [true_implies, Bool.false_eq_true, false_or] at h ⊢
    have ⟨htype, hreads⟩ := h
    simp only [type_eq_ok htype, Except.ok.injEq, exists_eq_left', result_pure, decide_eq_true_iff]
    by_cases hstrtab : (of env block).shType t = SHT_STRTAB
    . have ⟨hoffset, hsize, hterminated⟩ := hreads hstrtab
      simp [hstrtab, offset_eq_ok hoffset, size_eq_ok hsize,
        isTerminated_eq_ok (inside_isTerminated.mpr hterminated)]
    . simp [hstrtab]

theorem inFile_offset_of_validateReadable (h : (of env block).ValidateReadable t)
    (hvalid : (of env block).ValidPasses t) : (of env block).InFile 8 (t + 24) := by
  apply (h.2 _).1
  cases hvalid with
  | inl hndebug => exact Or.inl hndebug
  | inr hvalid => exact Or.inr hvalid.1

theorem inFile_size_of_validateReadable (h : (of env block).ValidateReadable t)
    (hvalid : (of env block).ValidPasses t) (hndebug : env.ndebug = false)
    : (of env block).InFile 8 (t + 32) := by
  apply ((h.2 _).2 hndebug).1
  cases hvalid with
  | inl hndebug => exact Or.inl hndebug
  | inr hvalid => exact Or.inr hvalid.1

theorem inside_getString_bind {o : Nat} {f : Ptr → Reader α}
    : Inside env block (ElfFile.getString env (.ofBlock env block) ⟨block, t⟩ o >>= f)
        ↔ (of env block).ValidateReadable t
          ∧ ((of env block).StringPasses t o →
            Inside env block (f ⟨block, (of env block).shOffset t + o⟩)) := by
  have hcheck (hin : (of env block).InFile 8 (t + 32)) : (Shdr.size env ⟨block, t⟩ >>= fun size =>
      (pure (decide (o < size)) : Reader Bool)).result = .ok true ↔ o < (of env block).shSize t := by
    rw [result_bind_of_ok (size_eq_ok hin), result_pure, Except.ok.injEq, decide_eq_true_iff]
  unfold ElfFile.getString StringPasses
  rw [bind_bind, inside_validateStringTable_bind, bind_bind, inside_dcheckRead_bind, inside_size_bind,
    bind_bind, inside_offset_bind, Traced.pure_bind, file_add, ptr_add]
  constructor
  . intro ⟨hreadable, h⟩
    refine ⟨hreadable, ?_⟩
    intro ⟨hvalid, hoffset⟩
    apply ((h hvalid).2 _).2
    cases hndebug : env.ndebug with
    | true => exact Or.inl rfl
    | false =>
      have hin := inFile_size_of_validateReadable hreadable hvalid hndebug
      rw [hcheck hin]
      have hoffset : env.ndebug = true ∨ o < (of env block).shSize t := hoffset
      simpa [hndebug] using hoffset
  . intro ⟨hreadable, h⟩
    refine ⟨hreadable, ?_⟩
    intro hvalid
    refine ⟨?_, ?_⟩
    . intro hndebug
      exact ⟨inFile_size_of_validateReadable hreadable hvalid hndebug, obeys_pure _⟩
    . intro hpasses
      refine ⟨inFile_offset_of_validateReadable hreadable hvalid, h ⟨hvalid, ?_⟩⟩
      cases hndebug : env.ndebug with
      | true => exact Or.inl hndebug
      | false =>
        have hin := inFile_size_of_validateReadable hreadable hvalid hndebug
        rw [hcheck hin, hndebug] at hpasses
        exact Or.inr (by simpa using hpasses)

theorem getString_eq_ok {o : Nat} {p : Ptr} (h : (of env block).ValidateReadable t)
    : (ElfFile.getString env (.ofBlock env block) ⟨block, t⟩ o).result = .ok p
        ↔ (of env block).StringPasses t o ∧ p = ⟨block, (of env block).shOffset t + o⟩ := by
  have hvalidate := validateStringTable_eq_ok h
  unfold ElfFile.getString StringPasses
  by_cases hvalid : (of env block).ValidPasses t
  . rw [result_bind_of_ok (hvalidate.mpr hvalid), bind_eq_ok]
    simp only [dcheckRead_eq_ok]
    rw [result_bind_of_ok (offset_eq_ok (inFile_offset_of_validateReadable h hvalid))]
    change (∃ _, (env.ndebug = true ∨ _) ∧ _) ↔ (_ ∧ (env.ndebug = true ∨ _)) ∧ _
    cases hndebug : env.ndebug with
    | true => simp [hvalid, eq_comm]
    | false =>
      rw [result_bind_of_ok (size_eq_ok (inFile_size_of_validateReadable h hvalid hndebug))]
      simp [hvalid, eq_comm]
  . rw [bind_eq_ok]
    refine iff_of_false ?_ (by simp [hvalid])
    intro ⟨u, hu, _⟩
    exact hvalid (hvalidate.mp hu)

theorem inside_strcmp {bytes : List UInt8}
    : Inside env block (env.strcmp ⟨block, offset⟩ bytes)
        ↔ ¬(of env block).bytes.drop offset <+: bytes := by
  induction bytes generalizing offset with
  | nil =>
    have hin : (of env block).InFile 1 offset ↔ ¬(of env block).bytes.drop offset <+: [] := by
      rw [List.prefix_nil, List.drop_eq_nil_iff, Nat.not_le]
      rfl
    rw [← hin, ← inside_peek]
    unfold Env.strcmp
    rw [inside_bind]
    exact and_iff_left fun _ _ => obeys_pure _
  | cons c bytes ih =>
    unfold Env.strcmp
    cases hbyte : (of env block).bytes[offset]? with
    | none =>
      have hnil : (of env block).bytes.drop offset = [] :=
        List.drop_eq_nil_iff.mpr (List.getElem?_eq_none_iff.mp hbyte)
      rw [hnil]
      refine iff_of_false ?_ (by simp)
      intro h
      obtain ⟨byte, hsome⟩ := inFile_one.mp (inside_peek.mp (inside_bind.mp h).1)
      simp [hbyte] at hsome
    | some byte =>
      obtain ⟨hlt, heq⟩ := List.getElem?_eq_some_iff.mp hbyte
      rw [inside_peek_bind hbyte, List.drop_eq_getElem_cons hlt, heq, List.cons_prefix_cons]
      split
      next hc =>
        rw [ptr_add, ih]
        simp [hc]
      next hne => exact iff_of_true (obeys_pure _) (by simp [hne])

theorem not_prefix_of_terminated (name : CString) (h : (of env block).Terminated offset)
    : ¬(of env block).bytes.drop offset <+: name.bytes := by
  intro hbegins
  exact name.nonzero (hbegins.subset h)

theorem strcmp_of_long {bytes : List UInt8} (hlong : (of env block).bytes.length ≤ offset + bytes.length)
    (h : Inside env block (env.strcmp ⟨block, offset⟩ bytes))
    : (env.strcmp ⟨block, offset⟩ bytes).result = .ok true := by
  induction bytes generalizing offset with
  | nil =>
    rw [inside_strcmp, List.prefix_nil, List.drop_eq_nil_iff] at h
    contradiction
  | cons c bytes ih =>
    unfold Env.strcmp at h ⊢
    obtain ⟨byte, hbyte⟩ := inFile_one.mp (inside_peek.mp (inside_bind.mp h).1)
    rw [inside_peek_bind hbyte] at h
    rw [result_bind_of_ok (peek_of_byte hbyte)]
    split
    next hc =>
      rw [if_pos hc, ptr_add] at h
      rw [ptr_add]
      apply ih _ h
      rw [List.length_cons] at hlong
      omega
    next hne => rfl

end ElfContent
end Claire
