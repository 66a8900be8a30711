import ClaireCommon.Symbolizer.Lemmas.AddressRanges
import ClaireCommon.Symbolizer.Lemmas.Sections
import ClaireCommon.Symbolizer.SectionUnits

/-!
This module contains for which byte strings `Dwarf::Section::Next` returns the bodies of the units in
them and nothing else: `Next` compares a length with the size before the header was read.
-/

namespace Claire
namespace Dwarf

open Bytes Traced

variable {env : Env} {p : Ptr} {is64Bits flag : Bool}

-- `Next` was called until here, with these chunks.
inductive Chunks (env : Env) : Section → List StringPiece → Section → Prop
  | nil (section_ : Section) : Chunks env section_ [] section_
  | cons {section_ section' last : Section} {chunk : StringPiece} {chunks : List StringPiece}
      (hnext : (section_.next env).result = .ok (some chunk, section'))
      (hrest : Chunks env section' chunks last) : Chunks env section_ (chunk :: chunks) last

def Ends (env : Env) (section_ : Section) : Prop :=
  (section_.next env).result = .error .check ∨
    ∃ section', (section_.next env).result = .ok (none, section')

structure Tiles (env : Env) (p : Ptr) (bytes : List UInt8) : Prop where
  ends : ∃ chunks last, Chunks env (Section.create ⟨p, bytes.length⟩) chunks last ∧ Ends env last
  -- The units before the place, and the bytes from there on
  tiles : ∀ chunks last, Chunks env (Section.create ⟨p, bytes.length⟩) chunks last →
    ∃ units rest, bytes = SectionUnit.encodeAll units ++ rest ∧
      chunks = SectionUnit.bodies p units ∧
      last.data = ⟨p.add (SectionUnit.encodeAll units).length, rest.length⟩ ∧
      (∀ section', (last.next env).result = .ok (none, section') → rest = []) ∧
      ∀ is64Bits length tail, length < lengthBound is64Bits → tail.length < length →
        rest = initialLength is64Bits length ++ tail → (last.next env).result = .error .check

theorem allows_of_ndebug {size : Nat} (hndebug : env.ndebug = true)
    (hsize : (if is64Bits then 8 else 4) ≤ size) (width : Nat) (hwidth : width ≤ if is64Bits then 8 else 4)
    : width ≤ size ∧ StringPiece.Allows env ⟨p, size⟩ width :=
  ⟨Nat.le_trans hwidth hsize, Or.inl hndebug⟩

theorem length_initialLength_ge {length : Nat} {rest : List UInt8}
    : (if is64Bits then 8 else 4) ≤ (initialLength is64Bits length ++ rest).length := by
  cases is64Bits <;> simp [initialLength]
  omega

theorem next_of_unit {unit : SectionUnit} {rest : List UInt8} (hndebug : env.ndebug = true)
    (hholds : env.Holds p (unit.encode ++ rest))
    : (Section.next env ⟨flag, ⟨p, (unit.encode ++ rest).length⟩⟩).result
        = .ok (some ⟨p.add unit.header.length, unit.body.length⟩,
            ⟨unit.is64Bits, ⟨p.add unit.encode.length, rest.length⟩⟩) := by
  have hsizeLt := hholds.length_lt
  have hencode : unit.encode ++ rest
      = initialLength unit.is64Bits unit.body.length ++ (unit.body ++ rest) := by
    simp [SectionUnit.encode, SectionUnit.header]
  have hlength : (unit.encode ++ rest).length
      = unit.header.length + unit.body.length + rest.length := by
    simp [SectionUnit.encode]
    omega
  have hassign := @StringPiece.assign_add p (unit.header.length + unit.body.length)
    (unit.encode ++ rest).length (by omega) hsizeLt
  rw [hencode, Env.holds_append] at hholds
  rw [next_of_initialLength unit.length_lt (allows_of_ndebug hndebug _) hholds.1]
  . rw [if_pos (by omega)]
    unfold SectionUnit.header at hassign hlength
    rw [hassign]
    have hrest : (unit.encode ++ rest).length
        - ((initialLength unit.is64Bits unit.body.length).length + unit.body.length)
          = rest.length := by omega
    rw [hrest]
    unfold SectionUnit.encode SectionUnit.header
    rw [List.length_append]
  . rw [hencode]
    apply length_initialLength_ge

theorem next_of_nil : (Section.next env ⟨flag, ⟨p, 0⟩⟩).result = .ok (none, ⟨flag, ⟨p, 0⟩⟩) := by
  unfold Section.next
  simp [StringPiece.isEmpty]

theorem next_of_truncated {bytes : List UInt8} (h : Truncated bytes) (hndebug : env.ndebug = true)
    (hholds : env.Holds p bytes)
    : (Section.next env ⟨flag, ⟨p, bytes.length⟩⟩).result = .error .check := by
  cases h with
  | initial hne hfour =>
    have hread := @read_eq_stop env 4 ⟨p, bytes.length⟩ hfour
    unfold Section.next
    simp [StringPiece.isEmpty, hne, hread]
  | @header rest hfour =>
    have hlen : (toLittleEndian 4 (2 ^ 32 - 1) ++ rest).length = 4 + rest.length := by simp
    rw [Env.holds_append] at hholds
    have hinitial := @read_toLittleEndian_of_allows env 4 (2 ^ 32 - 1) ⟨p, 4 + rest.length⟩ hholds.1
      (by decide) (Nat.le_add_right 4 _) (Or.inl hndebug)
    have hread := @read_eq_stop env 8 ⟨p.add 4, 4 + rest.length⟩ (by dsimp only; omega)
    rw [hlen]
    unfold Section.next Section.readUnitLength
    dsimp only
    rw [if_neg (by simp [StringPiece.isEmpty]), result_bind_of_ok hinitial]
    simp [hread]
  | @length is64Bits length rest hlt hlong =>
    have hholds := (Env.holds_append.mp hholds).1
    rw [next_of_initialLength hlt (allows_of_ndebug hndebug length_initialLength_ge) hholds, if_neg]
    rw [List.length_append]
    omega

theorem next_cases {bytes : List UInt8} (hndebug : env.ndebug = true) (hholds : env.Holds p bytes)
    (h : ¬Overrun bytes)
    : (bytes = [] ∧
        (Section.next env ⟨flag, ⟨p, bytes.length⟩⟩).result = .ok (none, ⟨flag, ⟨p, bytes.length⟩⟩)) ∨
      (∃ (unit : SectionUnit) (rest : List UInt8), bytes = unit.encode ++ rest ∧
        (Section.next env ⟨flag, ⟨p, bytes.length⟩⟩).result
          = .ok (some ⟨p.add unit.header.length, unit.body.length⟩,
              ⟨unit.is64Bits, ⟨p.add unit.encode.length, rest.length⟩⟩)) ∨
      (Section.next env ⟨flag, ⟨p, bytes.length⟩⟩).result = .error .check := by
  cases bytes_cases bytes with
  | inl hnil =>
    rw [hnil]
    apply Or.inl (And.intro rfl next_of_nil)
  | inr hcases =>
    apply Or.inr
    cases hcases with
    | inl hunit =>
      have ⟨unit, rest, heq⟩ := hunit
      subst heq
      apply Or.inl
      exact ⟨unit, rest, rfl, next_of_unit hndebug hholds⟩
    | inr hcases =>
      cases hcases with
      | inl hoverrun => contradiction
      | inr htruncated =>
        apply Or.inr
        apply next_of_truncated htruncated hndebug hholds

theorem not_overrun {bytes : List UInt8} (h : ¬Overruns bytes) : ¬Overrun bytes := by
  intro hoverrun
  apply h
  exact ⟨[], bytes, rfl, hoverrun⟩

theorem not_overruns_rest {unit : SectionUnit} {rest : List UInt8} (h : ¬Overruns (unit.encode ++ rest))
    : ¬Overruns rest := by
  intro hrest
  apply h
  apply overruns_append hrest

theorem not_overruns_append {units : List SectionUnit} {rest : List UInt8}
    (h : ¬Overruns (SectionUnit.encodeAll units ++ rest)) : ¬Overruns rest := by
  induction units with
  | nil => exact h
  | cons unit units ih =>
    rw [SectionUnit.encodeAll_cons, List.append_assoc] at h
    apply ih
    apply not_overruns_rest h

theorem units_of_chunks {bytes : List UInt8} {section_ last : Section}
    {chunks : List StringPiece} (hndebug : env.ndebug = true) (hholds : env.Holds p bytes)
    (hoverruns : ¬Overruns bytes) (hdata : section_.data = ⟨p, bytes.length⟩)
    (h : Chunks env section_ chunks last)
    : ∃ units rest, bytes = SectionUnit.encodeAll units ++ rest ∧
        chunks = SectionUnit.bodies p units ∧
        last.data = ⟨p.add (SectionUnit.encodeAll units).length, rest.length⟩ := by
  induction h generalizing bytes p with
  | nil section_ => exact ⟨[], bytes, rfl, rfl, hdata⟩
  | @cons section_ section' last chunk chunks hnext hrest ih =>
    have ⟨flag, data⟩ := section_
    dsimp only at hdata
    subst hdata
    cases @next_cases env p flag bytes hndebug hholds (not_overrun hoverruns) with
    | inl hnil =>
      rw [hnil.2] at hnext
      injection hnext with hnext
      injection hnext with hchunk
      contradiction
    | inr hcases =>
      cases hcases with
      | inl hunit =>
        have ⟨unit, rest, heq, hunit⟩ := hunit
        subst heq
        rw [hnext] at hunit
        injection hunit with hunit
        injection hunit with hchunk hsection
        injection hchunk with hchunk
        subst hchunk hsection
        rw [Env.holds_append] at hholds
        have ⟨units, tail, heq, hchunks, hdata⟩ := ih hholds.2 (not_overruns_rest hoverruns) rfl
        refine ⟨unit :: units, tail, ?_, ?_, ?_⟩
        . rw [SectionUnit.encodeAll_cons, List.append_assoc, ← heq]
        . rw [hchunks]
          rfl
        . rw [hdata, SectionUnit.encodeAll_cons, List.length_append, Ptr.add_add]
      | inr hcheck =>
        rw [hcheck] at hnext
        contradiction

theorem SectionUnit.length_encode_pos (unit : SectionUnit) : 0 < unit.encode.length := by
  have hge := @length_initialLength_ge unit.is64Bits unit.body.length unit.body
  unfold encode header
  split at hge <;> omega

-- By the length: every unit has a header.
theorem ends_of_not_overruns {p : Ptr} {bytes : List UInt8} {section_ : Section} (hndebug : env.ndebug = true)
    (hholds : env.Holds p bytes) (hoverruns : ¬Overruns bytes)
    (hdata : section_.data = ⟨p, bytes.length⟩)
    : ∃ chunks last, Chunks env section_ chunks last ∧ Ends env last := by
  have ⟨flag, data⟩ := section_
  dsimp only at hdata
  subst hdata
  cases @next_cases env p flag bytes hndebug hholds (not_overrun hoverruns) with
  | inl hnil => exact ⟨[], _, .nil _, Or.inr ⟨_, hnil.2⟩⟩
  | inr hcases =>
    cases hcases with
    | inl hunit =>
      have ⟨unit, rest, heq, hnext⟩ := hunit
      subst heq
      rw [Env.holds_append] at hholds
      have ⟨chunks, last, hchunks, hends⟩ := @ends_of_not_overruns (p.add unit.encode.length) rest
        ⟨unit.is64Bits, ⟨p.add unit.encode.length, rest.length⟩⟩ hndebug hholds.2
        (not_overruns_rest hoverruns) rfl
      exact ⟨_ :: chunks, last, .cons hnext hchunks, hends⟩
    | inr hcheck => exact ⟨[], _, .nil _, Or.inl hcheck⟩
termination_by bytes.length
decreasing_by
  have := unit.length_encode_pos
  rw [heq, List.length_append]
  omega

theorem tiles_of_not_overruns {bytes : List UInt8} (hndebug : env.ndebug = true)
    (hholds : env.Holds p bytes) (hoverruns : ¬Overruns bytes) : Tiles env p bytes := by
  constructor
  . apply ends_of_not_overruns hndebug hholds hoverruns rfl
  . intro chunks last h
    have ⟨units, rest, heq, hchunks, hdata⟩ := units_of_chunks hndebug hholds hoverruns rfl h
    subst heq
    have hrest := not_overrun (not_overruns_append hoverruns)
    have hholds := (Env.holds_append.mp hholds).2
    have ⟨flag, data⟩ := last
    dsimp only at hdata
    subst hdata
    refine ⟨units, rest, rfl, hchunks, rfl, ?_, ?_⟩
    . intro section' hnone
      cases @next_cases env _ flag rest hndebug hholds hrest with
      | inl hnil => exact hnil.1
      | inr hcases =>
        cases hcases with
        | inl hunit =>
          have ⟨unit, tail, _, hnext⟩ := hunit
          rw [hnext] at hnone
          injection hnone with hnone
          injection hnone with hchunk
          contradiction
        | inr hcheck =>
          rw [hcheck] at hnone
          contradiction
    . intro is64Bits length tail hlt hlong heq
      subst heq
      apply next_of_truncated _ hndebug hholds
      apply Truncated.length hlt
      apply Nat.lt_of_not_le
      intro hclose
      apply hrest
      apply Overrun.length hlt hlong
      omega

-- Only the bytes are mapped, the asserts are compiled out.
def memoryOf (bytes : List UInt8) (h : bytes.length < 2 ^ 64) : Env :=
  { Env.ofSection .debugAranges bytes h with ndebug := true }

def start : Ptr := ⟨.debugAranges, 0⟩

theorem mapped_memoryOf {bytes : List UInt8} (h : bytes.length < 2 ^ 64)
    : (memoryOf bytes h).mapped .debugAranges = bytes := by
  simp [memoryOf, Env.ofSection, Env.mapped]

theorem holds_memoryOf {bytes : List UInt8} (h : bytes.length < 2 ^ 64)
    : (memoryOf bytes h).Holds start bytes := by
  have hmapped : (memoryOf bytes h).mapped .debugAranges = [] ++ bytes ++ [] := by
    rw [mapped_memoryOf]
    simp
  apply Env.holds_of_mapped hmapped

theorem Chunks.append {section_ section' last : Section} {chunks chunks' : List StringPiece}
    (h : Chunks env section_ chunks section') (h' : Chunks env section' chunks' last)
    : Chunks env section_ (chunks ++ chunks') last := by
  induction h with
  | nil section_ => exact h'
  | cons hnext hrest ih => exact .cons hnext (ih h')

theorem chunks_of_units {units : List SectionUnit} {rest : List UInt8} {section_ : Section}
    (hndebug : env.ndebug = true) (hholds : env.Holds p (SectionUnit.encodeAll units ++ rest))
    (hdata : section_.data = ⟨p, (SectionUnit.encodeAll units ++ rest).length⟩)
    : ∃ last, Chunks env section_ (SectionUnit.bodies p units) last ∧
        last.data = ⟨p.add (SectionUnit.encodeAll units).length, rest.length⟩ := by
  induction units generalizing p section_ with
  | nil => exact ⟨section_, .nil section_, hdata⟩
  | cons unit units ih =>
    have ⟨flag, data⟩ := section_
    dsimp only at hdata
    subst hdata
    rw [SectionUnit.encodeAll_cons, List.append_assoc] at *
    have hnext := @next_of_unit env p flag unit _ hndebug hholds
    rw [Env.holds_append] at hholds
    have ⟨last, hchunks, hdata⟩ := @ih (p.add unit.encode.length) ⟨unit.is64Bits, _⟩ hholds.2 rfl
    refine ⟨last, .cons hnext hchunks, ?_⟩
    rw [hdata, List.length_append, Ptr.add_add]

theorem not_ends_of_fault {section_ section' last : Section} {chunks chunks' : List StringPiece}
    (h : Chunks env section_ chunks section') (hfault : (section'.next env).result = .error .fault)
    (h' : Chunks env section_ chunks' last) : ¬Ends env last := by
  intro hends
  induction h generalizing chunks' with
  | nil section_ =>
    cases h' with
    | nil =>
      unfold Ends at hends
      rw [hfault] at hends
      simp at hends
    | cons hnext hrest =>
      rw [hfault] at hnext
      contradiction
  | cons hnext hrest ih =>
    cases h' with
    | nil =>
      unfold Ends at hends
      rw [hnext] at hends
      simp at hends
    | cons hnext' hrest' =>
      rw [hnext] at hnext'
      injection hnext' with hnext'
      injection hnext' with _ hsection
      subst hsection
      apply ih hfault hrest'

-- The header of a unit, less than 12 bytes before the end
theorem next_of_cut_header {bytes : List UInt8} (h : bytes.length < 2 ^ 64) {n size : Nat}
    (hholds : (memoryOf bytes h).Holds (start.add n) (toLittleEndian 4 (2 ^ 32 - 1)))
    (hend : n + size = bytes.length) (height : 8 ≤ size) (htwelve : size < 12)
    : (Section.next (memoryOf bytes h) ⟨flag, ⟨start.add n, size⟩⟩).result = .error .fault := by
  have hinitial := @read_toLittleEndian_of_allows _ 4 (2 ^ 32 - 1) ⟨start.add n, size⟩ hholds
    (by decide) (by dsimp only; omega) (Or.inl rfl)
  have hmapped := mapped_memoryOf h
  have hpeek : ((memoryOf bytes h).peekMany ((start.add n).add 4) 8).result = .error .fault := by
    apply Env.peekMany_eq_fault
    . simp only [Ptr.block_add, Ptr.offset_add, start, hmapped]
      omega
    . simp only [Ptr.block_add, Ptr.offset_add, start, hmapped]
      omega
  have hlength : (read (memoryOf bytes h) 8 ⟨(start.add n).add 4, size⟩).result = .error .fault := by
    unfold read
    rw [result_bind_of_ok (a := ⟨⟩) (Reader.check_eq_ok.mpr (by simpa using height)),
      (bind_of_error hpeek _).1]
  unfold Section.next Section.readUnitLength
  dsimp only
  rw [if_neg (by simp [StringPiece.isEmpty]; omega), result_bind_of_ok hinitial]
  dsimp only
  rw [if_pos (decide_eq_true rfl), (bind_of_error hlength _).1]

theorem not_tiles_of_overruns {bytes : List UInt8} (hlt : bytes.length < 2 ^ 64) (h : Overruns bytes)
    : ¬Tiles (memoryOf bytes hlt) start bytes := by
  intro htiles
  obtain ⟨units, rest, heq, hoverrun⟩ := h
  have hholds : (memoryOf bytes hlt).Holds start (SectionUnit.encodeAll units ++ rest) := by
    have hbytes := holds_memoryOf hlt
    generalize memoryOf bytes hlt = env at *
    rw [← heq]
    apply hbytes
  obtain ⟨⟨flag, data⟩, hchunks, hdata⟩ := @chunks_of_units (memoryOf bytes hlt) start units rest
    (Section.create ⟨start, bytes.length⟩) rfl hholds (by rw [← heq]; rfl)
  dsimp only at hdata
  subst hdata
  rw [Env.holds_append] at hholds
  have hlength := congrArg List.length heq
  rw [List.length_append] at hlength
  cases hoverrun with
  | @length is64Bits length rest hbound hlong hclose =>
    rw [List.length_append] at hlength
    have hnext := @next_of_initialLength (memoryOf bytes hlt) is64Bits flag length
      (initialLength is64Bits length ++ rest).length (start.add (SectionUnit.encodeAll units).length)
      hbound (allows_of_ndebug rfl length_initialLength_ge) (Env.holds_append.mp hholds.2).1
    rw [if_pos (by rw [List.length_append]; omega)] at hnext
    -- The next place is behind the last byte.
    obtain ⟨units', rest', heq', _, hdata', _⟩ := htiles.tiles _ _ (hchunks.append (.cons hnext (.nil _)))
    have hlength' := congrArg List.length heq'
    rw [List.length_append] at hlength'
    have hoffset := congrArg (fun s => s.data.offset) hdata'
    simp only [StringPiece.assign, Ptr.offset_add] at hoffset
    omega
  | @header rest hfour height =>
    have hsize : (toLittleEndian 4 (2 ^ 32 - 1) ++ rest).length = 4 + rest.length := by simp
    have hfault := @next_of_cut_header flag bytes hlt (SectionUnit.encodeAll units).length
      (toLittleEndian 4 (2 ^ 32 - 1) ++ rest).length (Env.holds_append.mp hholds.2).1
      hlength.symm (by omega) (by omega)
    obtain ⟨chunks, last, hlast, hends⟩ := htiles.ends
    apply not_ends_of_fault hchunks hfault hlast hends

theorem tiles_iff {bytes : List UInt8} (hlt : bytes.length < 2 ^ 64)
    : (∀ env p, env.ndebug = true → env.Holds p bytes → Tiles env p bytes) ↔ ¬Overruns bytes := by
  constructor
  . intro htiles hoverruns
    apply not_tiles_of_overruns hlt hoverruns
    apply htiles _ _ rfl (holds_memoryOf hlt)
  . intro hoverruns env p hndebug hholds
    apply tiles_of_not_overruns hndebug hholds hoverruns

theorem tiles_iff_unitOfOneByte
    : (∀ env p, env.ndebug = true → env.Holds p [1, 0, 0, 0, 9] → Tiles env p [1, 0, 0, 0, 9])
        ↔ ¬Overruns [1, 0, 0, 0, 9] := tiles_iff (by decide)

-- A length of 1 and no byte behind it
theorem not_tiles_lengthOfOne
    : ¬∀ env p, env.ndebug = true → env.Holds p [1, 0, 0, 0] → Tiles env p [1, 0, 0, 0] := by
  have hoverrun : Overrun (initialLength false 1 ++ []) := by
    apply Overrun.length
    . simp [lengthBound]
    . simp
    . simp [initialLength]
  have hoverruns : Overruns [1, 0, 0, 0] := ⟨[], _, rfl, hoverrun⟩
  intro htiles
  apply not_tiles_of_overruns (by decide) hoverruns
  apply htiles _ _ rfl (holds_memoryOf _)

end Dwarf
end Claire
