import ClaireCommon.Symbolizer.AddressRanges
import ClaireCommon.Symbolizer.Lemmas.LineHeader

/-!
This module contains which set of address ranges `Dwarf::FindAddress` selects for an address: a range
that starts at 0 ends the search of its set.
-/

namespace Claire
namespace Dwarf

open Bytes Traced

variable {env : Env} {address : Nat}

namespace AddressRange

def test (range : AddressRange) (address : Nat) : Bool :=
  address ≥ range.start ∧ address < (range.start + range.length) % 2 ^ 64

-- The search ends at a range that starts at 0.
def search (address : Nat) : List AddressRange → Bool
  | [] => false
  | range :: ranges =>
    if range.start = 0 then
      false
    else if range.test address then
      true
    else
      search address ranges

theorem test_iff {range : AddressRange}
    : range.test address = true
        ↔ range.Contains address ∧ range.start + range.length < 2 ^ 64 := by
  have hstartLt := range.start_lt
  have hlengthLt := range.length_lt
  unfold test Contains
  rw [decide_eq_true_eq]
  by_cases hwrap : range.start + range.length < 2 ^ 64
  . rw [Nat.mod_eq_of_lt hwrap, and_iff_left hwrap]
  . omega

-- A range of the set contains the address, and nothing keeps `FindAddress` from seeing that.
structure Visible (ranges : List AddressRange) (range : AddressRange) (address : Nat) : Prop where
  contains : range.Contains address
  no_wrap : range.start + range.length < 2 ^ 64
  no_zero_before : ∃ before after, ranges = before ++ range :: after ∧
    ∀ r ∈ before ++ [range], r.start ≠ 0

theorem search_iff {ranges : List AddressRange}
    : search address ranges = true ↔ ∃ range, Visible ranges range address := by
  induction ranges with
  | nil =>
    constructor
    . intro h
      contradiction
    . intro h
      have ⟨range, hrange⟩ := h
      have ⟨before, after, heq, _⟩ := hrange.no_zero_before
      simp at heq
  | cons first ranges ih =>
    unfold search
    constructor
    . intro h
      split at h
      . contradiction
      . next hstart =>
        split at h
        . next htest =>
          have htest := test_iff.mp htest
          refine ⟨first, htest.1, htest.2, [], ranges, rfl, ?_⟩
          simpa using hstart
        . have ⟨range, hrange⟩ := ih.mp h
          have ⟨before, after, heq, hzero⟩ := hrange.no_zero_before
          refine ⟨range, hrange.contains, hrange.no_wrap, first :: before, after, ?_, ?_⟩
          . rw [heq]
            rfl
          . rw [List.cons_append, List.forall_mem_cons]
            apply And.intro hstart hzero
    . intro h
      have ⟨range, hrange⟩ := h
      have ⟨before, after, heq, hzero⟩ := hrange.no_zero_before
      cases before with
      | nil =>
        injection heq with hfirst hranges
        have hstart : first.start ≠ 0 := by
          rw [hfirst]
          apply hzero
          simp
        rw [hfirst] at hstart ⊢
        rw [if_neg hstart, if_pos (test_iff.mpr ⟨hrange.contains, hrange.no_wrap⟩)]
      | cons b before =>
        injection heq with hfirst hranges
        rw [List.cons_append, List.forall_mem_cons] at hzero
        rw [← hfirst] at hzero
        rw [if_neg hzero.1]
        split
        . rfl
        . apply ih.mpr ⟨range, hrange.contains, hrange.no_wrap, before, after, hranges, hzero.2⟩

end AddressRange

theorem readRange {start length : Nat} {rest : List UInt8} {chunk : StringPiece}
    (hstart : start < 2 ^ 64) (hlength : length < 2 ^ 64)
    (hholds : env.Holds chunk.data (AddressRange.encode start length ++ rest))
    (hsize : 8 < chunk.size)
    : (read env 8 chunk).result = .ok (start, ⟨chunk.data.add 8, chunk.size⟩) ∧
        (read env 8 ⟨chunk.data.add 8, chunk.size⟩).result
          = .ok (length, ⟨chunk.data.add 16, chunk.size⟩) ∧
        env.Holds (chunk.data.add 16) rest := by
  have hpow : 256 ^ 8 = 2 ^ 64 := by decide
  unfold AddressRange.encode at hholds
  rw [List.append_assoc, Env.holds_append, Env.holds_append, length_toLittleEndian,
    length_toLittleEndian, Ptr.add_add] at hholds
  have hfirst := read_toLittleEndian hholds.1 (by rw [hpow]; apply hstart) hsize
  have hsecond := @read_toLittleEndian env 8 length ⟨chunk.data.add 8, chunk.size⟩ hholds.2.1
    (by rw [hpow]; apply hlength) hsize
  rw [Ptr.add_add] at hsecond
  apply And.intro hfirst ⟨hsecond, hholds.2.2⟩

theorem searchRangesRound_eq {start length : Nat} {rest : List UInt8} {chunk : StringPiece}
    (hstart : start < 2 ^ 64) (hlength : length < 2 ^ 64)
    (hholds : env.Holds chunk.data (AddressRange.encode start length ++ rest))
    (hsize : 8 < chunk.size)
    : (searchRangesRound env address chunk).result = .ok (
        if start = 0 then
          .inr false
        else if address ≥ start ∧ address < (start + length) % 2 ^ 64 then
          .inr true
        else
          .inl ⟨chunk.data.add 16, chunk.size⟩) := by
  have ⟨hfirst, hsecond, _⟩ := readRange hstart hlength hholds hsize
  unfold searchRangesRound
  rw [result_bind_of_ok hfirst, result_bind_of_ok hsecond]
  rfl

theorem loop_searchRangesRound {ranges : List AddressRange} {chunk : StringPiece} {fuel : Nat}
    {rest : List UInt8}
    (hholds : env.Holds chunk.data (AddressRange.encodeAll ranges ++ rest))
    (hsize : 8 < chunk.size) (hfuel : ranges.length < fuel)
    : (loop .stuck (searchRangesRound env address) fuel chunk).result
        = .ok (AddressRange.search address ranges) := by
  induction ranges generalizing chunk fuel with
  | nil =>
    have hround := @searchRangesRound_eq env address 0 0 rest chunk (by decide) (by decide) hholds hsize
    cases fuel with
    | zero => contradiction
    | succ fuel => apply loop_leave _ hround
  | cons range ranges ih =>
    unfold AddressRange.encodeAll at hholds
    rw [List.append_assoc] at hholds
    have hround := @searchRangesRound_eq env address _ _ _ chunk range.start_lt range.length_lt hholds
      hsize
    obtain ⟨_, _, hrest⟩ := readRange range.start_lt range.length_lt hholds hsize
    cases fuel with
    | zero => contradiction
    | succ fuel =>
      rw [List.length_cons] at hfuel
      unfold AddressRange.search AddressRange.test
      split at hround
      . next hzero => rw [loop_leave _ hround, if_pos hzero]
      . next hzero =>
        rw [if_neg hzero]
        split at hround
        . next htest => rw [loop_leave _ hround, if_pos (decide_eq_true htest)]
        . next htest =>
          rw [loop_continue _ hround, if_neg (by simpa using htest)]
          apply @ih ⟨chunk.data.add 16, chunk.size⟩ fuel hrest hsize
          omega

theorem readUnitLength_of_holds {is64Bits : Bool} {length size : Nat} {p : Ptr}
    (hlt : length < if is64Bits then 2 ^ 64 else 2 ^ 32 - 1)
    (hallows : ∀ width, width ≤ (if is64Bits then 8 else 4) →
      width ≤ size ∧ StringPiece.Allows env ⟨p, size⟩ width)
    (hholds : env.Holds p (initialLength is64Bits length))
    : ∃ initial chunk, (read env 4 ⟨p, size⟩).result = .ok (initial, chunk) ∧
        decide (initial = 2 ^ 32 - 1) = is64Bits ∧
        (Section.readUnitLength env initial is64Bits chunk).result
          = .ok (length, ⟨p.add (initialLength is64Bits length).length, size⟩) := by
  cases is64Bits with
  | false =>
    have hlt : length < 2 ^ 32 - 1 := hlt
    have ⟨hsize, hallows⟩ := hallows 4 (Nat.le_refl 4)
    have hread := @read_toLittleEndian_of_allows env 4 length ⟨p, size⟩ hholds (by omega) hsize hallows
    refine ⟨length, _, hread, ?_, ?_⟩
    . apply decide_eq_false
      omega
    . unfold initialLength
      simp [Section.readUnitLength]
  | true =>
    have ⟨hsize4, hallows4⟩ := hallows 4 (by simp)
    have ⟨hsize8, hallows8⟩ := hallows 8 (Nat.le_refl 8)
    unfold initialLength at hholds
    rw [if_pos rfl, Env.holds_append, length_toLittleEndian] at hholds
    have hinitial := @read_toLittleEndian_of_allows env 4 (2 ^ 32 - 1) ⟨p, size⟩ hholds.1 (by decide)
      hsize4 hallows4
    have hlength := @read_toLittleEndian_of_allows env 8 length ⟨p.add 4, size⟩ hholds.2
      (by simpa using hlt) hsize8 hallows8
    refine ⟨_, _, hinitial, rfl, ?_⟩
    unfold Section.readUnitLength initialLength
    rw [if_pos rfl, if_pos rfl, hlength]
    simp

-- The length is compared with the size that still counts the header.
theorem next_of_initialLength {is64Bits flag : Bool} {length size : Nat} {p : Ptr}
    (hlt : length < if is64Bits then 2 ^ 64 else 2 ^ 32 - 1)
    (hallows : ∀ width, width ≤ (if is64Bits then 8 else 4) →
      width ≤ size ∧ StringPiece.Allows env ⟨p, size⟩ width)
    (hholds : env.Holds p (initialLength is64Bits length))
    : (Section.next env ⟨flag, ⟨p, size⟩⟩).result =
        if length ≤ size then
          .ok (some ⟨p.add (initialLength is64Bits length).length, length⟩, ⟨is64Bits,
            StringPiece.assign (p.add ((initialLength is64Bits length).length + length)) (p.add size)⟩)
        else
          .error .check := by
  have ⟨initial, chunk, hinitial, his64, hlength⟩ := readUnitLength_of_holds hlt hallows hholds
  have hpos : 4 ≤ size := by
    apply (hallows 4 _).1
    split <;> omega
  unfold Section.next
  dsimp only
  rw [if_neg (by simp [StringPiece.isEmpty]; omega), result_bind_of_ok hinitial]
  dsimp only
  rw [his64, result_bind_of_ok hlength]
  dsimp only
  split
  . next hle =>
    rw [result_bind_of_ok (a := ⟨⟩) (Reader.check_eq_ok.mpr (by simpa using hle))]
    simp only [StringPiece.stop, Ptr.add_add]
    rfl
  . next hgt => simp [Reader.check, hgt]

theorem next_of_holds {is64Bits is64Bits' : Bool} {p : Ptr} {unit rest : List UInt8} {size : Nat}
    (hlt : unit.length < if is64Bits then 2 ^ 64 else 2 ^ 32 - 1) (hpos : 8 < unit.length)
    (hholds : env.Holds p (initialLength is64Bits unit.length ++ (unit ++ rest)))
    (hsize : size = (initialLength is64Bits unit.length ++ (unit ++ rest)).length)
    : (Section.next env ⟨is64Bits', ⟨p, size⟩⟩).result
        = .ok (some ⟨p.add (initialLength is64Bits unit.length).length, unit.length⟩,
            ⟨is64Bits, ⟨p.add ((initialLength is64Bits unit.length).length + unit.length),
              rest.length⟩⟩) := by
  have hsizeLt := hholds.length_lt
  rw [← hsize] at hsizeLt
  rw [List.length_append, List.length_append] at hsize
  have hrest : size - ((initialLength is64Bits unit.length).length + unit.length) = rest.length := by
    omega
  have hassign := @StringPiece.assign_add p
    ((initialLength is64Bits unit.length).length + unit.length) size (by omega) hsizeLt
  have hallows : ∀ width, width ≤ (if is64Bits then 8 else 4) →
      width ≤ size ∧ StringPiece.Allows env ⟨p, size⟩ width := by
    intro width hwidth
    have hwidth : width ≤ 8 := by
      split at hwidth <;> omega
    exact ⟨by omega, Or.inr (by dsimp only; omega)⟩
  rw [hrest] at hassign
  rw [Env.holds_append] at hholds
  rw [next_of_initialLength hlt hallows hholds.1, if_pos (by omega), hassign]

theorem skipPadding_of_remainder {start : Ptr} {s : StringPiece} {alignment n : Nat}
    (hn : 0 < n) (hremainder : StringPiece.distance start s.data % alignment = alignment - n)
    (halignment : n < alignment) (hsize : n < s.size)
    : (skipPadding env s start alignment).result = .ok ⟨s.data.add n, s.size⟩ := by
  have hsub : alignment - (alignment - n) = n := by omega
  unfold skipPadding
  rw [hremainder]
  dsimp only
  rw [if_pos (by omega), hsub,
    result_bind_of_ok (a := ⟨⟩) (Reader.check_eq_ok.mpr (by simp; omega))]
  rw [StringPiece.advance_eq_ok]
  apply And.intro (Or.inr hsize) rfl

theorem loop_searchRangesRound_rounds {ranges : List AddressRange} {chunk : StringPiece}
    {rest : List UInt8}
    (hholds : env.Holds chunk.data (AddressRange.encodeAll ranges ++ rest)) (hsize : 8 < chunk.size)
    : (loop .stuck (searchRangesRound env address) (rounds env chunk) chunk).result
        = .ok (AddressRange.search address ranges) := by
  apply loop_searchRangesRound hholds hsize
  have hlength := AddressRange.length_encodeAll ranges
  have hne : AddressRange.encodeAll ranges ≠ [] := by
    intro heq
    rw [heq] at hlength
    contradiction
  have := (Env.holds_append.mp hholds).1.end_le hne
  unfold rounds
  omega

namespace AddressRangeSet

variable {set : AddressRangeSet} {rest : List UInt8} {p : Ptr}

theorem length_unit
    : (set.header ++ (set.padding ++ AddressRange.encodeAll set.ranges)).length
        = set.unitLength := by
  simp only [List.length_append, length_header, AddressRange.length_encodeAll, unitLength]
  omega

theorem unitLength_ge : 24 ≤ set.unitLength := by
  have hpadding := set.padding_length
  unfold unitLength
  cases hbits : set.is64Bits <;> simp [hbits, offsetSize] at * <;> omega

theorem holds_parts {w : Nat} (hw : w = (initialLength set.is64Bits set.unitLength).length)
    (hholds : env.Holds p (set.encode ++ rest))
    : env.Holds (p.add w) (toLittleEndian 2 2) ∧
      env.Holds (p.add (w + 2)) (toLittleEndian (offsetSize set.is64Bits) set.debugInfoOffset) ∧
      env.Holds (p.add (w + 2 + offsetSize set.is64Bits)) (toLittleEndian 1 8) ∧
      env.Holds (p.add (w + 2 + offsetSize set.is64Bits + 1)) (toLittleEndian 1 0) ∧
      env.Holds (p.add (w + 2 + offsetSize set.is64Bits + 1 + 1 + set.padding.length))
        (AddressRange.encodeAll set.ranges ++ rest) := by
  unfold encode header at hholds
  simp only [List.append_assoc, Env.holds_append, length_toLittleEndian, Ptr.add_add, ← hw] at hholds
  have ⟨_, hversion, hoffset, haddressSize, hsegmentSize, _, hranges⟩ := hholds
  refine ⟨hversion, hoffset, haddressSize, hsegmentSize, ?_⟩
  rw [Env.holds_append, Ptr.add_add]
  apply hranges

theorem next_eq {is64Bits : Bool} {size : Nat} (hholds : env.Holds p (set.encode ++ rest))
    (hsize : size = (set.encode ++ rest).length)
    : (Section.next env ⟨is64Bits, ⟨p, size⟩⟩).result
        = .ok (some ⟨p.add (initialLength set.is64Bits set.unitLength).length, set.unitLength⟩,
            ⟨set.is64Bits, ⟨p.add set.encode.length, rest.length⟩⟩) := by
  have hlt := set.unitLength_lt
  have hge := @unitLength_ge set
  have hencode : set.encode ++ rest = initialLength set.is64Bits set.unitLength
      ++ ((set.header ++ (set.padding ++ AddressRange.encodeAll set.ranges)) ++ rest) := by
    simp [encode]
  rw [hencode, ← length_unit] at hholds hsize
  rw [length_encode, ← length_unit]
  apply next_of_holds _ _ hholds hsize
  . rw [length_unit]
    apply hlt
  . rw [length_unit]
    omega

-- Every set starts at a multiple of 16, so that its padding is the one from the section's start.
theorem skipPadding_eq (hoffset : p.offset % 16 = 0)
    : (skipPadding env
        ⟨p.add ((initialLength set.is64Bits set.unitLength).length + 2 + offsetSize set.is64Bits
          + 1 + 1), set.unitLength⟩ (debugSection env .debugAranges).data 16).result
        = .ok ⟨p.add ((initialLength set.is64Bits set.unitLength).length + 2
            + offsetSize set.is64Bits + 1 + 1 + set.padding.length), set.unitLength⟩ := by
  have hlength := set.padding_length
  have hge := @unitLength_ge set
  rw [length_initialLength]
  have hskip := @skipPadding_of_remainder env (debugSection env .debugAranges).data
    ⟨p.add ((if set.is64Bits then 12 else 4) + 2 + offsetSize set.is64Bits + 1 + 1),
      set.unitLength⟩ 16 set.padding.length
  rw [Ptr.add_add] at hskip
  apply hskip
  . split at hlength <;> omega
  . unfold StringPiece.distance sizeT debugSection offsetSize
    simp only [Ptr.offset_add]
    split at hlength <;> simp [*] <;> omega
  . split at hlength <;> omega
  . dsimp only
    split at hlength <;> omega

theorem searchSetsRound_eq {is64Bits : Bool} {size : Nat} (hoffset : p.offset % 16 = 0)
    (hholds : env.Holds p (set.encode ++ rest)) (hsize : size = (set.encode ++ rest).length)
    : (searchSetsRound env address ⟨is64Bits, ⟨p, size⟩⟩).result = .ok (
        if AddressRange.search address set.ranges then
          .inr (some set.debugInfoOffset)
        else
          .inl ⟨set.is64Bits, ⟨p.add set.encode.length, rest.length⟩⟩) := by
  have hnext := @next_eq env set rest p is64Bits size hholds hsize
  have hpadding := @skipPadding_eq env set p hoffset
  generalize hw : (initialLength set.is64Bits set.unitLength).length = w at hnext hpadding
  have hge := @unitLength_ge set
  have ⟨hversion, hinfo, haddressSize, hsegmentSize, hranges⟩ := holds_parts hw.symm hholds
  have hversion := @read_toLittleEndian env 2 2 ⟨p.add w, set.unitLength⟩ hversion (by decide)
    (by dsimp only; omega)
  have hinfo := @read_toLittleEndian env _ _ ⟨p.add (w + 2), set.unitLength⟩ hinfo
    set.debugInfoOffset_lt (by unfold offsetSize; dsimp only; split <;> omega)
  have haddressSize := @read_toLittleEndian env 1 8
    ⟨p.add (w + 2 + offsetSize set.is64Bits), set.unitLength⟩ haddressSize (by decide)
    (by dsimp only; omega)
  have hsegmentSize := @read_toLittleEndian env 1 0
    ⟨p.add (w + 2 + offsetSize set.is64Bits + 1), set.unitLength⟩ hsegmentSize (by decide)
    (by dsimp only; omega)
  have hsearch := @loop_searchRangesRound_rounds env address set.ranges
    ⟨p.add (w + 2 + offsetSize set.is64Bits + 1 + 1 + set.padding.length), set.unitLength⟩ rest
    hranges (by dsimp only; omega)
  simp only [Ptr.add_add] at hversion hinfo haddressSize hsegmentSize
  unfold searchSetsRound
  rw [result_bind_of_ok hnext]
  dsimp only
  rw [result_bind_of_ok hversion]
  dsimp only
  rw [result_bind_of_ok (a := ⟨⟩) (Reader.check_eq_ok.mpr (decide_eq_true rfl)), readOffset_eq]
  dsimp only [offsetSize] at *
  rw [result_bind_of_ok hinfo]
  dsimp only
  rw [result_bind_of_ok haddressSize]
  dsimp only
  rw [result_bind_of_ok (a := ⟨⟩) (Reader.check_eq_ok.mpr (decide_eq_true rfl)),
    result_bind_of_ok hsegmentSize]
  dsimp only
  rw [result_bind_of_ok (a := ⟨⟩) (Reader.check_eq_ok.mpr (decide_eq_true rfl)),
    result_bind_of_ok hpadding, result_bind_of_ok hsearch]
  rfl

theorem loop_searchSetsRound {sets : List AddressRangeSet} {is64Bits : Bool} {size fuel : Nat}
    (hoffset : p.offset % 16 = 0) (hholds : env.Holds p (encodeAll sets))
    (hsize : size = (encodeAll sets).length) (hfuel : sets.length < fuel)
    : (loop .stuck (searchSetsRound env address) fuel ⟨is64Bits, ⟨p, size⟩⟩).result
        = .ok ((sets.find? fun set => AddressRange.search address set.ranges).map
            (·.debugInfoOffset)) := by
  induction sets generalizing p is64Bits size fuel with
  | nil =>
    have hround : (searchSetsRound env address ⟨is64Bits, ⟨p, size⟩⟩).result = .ok (.inr none) := by
      unfold searchSetsRound Section.next
      simp [StringPiece.isEmpty, hsize, encodeAll]
    cases fuel with
    | zero => contradiction
    | succ fuel => apply loop_leave _ hround
  | cons set sets ih =>
    have hround := @searchSetsRound_eq env address set (encodeAll sets) p is64Bits size hoffset
      hholds hsize
    cases fuel with
    | zero => contradiction
    | succ fuel =>
      rw [List.length_cons] at hfuel
      rw [List.find?_cons]
      split at hround
      . next hfound =>
        rw [loop_leave _ hround, hfound]
        rfl
      . next hfound =>
        rw [loop_continue _ hround, Bool.eq_false_of_not_eq_true hfound]
        have hlength := set.length_encode_emod
        apply @ih (p.add set.encode.length) _ _ fuel _ (Env.holds_append.mp hholds).2 rfl
        . omega
        . simp only [Ptr.offset_add]
          omega

theorem length_encodeAll_ge (sets : List AddressRangeSet)
    : sets.length ≤ (encodeAll sets).length := by
  induction sets with
  | nil => apply Nat.le_refl
  | cons set sets ih =>
    have hge := @unitLength_ge set
    have hcons : encodeAll (set :: sets) = set.encode ++ encodeAll sets := rfl
    rw [hcons, List.length_append, length_encode, List.length_cons]
    omega

end AddressRangeSet

def selectSet (env : Env) (address : Nat) : Reader (Option Nat) :=
  let aranges := debugSection env .debugAranges
  Traced.loop .stuck (searchSetsRound env address) (rounds env aranges) (Section.create aranges)

def describeUnit (env : Env) (address debugInfoOffset : Nat) : Reader (Bool × LocationInfo) := do
  let unit ← readUnit env debugInfoOffset
  let info ←
    if unit.mainFileName.isEmpty then
      pure LocationInfo.empty
    else do
      let mainFile ← Path.create env unit.compilationDirectory .literal unit.mainFileName
      pure { LocationInfo.empty with hasMainFile := true, mainFile := mainFile }
  if unit.foundLineOffset then
    let lineSection ← (debugSection env .debugLine).advance env unit.lineOffset
    let vm ← LineNumberVM.create env lineSection unit.compilationDirectory
    match ← vm.findAddress env address with
    | some (file, line) =>
      return (true, { info with hasFileAndLine := true, file := file, line := line })
    | none => return (true, info)
  else
    return (true, info)

theorem findAddress_eq (env : Env) (address : Nat)
    : findAddress env address = (do
        match ← selectSet env address with
        | none => return (false, .empty)
        | some debugInfoOffset => describeUnit env address debugInfoOffset) := rfl

namespace AddressRangeSet

def Visible (set : AddressRangeSet) (address : Nat) : Prop :=
  ∃ range, AddressRange.Visible set.ranges range address

theorem Visible.contains {set : AddressRangeSet} (h : set.Visible address)
    : set.Contains address := by
  have ⟨range, hrange⟩ := h
  have ⟨before, after, heq, _⟩ := hrange.no_zero_before
  refine ⟨range, ?_, hrange.contains⟩
  rw [heq]
  simp

theorem find?_eq_none_of_not_contains {sets : List AddressRangeSet}
    (h : ∀ set ∈ sets, ¬set.Contains address)
    : sets.find? (fun set => AddressRange.search address set.ranges) = none := by
  rw [List.find?_eq_none]
  intro set hset hsearch
  apply h set hset
  apply Visible.contains
  apply AddressRange.search_iff.mp hsearch

theorem find?_of_first {before after : List AddressRangeSet} {set : AddressRangeSet}
    (h : ∀ s ∈ before, ¬s.Contains address)
    : (before ++ set :: after).find? (fun set => AddressRange.search address set.ranges)
        = (set :: after).find? (fun set => AddressRange.search address set.ranges) := by
  rw [List.find?_append, find?_eq_none_of_not_contains h]
  rfl

instance (set : AddressRangeSet) (address : Nat) : Decidable (set.Contains address) :=
  inferInstanceAs
    (Decidable (∃ range ∈ set.ranges, range.start ≤ address ∧ address < range.start + range.length))

theorem exists_first {sets : List AddressRangeSet} (h : ∃ set ∈ sets, set.Contains address)
    : ∃ before set after, sets = before ++ set :: after ∧ set.Contains address ∧
        ∀ s ∈ before, ¬s.Contains address := by
  have ⟨set, hset, hcontains⟩ := h
  cases hfind : sets.find? (fun set => decide (set.Contains address)) with
  | none =>
    have hnot := List.find?_eq_none.mp hfind set hset
    apply absurd (decide_eq_true hcontains) hnot
  | some first =>
    have ⟨hfirst, before, after, heq, hbefore⟩ := List.find?_eq_some_iff_append.mp hfind
    refine ⟨before, first, after, heq, of_decide_eq_true hfirst, ?_⟩
    intro s hs
    simpa using hbefore s hs

end AddressRangeSet

theorem selectSet_eq {sets : List AddressRangeSet}
    (hcontent : (env.mapping .debugAranges).content = AddressRangeSet.encodeAll sets)
    : (selectSet env address).result
        = .ok ((sets.find? fun set => AddressRange.search address set.ranges).map
            (·.debugInfoOffset)) := by
  have hmapped : env.mapped .debugAranges
      = [] ++ AddressRangeSet.encodeAll sets ++ (env.mapping .debugAranges).behind := by
    rw [List.nil_append, ← hcontent]
    rfl
  have hlength := AddressRangeSet.length_encodeAll_ge sets
  unfold selectSet Section.create debugSection
  dsimp only
  rw [hcontent]
  apply AddressRangeSet.loop_searchSetsRound (Nat.zero_mod 16) (Env.holds_of_mapped hmapped) rfl
  unfold rounds
  rw [hmapped]
  simp
  omega

structure IsFirst (sets before : List AddressRangeSet) (set : AddressRangeSet)
    (after : List AddressRangeSet) (address : Nat) : Prop where
  sets_eq : sets = before ++ set :: after
  contains : set.Contains address
  not_before : ∀ s ∈ before, ¬s.Contains address

structure SearchedCompletely (env : Env) (sets : List AddressRangeSet) (address : Nat) : Prop where
  selects : ∀ before set after, IsFirst sets before set after address →
    (selectSet env address).result = .ok (some set.debugInfoOffset) ∧
      (findAddress env address).result = (describeUnit env address set.debugInfoOffset).result
  none_iff : (selectSet env address).result = .ok none ↔ ∀ set ∈ sets, ¬set.Contains address
  not_found : (∀ set ∈ sets, ¬set.Contains address) →
    (findAddress env address).result = .ok (false, .empty)

-- Where the first set does not show the address, a later one for the same unit has to.
def ShowsAddress (sets : List AddressRangeSet) (address : Nat) : Prop :=
  ∀ before set after, IsFirst sets before set after address →
    set.Visible address ∨
    ∃ hidden other rest, after = hidden ++ other :: rest ∧ (∀ s ∈ hidden, ¬s.Visible address) ∧
      other.Visible address ∧ other.debugInfoOffset = set.debugInfoOffset

theorem find?_eq_some_of_showsAddress {sets before after : List AddressRangeSet}
    {set : AddressRangeSet} (h : ShowsAddress sets address)
    (hfirst : IsFirst sets before set after address)
    : (sets.find? fun set => AddressRange.search address set.ranges).map (·.debugInfoOffset)
        = some set.debugInfoOffset := by
  rw [hfirst.sets_eq, AddressRangeSet.find?_of_first hfirst.not_before, List.find?_cons]
  split
  . rfl
  . next hsearch =>
    cases h before set after hfirst with
    | inl hvisible =>
      rw [AddressRange.search_iff.mpr hvisible] at hsearch
      contradiction
    | inr hlater =>
      have ⟨hidden, other, rest, heq, hhidden, hvisible, hoffset⟩ := hlater
      have hfind : after.find? (fun set => AddressRange.search address set.ranges) = some other := by
        rw [List.find?_eq_some_iff_append]
        refine ⟨AddressRange.search_iff.mpr hvisible, hidden, rest, heq, ?_⟩
        intro s hs
        have hnot := mt AddressRange.search_iff.mp (hhidden s hs)
        simpa using hnot
      rw [hfind, Option.map_some, hoffset]

theorem searchedCompletely_iff {sets : List AddressRangeSet}
    (hcontent : (env.mapping .debugAranges).content = AddressRangeSet.encodeAll sets)
    : SearchedCompletely env sets address ↔ ShowsAddress sets address := by
  have hselect := @selectSet_eq env address sets hcontent
  constructor
  . intro h before set after hfirst
    have hselects := (h.selects before set after hfirst).1
    rw [hselect, hfirst.sets_eq, AddressRangeSet.find?_of_first hfirst.not_before,
      List.find?_cons] at hselects
    split at hselects
    . next hsearch => apply Or.inl (AddressRange.search_iff.mp hsearch)
    . injection hselects with hselects
      have ⟨other, hfind, hoffset⟩ := Option.map_eq_some_iff.mp hselects
      have ⟨hsearch, hidden, rest, heq, hhidden⟩ := List.find?_eq_some_iff_append.mp hfind
      refine Or.inr ⟨hidden, other, rest, heq, ?_, AddressRange.search_iff.mp hsearch, hoffset⟩
      intro s hs hvisible
      have hnot := hhidden s hs
      rw [AddressRange.search_iff.mpr hvisible] at hnot
      contradiction
  . intro h
    have hsome {before after : List AddressRangeSet} {set : AddressRangeSet}
        (hfirst : IsFirst sets before set after address)
        : (selectSet env address).result = .ok (some set.debugInfoOffset) := by
      rw [hselect, find?_eq_some_of_showsAddress h hfirst]
    have hnone (hnot : ∀ set ∈ sets, ¬set.Contains address)
        : (selectSet env address).result = .ok none := by
      rw [hselect, AddressRangeSet.find?_eq_none_of_not_contains hnot]
      rfl
    constructor
    . intro before set after hfirst
      apply And.intro (hsome hfirst)
      rw [findAddress_eq, result_bind_of_ok (hsome hfirst)]
    . constructor
      . intro hselected set hset hcontains
        have ⟨before, first, after, heq, hfirst, hbefore⟩ :=
          AddressRangeSet.exists_first ⟨set, hset, hcontains⟩
        rw [hsome ⟨heq, hfirst, hbefore⟩] at hselected
        simp at hselected
      . apply hnone
    . intro hnot
      rw [findAddress_eq, result_bind_of_ok (hnone hnot)]
      rfl

/-! A set with the ranges of a discarded section and of a function. -/

def discardedRange : AddressRange := ⟨0, 0x10, by decide, by decide, by decide⟩

def functionRange : AddressRange := ⟨0x1000, 0x100, by decide, by decide, by decide⟩

theorem exampleSet_fits {ranges : List AddressRange} (h : ranges.length ≤ 2)
    : 2 + offsetSize false + 2 + 4 + 16 * (ranges.length + 1) < 2 ^ 32 - 1 := by
  simp [offsetSize]
  omega

def exampleSet (ranges : List AddressRange) (h : ranges.length ≤ 2) : AddressRangeSet where
  is64Bits := false
  debugInfoOffset := 0x2a
  padding := [0, 0, 0, 0]
  ranges := ranges
  debugInfoOffset_lt := by decide
  padding_length := rfl
  unitLength_lt := exampleSet_fits h

def discardedSet : AddressRangeSet := exampleSet [discardedRange, functionRange] (by decide)

def functionSet : AddressRangeSet := exampleSet [functionRange, discardedRange] (by decide)

theorem not_searchedCompletely_discarded
    : ∃ h, ¬SearchedCompletely
        (.ofSection .debugAranges (AddressRangeSet.encodeAll [discardedSet]) h) [discardedSet] 0x1010
    := by
  refine ⟨by decide, ?_⟩
  intro h
  have hselected := h.none_iff.mp (by decide +kernel) discardedSet List.mem_cons_self
  apply hselected
  decide

theorem searchedCompletely_iff_function
    : ∃ h, SearchedCompletely
        (.ofSection .debugAranges (AddressRangeSet.encodeAll [functionSet]) h) [functionSet] 0x1010
    := by
  refine ⟨by decide, ?_⟩
  apply (searchedCompletely_iff rfl).mpr
  intro before set after hfirst
  have hset : set = functionSet := by
    have hmem : set ∈ [functionSet] := by
      rw [hfirst.sets_eq]
      simp
    apply List.mem_singleton.mp hmem
  apply Or.inl
  rw [hset]
  apply Exists.intro functionRange
  refine ⟨⟨by decide, by decide⟩, by decide, [], [discardedRange], rfl, ?_⟩
  simp [functionRange]

end Dwarf
end Claire
