import ClaireCommon.Symbolizer.Lemmas.CompileUnits
import ClaireCommon.Symbolizer.Lemmas.FindAddress
import ClaireCommon.Symbolizer.Lemmas.LineOpening

/-!
This module contains the correctness of `Dwarf::FindAddress` over all sections: from the address ranges
over the unit and its abbreviation to the line number information and the paths.
-/

namespace Claire
namespace Dwarf

open Bytes Traced

variable {env : Env} {unit : CompileUnit} {address : Nat}

theorem LineHeader.covered_of_lookup {header : LineHeader} {sequences : List LineSequence} {row : Registers}
    (h : header.lookup sequences address = some row)
    : ∃ sequence ∈ sequences, IsCovered address (header.sequenceRows sequence) := by
  unfold LineHeader.lookup at h
  have ⟨rows, hfind, _⟩ := Option.bind_eq_some_iff.mp h
  have ⟨sequence, hsequence, hrows⟩ := List.mem_map.mp (List.mem_of_find?_eq_some hfind)
  refine ⟨sequence, hsequence, ?_⟩
  rw [hrows]
  have hcovered := List.find?_some hfind
  exact of_decide_eq_true hcovered

theorem LineNumberVM.exists_create_of_linesAt {offset : Nat} {header : LineHeader}
    {sequences : List LineSequence} (h : LinesAt env offset header sequences) (piece : StringPiece)
    : ∃ lineSection vm, ((debugSection env .debugLine).advance env offset).result = .ok lineSection
        ∧ (create env lineSection piece).result = .ok vm
        ∧ vm.Opened env header ⟨.debugLine, offset⟩ ∧ vm.compilationDirectory = piece := by
  have ⟨bytes, program, hencodes, _, hhas, hlength, hend⟩ := h.lines
  have hholds := (Env.holds_append.mp hhas.holds).1
  have hle := hhas.le_size
  rw [List.length_append] at hle
  have hpos : 0 < bytes.length := by
    cases hencodes with
    | mk _ hdirs _ =>
      have := DirectoryTable.length_pos hdirs
      simp only [List.length_append]
      omega
  have hsize : (debugSection env .debugLine).size < 2 ^ 64 := by
    have hlt := (env.mapping .debugLine).length_lt
    simp only [debugSection]
    rw [List.length_append] at hlt
    omega
  rcases exists_create hencodes hholds (Nat.le_of_eq hlength) (by omega) (by omega) hsize piece
    with ⟨vm, hcreate⟩
  rcases opened_of_create hcreate with ⟨header', bytes', hencodes', hholds', hopened, hdirectory⟩
  have hheader := header_unique hencodes' hencodes hholds' hholds
  subst hheader
  exact ⟨_, vm, hhas.advance (by rw [List.length_append]; omega), hcreate, hopened, hdirectory⟩

theorem LineNumberVM.findAddress_of_linesAt {vm : LineNumberVM} {offset : Nat} {header : LineHeader}
    {sequences : List LineSequence} {row : Registers} {file : FileEntry}
    {dir compilationDirectory : List UInt8}
    (hlines : LinesAt env offset header sequences) (h : vm.Opened env header ⟨.debugLine, offset⟩)
    (hlookup : header.lookup sequences address = some row) (hfile : header.file row.file = some file)
    (hdir : header.directory file.directoryIndex = some dir)
    (hcovers : vm.compilationDirectory.Covers env compilationDirectory)
    : ∃ path, (vm.findAddress env address).result = .ok (some (path, row.line))
        ∧ path.Covers env (PathText.create ⟨compilationDirectory, dir, file.name⟩) := by
  have ⟨bytes, program, _, hprogram, hhas, hlength, hend⟩ := hlines.lines
  have hholds := (Env.holds_append.mp hhas.holds).2
  rw [hlength] at hholds
  have ⟨row', hlookup', hresult⟩ := findAddress_of_lookup h hlines.lineRange hprogram hholds hend
    (LineHeader.covered_of_lookup hlookup)
  rw [hlookup] at hlookup'
  injection hlookup' with hrow
  subst hrow
  have hfinds : Finds env (found env vm row.file row.line).result vm.compilationDirectory dir file.name
      row.line :=
    finds_of_opened h hfile hdir
  have ⟨dirPiece, namePiece, hdirPiece, hnamePiece, hfound⟩ := hfinds.found
  have hparts : Path.Covers env ⟨vm.compilationDirectory, dirPiece, namePiece⟩
      ⟨compilationDirectory, dir, file.name⟩ := ⟨hcovers, hdirPiece, hnamePiece⟩
  have ⟨path, hpath, hpathCovers⟩ := Path.create_covers hparts
  refine ⟨path, ?_, hpathCovers⟩
  rw [hresult, hfound, hpath]
  rfl

structure Located (env : Env) (unit : CompileUnit) (place : Option Place) (info : LocationInfo) : Prop where
  hasMainFile : info.hasMainFile = decide (unit.name ≠ [])
  mainFile : unit.name ≠ []
    → info.mainFile.Covers env (PathText.create ⟨unit.compilationDirectory, [], unit.name⟩)
  hasFileAndLine : info.hasFileAndLine = place.isSome
  fileAndLine : ∀ p ∈ place, info.line = p.line
    ∧ info.file.Covers env (PathText.create ⟨unit.compilationDirectory, p.directory, p.file⟩)

def describeMainFile (env : Env) (unit : UnitAttributes) : Reader LocationInfo :=
  if unit.mainFileName.isEmpty then
    pure LocationInfo.empty
  else do
    let mainFile ← Path.create env unit.compilationDirectory .literal unit.mainFileName
    pure { LocationInfo.empty with hasMainFile := true, mainFile := mainFile }

def describeLine (env : Env) (address : Nat) (unit : UnitAttributes) (info : LocationInfo)
    : Reader (Bool × LocationInfo) := do
  if unit.foundLineOffset then
    let lineSection ← (debugSection env .debugLine).advance env unit.lineOffset
    let vm ← LineNumberVM.create env lineSection unit.compilationDirectory
    match ← vm.findAddress env address with
    | some (file, line) =>
      return (true, { info with hasFileAndLine := true, file := file, line := line })
    | none => return (true, info)
  else
    return (true, info)

theorem describeUnit_eq (env : Env) (address offset : Nat)
    : describeUnit env address offset = (do
        let unit ← readUnit env offset
        let info ← describeMainFile env unit
        describeLine env address unit info) := by
  unfold describeUnit describeMainFile
  congr 1
  funext unit
  dsimp only
  cases unit.mainFileName.isEmpty with
  | false =>
    simp only [if_neg Bool.false_ne_true]
    rw [bind_bind]
    rfl
  | true => rfl

theorem located_mainFile {attributes : UnitAttributes} (h : attributes.Describes env unit.attributes)
    : ∃ info, (describeMainFile env attributes).result = .ok info ∧ Located env unit none info := by
  have hempty : attributes.mainFileName.isEmpty = decide (unit.name = []) := Path.isEmpty_eq h.mainFileName
  unfold describeMainFile
  rw [hempty]
  by_cases hname : unit.name = []
  . rw [if_pos (decide_eq_true hname)]
    refine ⟨_, rfl, ?_, fun hne => absurd hname hne, rfl, by simp⟩
    simp [LocationInfo.empty, hname]
  . have hparts : Path.Covers env ⟨attributes.compilationDirectory, .literal, attributes.mainFileName⟩
        ⟨unit.compilationDirectory, [], unit.name⟩ :=
      ⟨h.compilationDirectory, ⟨trivial, rfl⟩, h.mainFileName⟩
    have ⟨path, hpath, hcovers⟩ := Path.create_covers hparts
    rw [if_neg (by simpa using hname), result_bind_of_ok hpath]
    refine ⟨_, rfl, ?_, fun _ => hcovers, rfl, by simp⟩
    simp [hname]

theorem describeUnit_located {offset : Nat} {place : Option Place} (hunit : UnitAt env offset unit)
    (hplace : unit.Places env address place)
    : ∃ info, (describeUnit env address offset).result = .ok (true, info) ∧ Located env unit place info := by
  have ⟨attributes, hread, hdescribes⟩ := readUnit_of_unitAt hunit
  have ⟨info, hmain, hlocated⟩ := located_mainFile hdescribes
  rw [describeUnit_eq, result_bind_of_ok hread, result_bind_of_ok hmain]
  unfold describeLine
  cases hplace with
  | none h =>
    rw [hdescribes.noLine h]
    exact ⟨info, rfl, hlocated⟩
  | @some n header sequences row file dir hoffset hlines hlookup hfile hdir =>
    have ⟨hfound, hline⟩ := hdescribes.line n hoffset
    have hline : attributes.lineOffset = (n % 2 ^ 64).toNat := by omega
    have ⟨lineSection, vm, hadvance, hcreate, hopened, hdirectory⟩ :=
      LineNumberVM.exists_create_of_linesAt hlines attributes.compilationDirectory
    have ⟨path, hpath, hcovers⟩ := LineNumberVM.findAddress_of_linesAt hlines hopened hlookup hfile hdir
      (hdirectory ▸ hdescribes.compilationDirectory)
    rw [hfound, hline, if_pos rfl, result_bind_of_ok hadvance, result_bind_of_ok hcreate,
      result_bind_of_ok hpath]
    refine ⟨_, rfl, hlocated.hasMainFile, hlocated.mainFile, rfl, ?_⟩
    intro p hp
    injection hp with hp
    subst hp
    exact ⟨rfl, hcovers⟩

theorem located_of_sections {sets before after : List AddressRangeSet} {set : AddressRangeSet}
    {place : Option Place}
    (hcontent : (env.mapping .debugAranges).content = AddressRangeSet.encodeAll sets)
    (hshows : ShowsAddress sets address) (hfirst : IsFirst sets before set after address)
    (hunit : UnitAt env set.debugInfoOffset unit) (hplace : unit.Places env address place)
    : ∃ info, (findAddress env address).result = .ok (true, info) ∧ Located env unit place info := by
  have hselect := @selectSet_eq env address sets hcontent
  rw [find?_eq_some_of_showsAddress hshows hfirst] at hselect
  rw [findAddress_eq, result_bind_of_ok hselect]
  exact describeUnit_located hunit hplace

/-! A unit `f` in the directory `/d`, the program of `LineNumberVM.exampleUnit` belongs to it. -/

theorem locatedCode_lt : 1 < 2 ^ 64 := by decide

theorem locatedTag_lt : DW_TAG_compile_unit < 2 ^ 64 := by decide

theorem locatedStart_lt : 0x10 < 2 ^ 64 := by decide

theorem length_nil_lt : ([] ++ [] : List UInt8).length < 2 ^ 64 := by decide

def locatedUnit : CompileUnit where
  is64Bits := false
  version := 2
  abbrevOffset := 0
  code := 1
  attributes := [
    ⟨DW_AT_name, .direct .string, .bytes [0x66], rfl, fun h => absurd h (by decide), fun _ => ⟨_, rfl⟩⟩,
    ⟨DW_AT_comp_dir, .direct .string, .bytes [0x2f, 0x64], rfl, fun h => absurd h (by decide),
      fun _ => ⟨_, rfl⟩⟩,
    ⟨DW_AT_stmt_list, .direct .data4, .number (0 : Nat), rfl, fun _ => ⟨_, rfl⟩,
      fun h => absurd h (by decide)⟩]
  version_range := by decide
  abbrevOffset_lt := by decide
  code_ne_zero := Nat.one_ne_zero
  code_lt := locatedCode_lt

def locatedEntry : Abbreviation :=
  ⟨1, DW_TAG_compile_unit, true,
    [⟨DW_AT_name, DW_FORM_string⟩, ⟨DW_AT_comp_dir, DW_FORM_string⟩, ⟨DW_AT_stmt_list, DW_FORM_data4⟩],
    Nat.one_ne_zero, locatedCode_lt, locatedTag_lt, by decide, by decide, by decide⟩

def locatedSet : AddressRangeSet :=
  exampleSet [⟨0x10, 0x8, locatedStart_lt, by decide, by decide⟩] (by decide)

def locatedInfo : List UInt8 :=
  locatedUnit.header ++ ([1] ++ ([0x66] ++ [0] ++ ([0x2f, 0x64] ++ [0] ++ (toLittleEndian 4 0 ++ [])) ++ []))

def locatedEnv : Env where
  ndebug := false
  uninitialized := 0
  mapping := fun
    | .debugAranges => ⟨AddressRangeSet.encodeAll [locatedSet], [], by decide⟩
    | .debugInfo =>
      ⟨List.replicate 0x2a 0 ++ (initialLength false locatedInfo.length ++ locatedInfo) ++ [], [], by decide⟩
    | .debugAbbrev => ⟨[] ++ [1, 0x11, 1, 3, 8, 0x1b, 8, 0x10, 6, 0, 0, 0] ++ [], [], by decide⟩
    | .debugLine =>
      ⟨[] ++ (LineNumberVM.exampleUnit ++ LineNumberVM.exampleProgram) ++ [], [], by decide⟩
    | _ => ⟨[], [], length_nil_lt⟩

theorem locatedEntry_encodes
    : Abbreviation.EncodesAll [locatedEntry] [1, 0x11, 1, 3, 8, 0x1b, 8, 0x10, 6, 0, 0, 0] := by
  have hattr {name form : Nat} (hname : name < 128) (hform : form < 128)
      : (⟨name, form⟩ : Attribute).Encodes ([UInt8.ofNat name] ++ [UInt8.ofNat form]) :=
    .mk (encodesLeb_byte hname) (encodesLeb_byte hform)
  have hattributes : Attribute.EncodesAll locatedEntry.attributes [3, 8, 0x1b, 8, 0x10, 6, 0, 0] :=
    .cons (hattr (by decide) (by decide)) (.cons (hattr (by decide) (by decide))
      (.cons (hattr (by decide) (by decide)) (.nil (hattr (by decide) (by decide)))))
  have hentry : locatedEntry.Encodes [1, 0x11, 1, 3, 8, 0x1b, 8, 0x10, 6, 0, 0] :=
    .mk (encodesLeb_byte (by decide)) (encodesLeb_byte (by decide)) hattributes
  exact .cons hentry (.nil (encodesLeb_byte (by decide)))

theorem locatedUnit_at (hinfo : (env.mapping .debugInfo).content = (locatedEnv.mapping .debugInfo).content)
    (habbrev : (env.mapping .debugAbbrev).content = (locatedEnv.mapping .debugAbbrev).content)
    : UnitAt env locatedSet.debugInfoOffset locatedUnit where
  info := by
    refine ⟨initialLength false locatedInfo.length ++ locatedInfo, ?_, List.replicate 0x2a 0, [], hinfo, rfl⟩
    have hvalues : UnitAttribute.EncodesAll env false locatedUnit.attributes
        ([0x66] ++ [0] ++ ([0x2f, 0x64] ++ [0] ++ (toLittleEndian 4 0 ++ []))) :=
      .cons (.direct (.text (by decide))) (.cons (.direct (.text (by decide)))
        (.cons (.direct (.number (by decide))) .nil))
    exact .mk (encodesLeb_byte (by decide)) hvalues (by decide)
  abbreviation :=
    ⟨[locatedEntry], _, locatedEntry, locatedEntry_encodes, ⟨[], [], habbrev, rfl⟩, rfl, rfl, rfl⟩

theorem locatedUnit_places
    (hline : (env.mapping .debugLine).content = (locatedEnv.mapping .debugLine).content)
    : locatedUnit.Places env 0x15 (some ⟨[0x64], [0x66], 5⟩) := by
  have hlines : LinesAt env 0 LineNumberVM.exampleHeader [LineNumberVM.exampleSequence] := by
    refine ⟨⟨_, _, LineNumberVM.exampleHeader_encodes, ?_, ⟨[], [], hline, rfl⟩, by decide, by decide⟩,
      by decide⟩
    simpa using LineNumberVM.exampleProgram_encodes
  have hlookup : ∃ row, LineNumberVM.exampleHeader.lookup [LineNumberVM.exampleSequence] 0x15 = some row
      ∧ row.file = 1 ∧ row.line = 5 := ⟨_, rfl, rfl, rfl⟩
  have ⟨row, hlookup, hfile, hline⟩ := hlookup
  rw [← hline]
  have hfile : LineNumberVM.exampleHeader.file row.file = some ⟨[0x66], 1⟩ := by
    rw [hfile]
    rfl
  exact @CompileUnit.Places.some _ _ _ (0 : Nat) _ _ _ _ [0x64] rfl hlines hlookup hfile rfl

theorem locatedSet_isFirst : IsFirst [locatedSet] [] locatedSet [] 0x15 := ⟨rfl, by decide, by simp⟩

theorem locatedSet_shows : ShowsAddress [locatedSet] 0x15 := by
  intro before set after h
  have hset : set = locatedSet := by
    apply List.mem_singleton.mp
    rw [h.sets_eq]
    simp
  rw [hset]
  refine Or.inl ⟨⟨0x10, 0x8, by decide, by decide, by decide⟩, ⟨by decide, by decide⟩, by decide, [], [],
    rfl, ?_⟩
  simp

theorem located_of_sections_example
    : ∃ info, (findAddress locatedEnv 0x15).result = .ok (true, info)
        ∧ Located locatedEnv locatedUnit (some ⟨[0x64], [0x66], 5⟩) info :=
  located_of_sections rfl locatedSet_shows locatedSet_isFirst (locatedUnit_at rfl rfl)
    (locatedUnit_places rfl)

end Dwarf
end Claire
