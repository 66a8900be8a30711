import ClaireCommon.Strings.Lemmas.Comparison
import ClaireCommon.Symbolizer.Impl.Path
import ClaireCommon.Symbolizer.Lemmas.Path

/-!
This module proves that the three ways to render a path agree: they stand for the same text, of which
`ToBuffer` writes as much as fits.
-/

namespace Claire
namespace Dwarf

open Memory Separators Traced

variable {env : Env}

namespace PathText

def HasBaseDir (t : PathText) : Prop := t.baseDir = [] → t.subDir = []

theorem strip_ne_nil {text : List UInt8} (h : text ≠ []) : strip true text ≠ [] := by
  unfold strip
  by_cases habsolute : IsAbsolute text
  . rw [if_pos ⟨rfl, habsolute⟩]
    simp
  . rw [if_neg (by simp [habsolute])]
    unfold trim
    rw [dropLeading_eq_self habsolute]
    cases text with
    | nil => contradiction
    | cons c text =>
      have hne : c ≠ slash := by
        intro heq
        rw [heq] at habsolute
        exact habsolute rfl
      rw [dropTrailing_cons, if_neg hne]
      split <;> simp

theorem strip_nil (keepInitialSlash : Bool) : strip keepInitialSlash [] = [] := by
  cases keepInitialSlash <;> rfl

theorem hasBaseDir_fillBaseDir (t : PathText) : t.fillBaseDir.HasBaseDir := by
  unfold HasBaseDir fillBaseDir
  split
  . next hempty =>
    intro _
    exact hempty
  . intro hempty
    contradiction

theorem hasBaseDir_create (t : PathText) : t.create.HasBaseDir := by
  unfold create
  split
  . intro _
    rfl
  . generalize hfill : t.clearDirs.clearBaseDir.fillBaseDir = t'
    have h := hasBaseDir_fillBaseDir t.clearDirs.clearBaseDir
    rw [hfill] at h
    intro hstrip
    have hempty : t'.baseDir = [] := by
      by_contra hne
      exact strip_ne_nil hne hstrip
    unfold stripParts
    dsimp only
    rw [h hempty, strip_nil]

end PathText

namespace Path

variable {path : Path} {t : PathText}

theorem nonempty_eq {s : StringPiece} {text : List UInt8} (h : s.Covers env text)
    : nonempty s + s.size = (PathText.slashed text).length := by
  unfold nonempty PathText.slashed
  rw [isEmpty_eq h, h.size]
  by_cases hempty : text = []
  . simp [hempty]
  . simp [hempty, Nat.add_comm]

theorem size_eq (h : path.Covers env t) : path.size = t.render.length % 2 ^ 64 := by
  have hsubDir := nonempty_eq h.subDir
  have hfile := nonempty_eq h.file
  unfold size PathText.render
  rw [List.length_append, List.length_append, ← hsubDir, ← hfile, h.baseDir.size]
  congr 1
  omega

theorem fitting_append {text : List UInt8} (h : fitting text = none) (text' : List UInt8)
    : fitting (text ++ text') = none := by
  unfold fitting at h ⊢
  simp only [List.length_append, ite_eq_right_iff, reduceCtorEq, imp_false] at h ⊢
  omega

theorem fitting_eq_some {text text' : List UInt8} (h : fitting text = some text')
    : text' = text ∧ text.length ≤ stringMaxSize := by
  unfold fitting at h
  rw [Option.ite_none_right_eq_some] at h
  exact ⟨(Option.some.inj h.2).symm, h.1⟩

theorem pieceToString_eq {s : StringPiece} {text : List UInt8} (h : s.Covers env text)
    (dest : List UInt8) : (pieceToString env s dest).result = .ok (fitting (dest ++ text)) := by
  have hpeek : (env.peekMany s.data s.size).result = .ok text :=
    Env.peekMany_eq_ok.mpr ⟨h.size.symm, h.holds⟩
  unfold pieceToString
  rw [result_bind_of_ok hpeek]
  rfl

theorem slashedToString_eq {s : StringPiece} {text : List UInt8} (h : s.Covers env text)
    (dest : List UInt8)
    : (slashedToString env s dest).result = .ok (fitting (dest ++ slash :: text)) := by
  have hsplit : dest ++ slash :: text = (dest ++ [0x2f]) ++ text := by
    rw [List.append_assoc]
    rfl
  unfold slashedToString
  rw [hsplit]
  cases hslash : fitting (dest ++ [0x2f]) with
  | none =>
    rw [fitting_append hslash]
    rfl
  | some dest' =>
    dsimp only
    rw [pieceToString_eq h, (fitting_eq_some hslash).1]

theorem baseDirToString_eq (h : path.Covers env t) {dest : List UInt8}
    (hdest : dest.length ≤ stringMaxSize)
    : (path.baseDirToString env dest).result = .ok (fitting (dest ++ t.baseDir)) := by
  unfold baseDirToString
  rw [isEmpty_eq h.baseDir]
  by_cases hempty : t.baseDir = []
  . have hfits : fitting dest = some dest := if_pos hdest
    simp only [hempty, decide_true, ↓reduceIte, List.append_nil, hfits]
    rfl
  . simp only [hempty, decide_false, Bool.false_eq_true, ↓reduceIte]
    exact pieceToString_eq h.baseDir dest

theorem subDirToString_eq (h : path.Covers env t) (hbase : t.HasBaseDir) (dest : List UInt8)
    : (path.subDirToString env (fitting dest)).result
        = .ok (fitting (dest ++ PathText.slashed t.subDir)) := by
  cases hdest : fitting dest with
  | none =>
    rw [fitting_append hdest]
    rfl
  | some dest' =>
    have ⟨heq, hfits⟩ := fitting_eq_some hdest
    unfold subDirToString PathText.slashed
    dsimp only
    rw [isEmpty_eq h.subDir]
    by_cases hempty : t.subDir = []
    . simp only [hempty, decide_true, ↓reduceIte, List.append_nil, hdest]
      rfl
    . have hne : t.baseDir ≠ [] := fun hnil => hempty (hbase hnil)
      have hassert : (env.dassert !path.baseDir.isEmpty).result = .ok ⟨⟩ := by
        rw [Env.dassert_eq_ok, isEmpty_eq h.baseDir]
        simp [hne]
      simp only [hempty, decide_false, Bool.false_eq_true, ↓reduceIte]
      rw [result_bind_of_ok hassert, heq]
      exact slashedToString_eq h.subDir dest

theorem fileToString_eq (h : path.Covers env t) (dest : List UInt8)
    : (path.fileToString env (fitting dest)).result
        = .ok (fitting (dest ++ PathText.slashed t.file)) := by
  cases hdest : fitting dest with
  | none =>
    rw [fitting_append hdest]
    rfl
  | some dest' =>
    have ⟨heq, hfits⟩ := fitting_eq_some hdest
    unfold fileToString PathText.slashed
    dsimp only
    rw [isEmpty_eq h.file]
    by_cases hempty : t.file = []
    . simp only [hempty, decide_true, ↓reduceIte, List.append_nil, hdest]
      rfl
    . simp only [hempty, decide_false, Bool.false_eq_true, ↓reduceIte]
      rw [heq]
      exact slashedToString_eq h.file dest

theorem checkSize_eq (h : path.Covers env t) (dest : List UInt8)
    : (path.checkSize env dest.length (fitting (dest ++ t.render))).result
        = .ok (fitting (dest ++ t.render)) := by
  cases hfits : fitting (dest ++ t.render) with
  | none => rfl
  | some text =>
    have ⟨heq, hle⟩ := fitting_eq_some hfits
    have hcheck : (env.dcheck (text.length = (dest.length + path.size) % 2 ^ 64)).result
        = .ok ⟨⟩ := by
      rw [Env.dcheck_eq_ok, size_eq h, heq]
      unfold stringMaxSize at hle
      rw [List.length_append] at hle ⊢
      right
      rw [decide_eq_true_eq]
      omega
    unfold checkSize
    dsimp only
    rw [result_bind_of_ok hcheck]
    rfl

theorem toString_eq (h : path.Covers env t) (hbase : t.HasBaseDir) {dest : List UInt8}
    (hdest : dest.length ≤ stringMaxSize)
    : (path.toString env dest).result = .ok (fitting (dest ++ t.render)) := by
  unfold toString
  split
  . rw [result_bind_of_ok (baseDirToString_eq h hdest),
      result_bind_of_ok (subDirToString_eq h hbase _), result_bind_of_ok (fileToString_eq h _)]
    have hrender : dest ++ t.baseDir ++ PathText.slashed t.subDir ++ PathText.slashed t.file
        = dest ++ t.render := by
      unfold PathText.render
      simp only [List.append_assoc]
    rw [hrender]
    exact checkSize_eq h dest
  . next hlong =>
    have hnone : fitting (dest ++ t.render) = none := by
      rw [size_eq h] at hlong
      apply if_neg
      rw [List.length_append]
      omega
    rw [hnone]
    rfl

-- So far `ToBuffer` was asked for `text`, and wrote what of it fits in front of the zero.
structure Outputs (memory : Memory) (buf bufSize : Nat) (text : List UInt8) (out : Output) : Prop where
  position : out.buf = buf + (text.take (bufSize - 1)).length
  room : out.bufSize = bufSize - (text.take (bufSize - 1)).length
  total : out.totalSize = text.length % 2 ^ 64
  writes : Writes buf (text.take (bufSize - 1)) memory out.memory
  untouched : bufSize = 0 → out.memory = memory

variable {memory : Memory} {buf bufSize : Nat} {out : Output} {text text' : List UInt8}

theorem Outputs.append (h : Outputs memory buf bufSize text out) {read : Nat → Reader (List UInt8)}
    (hread : ∀ n, n ≤ text'.length → (read n).result = .ok (text'.take n))
    : ∃ out', (Path.append text'.length read out).result = .ok out'
        ∧ Outputs memory buf bufSize (text ++ text') out' := by
  have hposition := h.position
  have hroom := h.room
  have htotal : (out.totalSize + text'.length) % 2 ^ 64 = (text ++ text').length % 2 ^ 64 := by
    rw [h.total, List.length_append, Nat.mod_add_mod]
  rw [List.length_take] at hroom
  unfold Path.append
  by_cases hfits : out.bufSize ≥ 2
  . have hwhole : text.take (bufSize - 1) = text := List.take_of_length_le (by omega)
    have hpart : (text ++ text').take (bufSize - 1)
        = text ++ text'.take (min text'.length (out.bufSize - 1)) := by
      rw [List.take_append, hwhole, Nat.min_comm, ← List.take_eq_take_min]
      congr 2
      omega
    have hlength : (text'.take (min text'.length (out.bufSize - 1))).length
        = min text'.length (out.bufSize - 1) := by
      rw [List.length_take]
      omega
    simp only [hfits, ↓reduceIte]
    rw [result_bind_of_ok (hread _ (Nat.min_le_left _ _))]
    refine ⟨_, rfl, ?_⟩
    constructor
    . dsimp only
      rw [hpart, List.length_append, hlength, hposition, hwhole, Nat.add_assoc]
    . dsimp only
      rw [hpart, List.length_append, hlength]
      omega
    . exact htotal
    . have hwrites := h.writes
      rw [hwhole] at hwrites hposition
      rw [hpart]
      apply hwrites.append
      dsimp only
      rw [← hposition]
      exact Writes.copy _ _ _
    . intro hzero
      omega
  . -- Only the zero has room, or nothing at all.
    have hpart : (text ++ text').take (bufSize - 1) = text.take (bufSize - 1) :=
      List.take_append_of_le_length (by omega)
    simp only [hfits, ↓reduceIte]
    refine ⟨_, rfl, ?_⟩
    constructor
    . rw [hpart]
      exact h.position
    . rw [hpart]
      exact h.room
    . exact htotal
    . rw [hpart]
      exact h.writes
    . exact h.untouched

theorem Outputs.appendPiece {s : StringPiece} (h : Outputs memory buf bufSize text out)
    (hs : s.Covers env text')
    : ∃ out', (Path.appendPiece env s out).result = .ok out'
        ∧ Outputs memory buf bufSize (text ++ text') out' := by
  unfold Path.appendPiece
  rw [hs.size]
  apply h.append
  intro n hn
  rw [Env.peekMany_eq_ok]
  refine ⟨?_, hs.holds.take n⟩
  rw [List.length_take]
  omega

theorem Outputs.appendSlash (h : Outputs memory buf bufSize text out)
    : ∃ out', (Path.appendSlash out).result = .ok out'
        ∧ Outputs memory buf bufSize (text ++ [slash]) out' :=
  @Outputs.append _ _ _ _ _ [slash] h _ fun _ _ => rfl

theorem Outputs.slashed {s : StringPiece} (h : Outputs memory buf bufSize text out)
    (hs : s.Covers env text')
    : ∃ out', (Path.appendSlash out >>= Path.appendPiece env s).result = .ok out'
        ∧ Outputs memory buf bufSize (text ++ slash :: text') out' := by
  have ⟨out', hslash, h'⟩ := h.appendSlash
  have ⟨out'', hpiece, h''⟩ := h'.appendPiece hs
  rw [result_bind_of_ok hslash]
  refine ⟨out'', hpiece, ?_⟩
  rw [List.append_assoc] at h''
  exact h''

theorem Outputs.baseDir (h : Outputs memory buf bufSize text out) (hpath : path.Covers env t)
    : ∃ out', (path.baseDirToBuffer env out).result = .ok out'
        ∧ Outputs memory buf bufSize (text ++ t.baseDir) out' := by
  unfold baseDirToBuffer
  rw [isEmpty_eq hpath.baseDir]
  by_cases hempty : t.baseDir = []
  . simp only [hempty, decide_true, ↓reduceIte, List.append_nil]
    exact ⟨out, rfl, h⟩
  . simp only [hempty, decide_false, Bool.false_eq_true, ↓reduceIte]
    exact h.appendPiece hpath.baseDir

theorem Outputs.subDir (h : Outputs memory buf bufSize text out) (hpath : path.Covers env t)
    (hbase : t.HasBaseDir)
    : ∃ out', (path.subDirToBuffer env out).result = .ok out'
        ∧ Outputs memory buf bufSize (text ++ PathText.slashed t.subDir) out' := by
  unfold subDirToBuffer PathText.slashed
  rw [isEmpty_eq hpath.subDir]
  by_cases hempty : t.subDir = []
  . simp only [hempty, decide_true, ↓reduceIte, List.append_nil]
    exact ⟨out, rfl, h⟩
  . have hne : t.baseDir ≠ [] := fun hnil => hempty (hbase hnil)
    have hassert : (env.dassert !path.baseDir.isEmpty).result = .ok ⟨⟩ := by
      rw [Env.dassert_eq_ok, isEmpty_eq hpath.baseDir]
      simp [hne]
    simp only [hempty, decide_false, Bool.false_eq_true, ↓reduceIte]
    rw [result_bind_of_ok hassert]
    exact h.slashed hpath.subDir

theorem Outputs.file (h : Outputs memory buf bufSize text out) (hpath : path.Covers env t)
    : ∃ out', (path.fileToBuffer env out).result = .ok out'
        ∧ Outputs memory buf bufSize (text ++ PathText.slashed t.file) out' := by
  unfold fileToBuffer PathText.slashed
  rw [isEmpty_eq hpath.file]
  by_cases hempty : t.file = []
  . simp only [hempty, decide_true, ↓reduceIte, List.append_nil]
    exact ⟨out, rfl, h⟩
  . simp only [hempty, decide_false, Bool.false_eq_true, ↓reduceIte]
    exact h.slashed hpath.file

theorem toBuffer_eq (hpath : path.Covers env t) (hbase : t.HasBaseDir) (memory : Memory)
    (buf bufSize : Nat)
    : ∃ memory', (path.toBuffer env memory buf bufSize).result = .ok (memory', path.size)
        ∧ (0 < bufSize → Writes buf (t.render.take (bufSize - 1) ++ [0]) memory memory')
        ∧ (bufSize = 0 → memory' = memory) := by
  have h : Outputs memory buf bufSize [] { memory, buf, bufSize, totalSize := 0 } := by
    constructor
    . rw [List.take_nil]
      rfl
    . rw [List.take_nil]
      rfl
    . rfl
    . rw [List.take_nil]
      exact Writes.nil
    . intro _
      rfl
  have ⟨out, hbaseDir, h⟩ := h.baseDir hpath
  have ⟨out', hsubDir, h⟩ := h.subDir hpath hbase
  have ⟨out'', hfile, h⟩ := h.file hpath
  have hrender : [] ++ t.baseDir ++ PathText.slashed t.subDir ++ PathText.slashed t.file = t.render :=
    rfl
  rw [hrender] at h
  have htotal : out''.totalSize = path.size := by rw [h.total, size_eq hpath]
  have hassert : (env.dassert (out''.totalSize = path.size)).result = .ok ⟨⟩ := by
    rw [Env.dassert_eq_ok]
    simp [htotal]
  have hroom := h.room
  rw [List.length_take] at hroom
  unfold toBuffer
  dsimp only
  rw [result_bind_of_ok hbaseDir, result_bind_of_ok hsubDir, result_bind_of_ok hfile,
    result_bind_of_ok hassert, htotal]
  refine ⟨_, rfl, ?_, ?_⟩
  . intro hpos
    rw [if_pos (by omega)]
    apply h.writes.append
    rw [← h.position]
    exact Writes.write _ _ _
  . intro hzero
    rw [if_neg (by omega)]
    exact h.untouched hzero

-- What the renderings of a path have to do with each other. `text` is what `ToString` returns unless
-- it is too long for a string.
structure Consistent (env : Env) (path : Path) (text : List UInt8) : Prop where
  toString : (path.toString env []).result
    = .ok (if text.length ≤ stringMaxSize then some text else none)
  size : text.length ≤ stringMaxSize → path.size = text.length
  toBuffer : ∀ memory buf bufSize, ∃ memory',
    (path.toBuffer env memory buf bufSize).result = .ok (memory', path.size)
      ∧ (bufSize = 0 → memory' = memory)
      ∧ (0 < bufSize → text.length ≤ stringMaxSize →
        Writes buf (text.take (min path.size (bufSize - 1)) ++ [0]) memory memory'
          ∧ Within buf (buf + bufSize) memory memory')

theorem consistent_render (hpath : path.Covers env t) (hbase : t.HasBaseDir)
    : path.Consistent env t.render := by
  have hsize : t.render.length ≤ stringMaxSize → path.size = t.render.length := by
    intro hle
    unfold stringMaxSize at hle
    rw [size_eq hpath]
    omega
  constructor
  . exact toString_eq hpath hbase (Nat.zero_le _)
  . exact hsize
  . intro memory buf bufSize
    have ⟨memory', htoBuffer, hwrites, huntouched⟩ := toBuffer_eq hpath hbase memory buf bufSize
    refine ⟨memory', htoBuffer, huntouched, ?_⟩
    intro hpos hle
    have htake : t.render.take (min path.size (bufSize - 1)) = t.render.take (bufSize - 1) := by
      rw [hsize hle, Nat.min_comm, ← List.take_eq_take_min]
    have hall := hwrites hpos
    rw [htake]
    refine ⟨hall, hall.within.mono (Nat.le_refl _) ?_⟩
    rw [List.length_append, List.length_take, List.length_singleton]
    omega

theorem create_consistent (env : Env) (baseDir subDir file : StringPiece)
    (hbaseDir : Readable env baseDir) (hsubDir : Readable env subDir) (hfile : Readable env file)
    : ∃ path text, (create env baseDir subDir file).result = .ok path
        ∧ (path.baseDir.isEmpty → path.subDir.isEmpty)
        ∧ path.Consistent env text := by
  have ⟨baseDirText, hbaseDir⟩ := hbaseDir
  have ⟨subDirText, hsubDir⟩ := hsubDir
  have ⟨fileText, hfile⟩ := hfile
  have h : Covers env ⟨baseDir, subDir, file⟩ ⟨baseDirText, subDirText, fileText⟩ :=
    ⟨hbaseDir, hsubDir, hfile⟩
  have ⟨path, hcreate, hpath⟩ := create_covers h
  have hbase := PathText.hasBaseDir_create ⟨baseDirText, subDirText, fileText⟩
  refine ⟨path, _, hcreate, ?_, consistent_render hpath hbase⟩
  rw [isEmpty_eq hpath.baseDir, isEmpty_eq hpath.subDir, decide_eq_true_eq, decide_eq_true_eq]
  exact hbase

def pathEnv : Env :=
  .ofSection .debugStr
    [0x2f, 0x75, 0x73, 0x72, 0x2f, 0x73, 0x72, 0x63, 0x61, 0x2e, 0x63] (by decide)

theorem create_consistent_example
    : ∃ path text, (create pathEnv ⟨⟨.debugStr, 0⟩, 5⟩ ⟨⟨.debugStr, 5⟩, 3⟩
          ⟨⟨.debugStr, 8⟩, 3⟩).result = .ok path
        ∧ (path.baseDir.isEmpty → path.subDir.isEmpty)
        ∧ path.Consistent pathEnv text :=
  create_consistent pathEnv _ _ _
    ⟨[0x2f, 0x75, 0x73, 0x72, 0x2f], by decide, rfl⟩ ⟨[0x73, 0x72, 0x63], by decide, rfl⟩
    ⟨[0x61, 0x2e, 0x63], by decide, rfl⟩

end Path
end Dwarf
end Claire
