import ClaireCommon.Symbolizer.Lemmas.SymbolsInside

/-!
This module contains when the lookup of sections by their names stays inside an ELF file.
-/

namespace Claire
namespace ElfContent

open Traced

variable {env : Env} {block : Block} {cur stop : Nat}

theorem text_of_terminated (h : (of env block).Terminated cur)
    : ∃ text : List UInt8, Dwarf.Terminated env ⟨block, cur⟩ text
        ∧ (of env block).bytes[cur + text.length]? = some 0
        ∧ ∀ i < text.length, (of env block).bytes[cur + i]? ≠ some 0 := by
  have ⟨text, rest, hsplit, hnonzero⟩ := List.eq_append_cons_of_mem h
  have hin : (of env block).InFile (text.length + 1) cur := by
    have hlen := congrArg List.length hsplit
    rw [List.length_drop, List.length_append, List.length_cons] at hlen
    unfold InFile
    omega
  have htake : (((env.mapping block).content).drop cur).take (text.length + 1) = text ++ [0] := by
    change ((of env block).bytes.drop cur).take _ = _
    rw [hsplit, List.append_cons, List.take_left' (by simp)]
  have hholds := holds_of_inFile hin
  rw [htake] at hholds
  refine ⟨text, ⟨hholds, hnonzero⟩, ?_, ?_⟩
  . rw [← List.getElem?_drop, hsplit, List.getElem?_append_right (Nat.le_refl _)]
    simp
  . intro i hi hzero
    rw [← List.getElem?_drop, hsplit, List.getElem?_append_left hi] at hzero
    exact hnonzero (List.mem_of_getElem? hzero)

theorem terminated_of_inside_memchr {n : Nat} (hlen : (of env block).bytes.length ≤ cur + n)
    (h : Inside env block (env.memchr ⟨block, cur⟩ 0 (n + 1))) : (of env block).Terminated cur := by
  induction n generalizing cur with
  | zero =>
    have hin := inside_peek.mp (inside_bind.mp h).1
    unfold InFile at hin
    omega
  | succ n ih =>
    unfold Env.memchr at h
    have hin := inside_peek.mp (inside_bind.mp h).1
    obtain ⟨byte, hbyte⟩ := inFile_one.mp hin
    rw [inside_peek_bind hbyte] at h
    have hdrop : (of env block).bytes.drop cur = byte :: (of env block).bytes.drop (cur + 1) := by
      obtain ⟨hlt, heq⟩ := List.getElem?_eq_some_iff.mp hbyte
      rw [List.drop_eq_getElem_cons hlt, heq]
    unfold Terminated
    rw [hdrop]
    split at h
    next hzero =>
      rw [hzero]
      exact List.mem_cons_self
    next hne =>
      apply List.mem_cons_of_mem
      exact ih (by omega) h

theorem inside_memchr (h : (of env block).Terminated cur) (n : Nat)
    : Inside env block (env.memchr ⟨block, cur⟩ 0 n) := by
  induction n generalizing cur with
  | zero => exact obeys_pure _
  | succ n ih =>
    unfold Env.memchr
    have hlt : cur < (of env block).bytes.length := by
      by_contra hge
      unfold Terminated at h
      rw [List.drop_eq_nil_of_le (Nat.not_lt.mp hge)] at h
      contradiction
    rw [inside_peek_bind (List.getElem?_eq_getElem hlt)]
    split
    next => exact obeys_pure _
    next hne =>
      apply ih
      unfold Terminated at h
      rw [List.drop_eq_getElem_cons hlt, List.mem_cons] at h
      cases h with
      | inl hzero => exact absurd hzero.symm hne
      | inr hmem => exact hmem

theorem inside_strlen
    : Inside env block (env.strlen ⟨block, cur⟩) ↔ (of env block).Terminated cur := by
  unfold Env.strlen
  constructor
  . intro h
    apply terminated_of_inside_memchr _ (inside_bind.mp h).1
    apply Nat.le_add_left_of_le
    unfold Env.mapped
    rw [List.length_append]
    exact Nat.le_add_right _ _
  . intro h
    have ⟨text, hterminated, _⟩ := text_of_terminated h
    refine inside_bind.mpr ⟨inside_memchr h _, ?_⟩
    intro found hfound
    cases found with
    | some q => exact obeys_pure _
    | none =>
      have hlen := Env.strlen_of_terminated hterminated
      unfold Env.strlen at hlen
      rw [result_bind_of_ok hfound] at hlen
      contradiction

variable {name : CString}

def EndsAt (env : Env) (block : Block) (cur stop : Nat) : Prop :=
  cur = stop ∨ cur < stop ∧ (of env block).bytes[stop - 1]? = some 0

theorem EndsAt.terminated (h : EndsAt env block cur stop) (hne : cur ≠ stop)
    : (of env block).Terminated cur := by
  cases h with
  | inl heq => contradiction
  | inr h =>
    have ⟨hlt, hzero⟩ := h
    apply List.mem_iff_getElem?.mpr
    refine ⟨stop - 1 - cur, ?_⟩
    rw [List.getElem?_drop, Nat.add_sub_cancel' (by omega)]
    exact hzero

theorem EndsAt.next {text : List UInt8} (h : EndsAt env block cur stop) (hne : cur ≠ stop)
    (hbefore : ∀ i < text.length, (of env block).bytes[cur + i]? ≠ some 0)
    : EndsAt env block (cur + (text.length + 1)) stop := by
  cases h with
  | inl heq => contradiction
  | inr h =>
    have ⟨hlt, hzero⟩ := h
    have hle : text.length ≤ stop - 1 - cur := by
      by_contra hgt
      apply hbefore (stop - 1 - cur) (by omega)
      rw [Nat.add_sub_cancel' (by omega)]
      exact hzero
    by_cases hend : cur + (text.length + 1) = stop
    . exact Or.inl hend
    . exact Or.inr ⟨by omega, hzero⟩

theorem EndsAt.of_next {text : List UInt8}
    (hzero : (of env block).bytes[cur + text.length]? = some 0)
    (h : EndsAt env block (cur + (text.length + 1)) stop) : EndsAt env block cur stop := by
  cases h with
  | inl heq =>
    refine Or.inr ⟨by omega, ?_⟩
    rw [← heq]
    exact hzero
  | inr h => exact Or.inr ⟨by omega, h.2⟩

theorem ptr_eq : (⟨block, cur⟩ : Ptr) = ⟨block, stop⟩ ↔ cur = stop := by
  simp

theorem inside_findNameRound
    : Inside env block (ElfFile.findNameRound env name ⟨block, stop⟩ ⟨block, cur⟩)
        ↔ (cur ≠ stop → Inside env block (env.strcmp ⟨block, cur⟩ name.bytes)
          ∧ ((env.strcmp ⟨block, cur⟩ name.bytes).result = .ok true →
            (of env block).Terminated cur)) := by
  unfold ElfFile.findNameRound
  by_cases hend : cur = stop
  . rw [if_pos (ptr_eq.mpr hend)]
    exact iff_of_true (obeys_pure _) (by simp [hend])
  . rw [if_neg (mt ptr_eq.mp hend)]
    simp only [ne_eq, hend, not_false_eq_true, true_implies]
    rw [inside_bind]
    refine and_congr_right fun _ => ?_
    rw [← inside_strlen]
    constructor
    . intro h hdiffers
      have hround := h true hdiffers
      rw [if_pos rfl] at hround
      exact (inside_bind.mp hround).1
    . intro h differs hdiffers
      cases differs with
      | true =>
        rw [if_pos rfl]
        exact inside_bind.mpr ⟨h hdiffers, fun _ _ => obeys_pure _⟩
      | false => exact obeys_pure _

theorem findNameRound_eq_next {text : List UInt8} {p : Ptr}
    (hterminated : Dwarf.Terminated env ⟨block, cur⟩ text)
    : (ElfFile.findNameRound env name ⟨block, stop⟩ ⟨block, cur⟩).result = .ok (.inl p)
        ↔ cur ≠ stop ∧ (env.strcmp ⟨block, cur⟩ name.bytes).result = .ok true
          ∧ p = ⟨block, cur + (text.length + 1)⟩ := by
  unfold ElfFile.findNameRound
  by_cases hend : cur = stop
  . rw [if_pos (ptr_eq.mpr hend)]
    simp [hend]
  . rw [if_neg (mt ptr_eq.mp hend), bind_eq_ok]
    constructor
    . intro ⟨differs, hdiffers, hround⟩
      cases differs with
      | true =>
        rw [if_pos rfl, result_bind_of_ok (Env.strlen_of_terminated hterminated), ptr_add] at hround
        injection hround with hround
        injection hround with hround
        exact ⟨hend, hdiffers, hround.symm⟩
      | false =>
        injection hround with hround
        contradiction
    . intro ⟨_, hdiffers, hp⟩
      refine ⟨true, hdiffers, ?_⟩
      rw [if_pos rfl, result_bind_of_ok (Env.strlen_of_terminated hterminated), ptr_add, hp]
      rfl

theorem endsAt_of_inside_loop {fuel : Nat} (hlong : (of env block).bytes.length ≤ name.bytes.length)
    (h : Inside env block
      (Traced.loop .stuck (ElfFile.findNameRound env name ⟨block, stop⟩) fuel ⟨block, cur⟩))
    : EndsAt env block cur stop := by
  induction fuel generalizing cur with
  | zero =>
    have hstuck := h.stops .stuck rfl
    contradiction
  | succ fuel ih =>
    rw [Inside, obeys_loop_succ] at h
    obtain ⟨hround, hrest⟩ := h
    by_cases hend : cur = stop
    . exact Or.inl hend
    . obtain ⟨hstrcmp, hterminated⟩ := inside_findNameRound.mp hround hend
      have hdiffers := strcmp_of_long (by omega) hstrcmp
      obtain ⟨text, htext, hzero, _⟩ := text_of_terminated (hterminated hdiffers)
      have hnext := hrest _ ((findNameRound_eq_next htext).mpr ⟨hend, hdiffers, rfl⟩)
      exact EndsAt.of_next hzero (ih hnext)

theorem inside_loop_of_endsAt {fuel : Nat} (hends : EndsAt env block cur stop)
    (hfuel : stop < cur + fuel)
    : Inside env block
        (Traced.loop .stuck (ElfFile.findNameRound env name ⟨block, stop⟩) fuel ⟨block, cur⟩) := by
  induction fuel generalizing cur with
  | zero => cases hends <;> omega
  | succ fuel ih =>
    rw [Inside, obeys_loop_succ]
    have hstrcmp (hne : cur ≠ stop) : Inside env block (env.strcmp ⟨block, cur⟩ name.bytes) :=
      inside_strcmp.mpr (not_prefix_of_terminated name (hends.terminated hne))
    refine ⟨inside_findNameRound.mpr fun hne => ⟨hstrcmp hne, fun _ => hends.terminated hne⟩, ?_⟩
    intro p hp
    have hne : cur ≠ stop := by
      intro heq
      unfold ElfFile.findNameRound at hp
      rw [if_pos (ptr_eq.mpr heq)] at hp
      injection hp with hp
      contradiction
    obtain ⟨text, htext, _, hbefore⟩ := text_of_terminated (hends.terminated hne)
    obtain ⟨_, _, hp⟩ := (findNameRound_eq_next htext).mp hp
    rw [hp]
    exact ih (hends.next hne hbefore) (by omega)

variable {t : Nat}

theorem endsAt_table
    : EndsAt env block ((of env block).shOffset t)
        ((of env block).shOffset t + (of env block).shSize t)
      ↔ (of env block).shSize t = 0
        ∨ ((of env block).table t).length = (of env block).shSize t
          ∧ ((of env block).table t).getLast? = some 0 := by
  unfold EndsAt
  by_cases hzero : (of env block).shSize t = 0
  . simp [hzero]
  . have hlast (hlen : ((of env block).table t).length = (of env block).shSize t)
        : ((of env block).table t).getLast?
          = (of env block).bytes[(of env block).shOffset t + (of env block).shSize t - 1]? := by
      rw [List.getLast?_eq_getElem?, hlen]
      unfold table
      rw [List.getElem?_take_of_lt (by omega), List.getElem?_drop, Nat.add_sub_assoc (by omega)]
    constructor
    . intro h
      have ⟨_, hbyte⟩ := h.resolve_left (by omega)
      have ⟨hlt, _⟩ := List.getElem?_eq_some_iff.mp hbyte
      have hlen : ((of env block).table t).length = (of env block).shSize t := by
        unfold table
        rw [List.length_take, List.length_drop]
        omega
      exact Or.inr ⟨hlen, (hlast hlen).trans hbyte⟩
    . intro h
      have ⟨hlen, hbyte⟩ := h.resolve_left hzero
      exact Or.inr ⟨by omega, (hlast hlen).symm.trans hbyte⟩

theorem length_le_mapped : (of env block).bytes.length ≤ (env.mapped block).length := by
  unfold Env.mapped
  rw [List.length_append]
  exact Nat.le_add_right _ _

theorem endsAt_of_inside_findName (hlong : (of env block).bytes.length ≤ name.bytes.length)
    (h : Inside env block (ElfFile.findName env name ⟨block, cur⟩ ⟨block, stop⟩))
    : EndsAt env block cur stop :=
  endsAt_of_inside_loop hlong h

theorem inside_findName (hends : EndsAt env block cur stop)
    : Inside env block (ElfFile.findName env name ⟨block, cur⟩ ⟨block, stop⟩) := by
  apply inside_loop_of_endsAt hends
  dsimp only
  cases hends with
  | inl heq => omega
  | inr h =>
    have ⟨hlt, _⟩ := List.getElem?_eq_some_iff.mp h.2
    have hle := @length_le_mapped env block
    omega

section Table

variable (hlen : ((of env block).table t).length = (of env block).shSize t)

include hlen

theorem holds_table : env.Holds ⟨block, (of env block).shOffset t⟩ ((of env block).table t) := by
  cases hsize : (of env block).shSize t with
  | zero =>
    rw [List.length_eq_zero_iff.mp (hlen.trans hsize)]
    trivial
  | succ size =>
    apply holds_of_inFile
    unfold table at hlen
    rw [List.length_take, List.length_drop] at hlen
    unfold InFile
    omega

theorem findName_of_isFirstString {offset : Nat}
    (hfirst : StringTable.IsFirstString ((of env block).table t) name offset)
    : (ElfFile.findName env name ⟨block, (of env block).shOffset t⟩
          ⟨block, (of env block).shOffset t + (of env block).shSize t⟩).result
        = .ok ⟨block, (of env block).shOffset t + offset⟩ := by
  have ⟨before, rest, htable, hbefore, hoffset⟩ := hfirst
  have hholds := holds_table hlen
  rw [htable] at hholds hlen
  rw [← hoffset]
  exact ElfFile.findName_of_first (Env.holds_append.mp hholds).1 hbefore (by
    rw [← hlen, @List.length_append _ _ rest]
    exact Nat.le_add_right _ _)

theorem findName_of_not_first (hlast : ((of env block).table t).getLast? = some 0)
    (hnot : ∀ offset, ¬StringTable.IsFirstString ((of env block).table t) name offset)
    : (ElfFile.findName env name ⟨block, (of env block).shOffset t⟩
          ⟨block, (of env block).shOffset t + (of env block).shSize t⟩).result
        = .ok ⟨block, (of env block).shOffset t + (of env block).shSize t⟩ := by
  cases StringTable.exists_isFirstString hlast name with
  | inl hfirst =>
    have ⟨offset, hfirst⟩ := hfirst
    exact absurd hfirst (hnot offset)
  | inr hstrings =>
    have ⟨strings, htable, hmem⟩ := hstrings
    have hholds := holds_table hlen
    rw [htable] at hholds hlen
    rw [← hlen]
    exact ElfFile.findName_of_not_mem hholds hmem

theorem offset_lt_of_isFirstString {offset : Nat}
    (hfirst : StringTable.IsFirstString ((of env block).table t) name offset)
    : offset < (of env block).shSize t := by
  have ⟨before, rest, htable, _, hoffset⟩ := hfirst
  rw [← hlen, htable, ← hoffset]
  simp only [List.length_append, List.length_singleton]
  omega

theorem distance_of_isFirstString {offset : Nat}
    (hfirst : StringTable.IsFirstString ((of env block).table t) name offset)
    : StringPiece.distance ⟨block, (of env block).shOffset t⟩
        ⟨block, (of env block).shOffset t + offset⟩ = offset := by
  have hlt := offset_lt_of_isFirstString hlen hfirst
  have hle : (of env block).shSize t ≤ (of env block).bytes.length := by
    rw [← hlen]
    unfold table
    rw [List.length_take, List.length_drop]
    omega
  have hmapped := @length_le_mapped env block
  have hmapped64 := @Env.mapped_length_lt env block
  exact StringPiece.distance_add ⟨block, _⟩ (by omega)

end Table

theorem isFirstString_of_findName {q : Ptr}
    (htable : (of env block).shSize t = 0
      ∨ ((of env block).table t).length = (of env block).shSize t
        ∧ ((of env block).table t).getLast? = some 0)
    (hfind : (ElfFile.findName env name ⟨block, (of env block).shOffset t⟩
      ⟨block, (of env block).shOffset t + (of env block).shSize t⟩).result = .ok q)
    (hne : q ≠ ⟨block, (of env block).shOffset t + (of env block).shSize t⟩)
    : ∃ offset, StringTable.IsFirstString ((of env block).table t) name offset
        ∧ StringPiece.distance ⟨block, (of env block).shOffset t⟩ q = offset := by
  cases htable with
  | inl hzero =>
    have hnil : env.Holds ⟨block, (of env block).shOffset t⟩ (StringTable.encodeAll []) := trivial
    have hstop := @ElfFile.findName_of_not_mem _ _ name [] hnil List.not_mem_nil
    rw [ptr_add, StringTable.encodeAll, List.flatMap_nil, List.length_nil] at hstop
    rw [hzero] at hfind hne
    rw [hstop] at hfind
    injection hfind with hfind
    exact absurd hfind.symm hne
  | inr htable =>
    have ⟨hlen, hlast⟩ := htable
    by_cases hfirst : ∃ offset, StringTable.IsFirstString ((of env block).table t) name offset
    . have ⟨offset, hfirst⟩ := hfirst
      rw [findName_of_isFirstString hlen hfirst] at hfind
      injection hfind with hfind
      rw [← hfind]
      exact ⟨offset, hfirst, distance_of_isFirstString hlen hfirst⟩
    . rw [findName_of_not_first hlen hlast (not_exists.mp hfirst)] at hfind
      injection hfind with hfind
      exact absurd hfind.symm hne

variable {h offset : Nat}

def nameBody (env : Env) (offset : Nat) (ptr : Ptr) : Reader (Option Ptr) := do
  let name ← Shdr.name env ptr
  return if name = offset then some ptr else none

theorem findOffset_eq_scan {n : Nat} {ptr : Ptr}
    : ElfFile.findOffset env offset ptr n
        = Traced.scan (·.add Shdr.sizeof) (nameBody env offset) n ptr := by
  induction n generalizing ptr with
  | zero => rfl
  | succ n ih =>
    unfold ElfFile.findOffset Traced.scan nameBody
    rw [bind_bind]
    congr
    funext name
    rw [Traced.pure_bind]
    split
    next => rfl
    next => exact ih

theorem inside_nameBody
    : Inside env block (nameBody env offset ⟨block, h⟩) ↔ (of env block).InFile 4 h := by
  unfold nameBody Shdr.name
  rw [inside_field_bind (by decide)]
  exact and_iff_left (obeys_pure _)

theorem nameBody_eq_ok (hin : (of env block).InFile 4 h)
    : (nameBody env offset ⟨block, h⟩).result
        = .ok (if (of env block).shName h = offset then some ⟨block, h⟩ else none) := by
  unfold nameBody Shdr.name
  rw [result_bind_of_ok (field_eq hin)]
  rfl

theorem sound_nameBody
    : Sound env block (nameBody env offset) ((of env block).InFile 4)
        (fun h => (of env block).shName h = offset) where
  inside := by
    intro h hin
    exact inside_nameBody.mpr hin
  goesOn := by
    intro h hin hnone hname
    rw [nameBody_eq_ok hin, if_pos hname] at hnone
    injection hnone with hnone
    contradiction

theorem complete_nameBody
    : Complete env block (nameBody env offset) ((of env block).InFile 4)
        (fun h => (of env block).shName h = offset) where
  readable := by
    intro h hinside
    exact inside_nameBody.mp hinside
  goesOn := by
    intro h hinside hname
    rw [nameBody_eq_ok (inside_nameBody.mp hinside), if_neg hname]

def sectionBody (env : Env) (elf : ElfFile) : Option Ptr → Reader (Option StringPiece)
  | none => return none
  | some ptr => do
    let body ← elf.getSectionBody env ptr
    return some body

theorem inside_getSectionBody
    : Inside env block (ElfFile.getSectionBody env (.ofBlock env block) ⟨block, h⟩)
        ↔ (of env block).InFile 8 (h + 24) ∧ (of env block).InFile 8 (h + 32) := by
  unfold ElfFile.getSectionBody
  rw [inside_offset_bind, inside_size_bind]
  exact and_congr_right fun _ => and_iff_left (obeys_pure _)

theorem inside_sectionBody_some {ptr : Ptr}
    : Inside env block (sectionBody env (.ofBlock env block) (some ptr))
        ↔ Inside env block (ElfFile.getSectionBody env (.ofBlock env block) ptr) := by
  unfold sectionBody
  rw [inside_bind]
  exact and_iff_left fun _ _ => obeys_pure _

theorem inside_findOffset_bind {n first : Nat}
    : Inside env block (ElfFile.findOffset env offset ⟨block, first⟩ n
          >>= sectionBody env (.ofBlock env block))
        ↔ ∀ i < n, (∀ j < i, ¬(of env block).shName (first + j * Shdr.sizeof) = offset) →
          (of env block).InFile 4 (first + i * Shdr.sizeof)
            ∧ ((of env block).shName (first + i * Shdr.sizeof) = offset →
              (of env block).InFile 8 (first + i * Shdr.sizeof + 24)
                ∧ (of env block).InFile 8 (first + i * Shdr.sizeof + 32)) := by
  rw [findOffset_eq_scan, inside_bind]
  constructor
  . intro ⟨hscan, hbody⟩ i hi hbefore
    have hin := complete_nameBody.scan hscan
    refine ⟨hin i hi hbefore, ?_⟩
    intro hname
    rw [← inside_getSectionBody, ← inside_sectionBody_some]
    apply hbody
    rw [scan_eq_some]
    simp only [iterate_add]
    refine ⟨i, hi, ?_, ?_⟩
    . intro j hj
      have hinj := hin j (by omega) fun k hk => hbefore k (by omega)
      rw [nameBody_eq_ok hinj, if_neg (hbefore j hj)]
    . rw [nameBody_eq_ok (hin i hi hbefore), if_pos hname]
  . intro h
    have hready := fun i hi hbefore => (h i hi hbefore).1
    refine ⟨sound_nameBody.scan hready, ?_⟩
    intro found hfound
    cases found with
    | none => exact obeys_pure _
    | some ptr =>
      rw [scan_eq_some] at hfound
      simp only [iterate_add] at hfound
      have ⟨i, hi, hnone, hsome⟩ := hfound
      have hbefore := sound_nameBody.reached hready (Nat.le_of_lt hi) hnone
      have ⟨hin, hbody⟩ := h i hi hbefore
      rw [nameBody_eq_ok hin] at hsome
      injection hsome with hsome
      split at hsome
      next hname =>
        injection hsome with hsome
        rw [← hsome]
        exact inside_sectionBody_some.mpr (inside_getSectionBody.mpr (hbody hname))
      next => contradiction

theorem getSection_eq {elf : ElfFile}
    : Dwarf.getSection env elf name = elf.getSectionByName env name >>= sectionBody env elf := by
  unfold Dwarf.getSection
  congr

theorem inside_getSection_iff_body
    : Inside env block (Dwarf.getSection env (.ofBlock env block) name)
        ↔ Inside env block (ElfFile.getSectionByName env (.ofBlock env block) name)
          ∧ ∀ ptr, (ElfFile.getSectionByName env (.ofBlock env block) name).result = .ok (some ptr) →
            Inside env block (ElfFile.getSectionBody env (.ofBlock env block) ptr) := by
  rw [getSection_eq, inside_bind]
  refine and_congr_right fun _ => ?_
  constructor
  . intro h ptr hptr
    exact inside_sectionBody_some.mp (h _ hptr)
  . intro h found hfound
    cases found with
    | none => exact obeys_pure _
    | some ptr => exact inside_sectionBody_some.mpr (h ptr hfound)

theorem inside_getSection (hheader : (of env block).InFile Ehdr.sizeof 0)
    (ht : (of env block).indexed (of env block).shstrndx = t)
    : Inside env block (Dwarf.getSection env (.ofBlock env block) name)
        ↔ ((of env block).shstrndx ≠ SHN_UNDEF → (of env block).IndexPasses (of env block).shstrndx →
          (of env block).ValidateReadable t ∧ ((of env block).ValidPasses t →
            (of env block).InFile 8 (t + 24) ∧ (of env block).InFile 8 (t + 32)
              ∧ Inside env block (ElfFile.findName env name ⟨block, (of env block).shOffset t⟩
                ⟨block, (of env block).shOffset t + (of env block).shSize t⟩)
              ∧ ∀ q, (ElfFile.findName env name ⟨block, (of env block).shOffset t⟩
                  ⟨block, (of env block).shOffset t + (of env block).shSize t⟩).result = .ok q →
                q ≠ ⟨block, (of env block).shOffset t + (of env block).shSize t⟩ →
                (of env block).Passes Shdr.sizeof (of env block).shoff →
                Inside env block (ElfFile.findOffset env
                  (StringPiece.distance ⟨block, (of env block).shOffset t⟩ q)
                  ⟨block, (of env block).shoff⟩ (of env block).shnum
                    >>= sectionBody env (.ofBlock env block)))) := by
  rw [getSection_eq]
  unfold ElfFile.getSectionByName
  rw [bind_bind, inside_getElfHeader_bind hheader, bind_bind, inside_shstrndx_bind hheader]
  by_cases hundef : (of env block).shstrndx = SHN_UNDEF
  . rw [if_pos hundef]
    exact iff_of_true (obeys_pure _) (by simp [hundef])
  . rw [if_neg hundef, bind_bind, inside_getSectionByIndex_bind hheader, ht, bind_bind,
      inside_validateStringTable_bind, bind_bind, inside_offset_bind, bind_bind, inside_size_bind,
      file_add]
    dsimp only
    generalize hstop : Ptr.add ⟨block, (of env block).shOffset t⟩ ((of env block).shSize t) = stop
    rw [ptr_add] at hstop
    rw [hstop]
    simp only [ne_eq, hundef, not_false_eq_true, true_implies]
    refine imp_congr_right fun _ => and_congr_right fun _ => imp_congr_right fun _ =>
      and_congr_right fun _ => and_congr_right fun _ => ?_
    rw [bind_bind, inside_bind]
    refine and_congr_right fun _ => forall_congr' fun q => imp_congr_right fun _ => ?_
    by_cases hend : q = stop
    . rw [if_pos hend]
      exact iff_of_true (obeys_pure _) (fun hne => absurd hend hne)
    . rw [if_neg hend, bind_bind, inside_shoff_bind hheader, bind_bind, inside_at_bind]
      simp only [bind_bind, inside_shnum_bind hheader, hend, not_false_eq_true, true_implies]

theorem inside_getSection_iff (hheader : (of env block).InFile Ehdr.sizeof 0)
    : (∀ name, Inside env block (Dwarf.getSection env (.ofBlock env block) name))
        ↔ (of env block).SectionNamesReadable := by
  unfold SectionNamesReadable
  generalize ht : (of env block).indexed (of env block).shstrndx = t
  constructor
  . intro h hndx hindex
    have hsection name := (inside_getSection hheader ht).mp (h name) hndx hindex
    have long : LongName env block := LongName.of [] (by decide)
    have ⟨hvalidate, hrest⟩ := hsection long.1
    refine ⟨hvalidate, ?_⟩
    intro hvalid
    have ⟨_, hsize, hfind, _⟩ := hrest hvalid
    have htable := endsAt_table.mp (endsAt_of_inside_findName long.2 hfind)
    refine ⟨hsize, htable, ?_⟩
    intro name offset hfirst hpasses
    have hlen : ((of env block).table t).length = (of env block).shSize t := by
      cases htable with
      | inl hzero =>
        unfold table
        rw [hzero]
        rfl
      | inr htable => exact htable.1
    have ⟨_, _, _, hheaders⟩ := (hsection name).2 hvalid
    have hlt := offset_lt_of_isFirstString hlen hfirst
    have hne : (⟨block, (of env block).shOffset t + offset⟩ : Ptr)
        ≠ ⟨block, (of env block).shOffset t + (of env block).shSize t⟩ := by
      rw [ne_eq, ptr_eq]
      omega
    have hheaders := hheaders _ (findName_of_isFirstString hlen hfirst) hne hpasses
    rw [distance_of_isFirstString hlen hfirst, inside_findOffset_bind] at hheaders
    exact hheaders
  . intro h name
    rw [inside_getSection hheader ht]
    intro hndx hindex
    have ⟨hvalidate, hrest⟩ := h hndx hindex
    refine ⟨hvalidate, ?_⟩
    intro hvalid
    have ⟨hsize, htable, hheaders⟩ := hrest hvalid
    refine ⟨inFile_offset_of_validateReadable hvalidate hvalid, hsize,
      inside_findName (endsAt_table.mpr htable), ?_⟩
    intro q hfind hne hpasses
    have ⟨offset, hfirst, hdistance⟩ := isFirstString_of_findName htable hfind hne
    rw [hdistance, inside_findOffset_bind]
    exact hheaders name offset hfirst hpasses

end ElfContent
end Claire
