import ClaireCommon.Strings.Impl.Substring
import ClaireCommon.Strings.Lemmas.StringPiece

/-!
This module contains when the operations on a piece stay inside the bytes it views: `advance` does not
take what it skips off the size, and `copy` does not check its position.
-/

namespace Claire

open Traced

variable {env : Env}

inductive ViewOp where
  | removePrefix (n : Nat)
  | removeSuffix (n : Nat)
  | advance (n : Nat)
  | substr (pos n : Nat)
  | copy (n pos : Nat)

namespace ViewOp

def apply (env : Env) (t : StringPiece) : ViewOp → Reader StringPiece
  | .removePrefix n => t.removePrefix env n
  | .removeSuffix n => t.removeSuffix env n
  | .advance n => t.advance env n
  | .substr pos n => return t.substr pos n
  | .copy n pos => do
    let _ ← t.copy env n pos
    return t

-- What the operation asserts, and that positions and lengths have 64 bits
def InBounds (t : StringPiece) : ViewOp → Prop
  | .removePrefix n => n ≤ t.size
  | .removeSuffix n => n ≤ t.size
  | .advance n => n < t.size
  | .substr pos n => pos < 2 ^ 64 ∧ n < 2 ^ 64
  | .copy n pos => n < 2 ^ 64 ∧ pos < 2 ^ 64

def Harmless (t : StringPiece) : ViewOp → Prop
  | .advance n => n = 0
  | .copy n pos => pos ≤ t.size ∨ n = 0
  | _ => True

end ViewOp

namespace StringPiece

def Views (t : StringPiece) (p : Ptr) : Prop :=
  p.block = t.data.block ∧ t.data.offset ≤ p.offset ∧ p.offset < t.data.offset + t.size

structure Within (t' t : StringPiece) : Prop where
  block : t'.data.block = t.data.block
  start : t.data.offset ≤ t'.data.offset
  stop : t'.data.offset + t'.size ≤ t.data.offset + t.size

structure Stays (env : Env) (t : StringPiece) (op : ViewOp) : Prop where
  within : ∀ t', (op.apply env t).result = .ok t' → t'.Within t
  advances : ∀ n, op = .advance n → (t.advance env n).result = (t.removePrefix env n).result
  reads : ∀ n pos p, op = .copy n pos → .access p ∈ (t.copy env n pos).log → t.Views p
  copies : ∀ n pos, op = .copy n pos → (t.copy env n pos).result
    = (do
        let bytes ← env.peekMany (t.substr pos n).data (t.substr pos n).size
        return ((t.substr pos n).size, bytes) : Reader (Nat × List UInt8)).result

theorem Within.refl (t : StringPiece) : t.Within t :=
  ⟨rfl, Nat.le_refl _, Nat.le_refl _⟩

variable {t t' : StringPiece} {n pos : Nat}

theorem sizeT_sub (hlt : t.size < 2 ^ 64) (hn : n ≤ t.size)
    : (sizeT (t.size - n)).toNat = t.size - n := by
  unfold sizeT
  omega

theorem removePrefix_eq_ok (hlt : t.size < 2 ^ 64) (hn : n ≤ t.size)
    : (t.removePrefix env n).result = .ok ⟨t.data.add n, t.size - n⟩ := by
  unfold removePrefix
  rw [result_bind_of_ok (Env.dassert_eq_ok.mpr (Or.inr (decide_eq_true hn))), result_pure,
    sizeT_sub hlt hn]
  exact ⟨⟩

theorem removeSuffix_eq_ok (hlt : t.size < 2 ^ 64) (hn : n ≤ t.size)
    : (t.removeSuffix env n).result = .ok ⟨t.data, t.size - n⟩ := by
  unfold removeSuffix
  rw [result_bind_of_ok (Env.dassert_eq_ok.mpr (Or.inr (decide_eq_true hn))), result_pure,
    sizeT_sub hlt hn]
  exact ⟨⟩

theorem within_substr : (t.substr pos n).Within t := by
  unfold substr
  dsimp only
  refine ⟨rfl, Nat.le_add_right _ _, ?_⟩
  dsimp only [Ptr.offset_add]
  split <;> split <;> omega

theorem copy_of_le (hlt : t.size < 2 ^ 64) (hpos : pos ≤ t.size) : t.copy env n pos = (do
      let bytes ← env.peekMany (t.substr pos n).data (t.substr pos n).size
      return ((t.substr pos n).size, bytes)) := by
  have hsubstr : t.substr pos n = ⟨t.data.add pos, min (t.size - pos) n⟩ := by
    unfold substr
    rw [if_neg (by omega : ¬pos > t.size)]
    dsimp only
    congr 1
    split <;> omega
  unfold copy
  rw [sizeT_sub hlt hpos, hsubstr]

theorem mem_log_copy {event : Observation}
    : event ∈ (t.copy env n pos).log
        ↔ event ∈ (env.peekMany (t.data.add pos) (min (sizeT (t.size - pos)).toNat n)).log := by
  unfold copy
  dsimp only
  rw [mem_log_bind_iff]
  simp

theorem stays_removePrefix (hlt : t.size < 2 ^ 64) (hn : n ≤ t.size)
    : t.Stays env (.removePrefix n) where
  within := by
    intro t' h
    have happly := (removePrefix_eq_ok hlt hn).symm.trans h
    injection happly with happly
    rw [← happly]
    refine ⟨rfl, Nat.le_add_right _ _, ?_⟩
    dsimp only [Ptr.offset_add]
    omega
  advances := by simp
  reads := by simp
  copies := by simp

theorem stays_removeSuffix (hlt : t.size < 2 ^ 64) (hn : n ≤ t.size)
    : t.Stays env (.removeSuffix n) where
  within := by
    intro t' h
    have happly := (removeSuffix_eq_ok hlt hn).symm.trans h
    injection happly with happly
    rw [← happly]
    refine ⟨rfl, Nat.le_refl _, ?_⟩
    dsimp only
    omega
  advances := by simp
  reads := by simp
  copies := by simp

theorem stays_substr : t.Stays env (.substr pos n) where
  within := by
    intro t' h
    injection h with h
    rw [← h]
    exact within_substr
  advances := by simp
  reads := by simp
  copies := by simp

theorem stays_advance_iff (hlt : t.size < 2 ^ 64) (hn : n < t.size)
    : t.Stays env (.advance n) ↔ n = 0 := by
  have hadvance : (t.advance env n).result = .ok { t with data := t.data.add n } :=
    advance_eq_ok.mpr ⟨Or.inr hn, rfl⟩
  constructor
  . intro h
    have hstop := (h.within _ hadvance).stop
    dsimp only [Ptr.offset_add] at hstop
    omega
  . intro hzero
    subst hzero
    constructor
    . intro t' h
      have happly := hadvance.symm.trans h
      injection happly with happly
      rw [← happly]
      exact Within.refl t
    . intro n hop
      injection hop with hop
      rw [← hop, hadvance, removePrefix_eq_ok hlt (Nat.zero_le _)]
      rfl
    . simp
    . simp

theorem within_copy (t' : StringPiece) (h : ((ViewOp.copy n pos).apply env t).result = .ok t')
    : t'.Within t := by
  have ⟨_, _, heq⟩ := bind_eq_ok.mp h
  injection heq with heq
  rw [← heq]
  exact Within.refl t

theorem stays_copy_iff (hlt : t.size < 2 ^ 64) (hpos : pos < 2 ^ 64)
    : t.Stays env (.copy n pos) ↔ pos ≤ t.size ∨ n = 0 := by
  constructor
  . intro h
    by_contra hnot
    have ⟨hgt, hne⟩ := not_or.mp hnot
    have hviews := h.reads n pos (t.data.add pos) rfl (by
      rw [mem_log_copy]
      apply Env.access_mem_log_peekMany
      unfold sizeT
      omega)
    have hlt := hviews.2.2
    dsimp only [Ptr.offset_add] at hlt
    omega
  . intro h
    constructor
    . exact within_copy
    . simp
    . intro n' pos' p hop hmem
      injection hop with hn hpos
      subst hn hpos
      have ⟨i, hi, hevent⟩ := Env.mem_log_peekMany (mem_log_copy.mp hmem)
      injection hevent with hevent
      subst hevent
      refine ⟨rfl, ?_⟩
      unfold sizeT at hi
      dsimp only [Ptr.add_add, Ptr.offset_add]
      omega
    . intro n' pos' hop
      injection hop with hn hpos
      subst hn hpos
      cases h with
      | inl hle => rw [copy_of_le hlt hle]
      | inr hzero =>
        subst hzero
        have hsize : (t.substr pos 0).size = 0 := by simp [substr]
        rw [hsize]
        simp [copy, Env.peekMany]

theorem stays_iff {op : ViewOp} (hlt : t.size < 2 ^ 64) (hbounds : op.InBounds t)
    : t.Stays env op ↔ op.Harmless t := by
  cases op with
  | removePrefix n => exact iff_of_true (stays_removePrefix hlt hbounds) ⟨⟩
  | removeSuffix n => exact iff_of_true (stays_removeSuffix hlt hbounds) ⟨⟩
  | advance n => exact stays_advance_iff hlt hbounds
  | substr pos n => exact iff_of_true stays_substr ⟨⟩
  | copy n pos => exact stays_copy_iff hlt hbounds.2

theorem size_le_of_apply {op : ViewOp} (hlt : t.size < 2 ^ 64) (hbounds : op.InBounds t)
    (h : (op.apply env t).result = .ok t') : t'.size ≤ t.size := by
  cases op with
  | removePrefix n =>
    have hstop := ((stays_removePrefix hlt hbounds).within t' h).stop
    have hstart := ((stays_removePrefix hlt hbounds).within t' h).start
    omega
  | removeSuffix n =>
    have hstop := ((stays_removeSuffix hlt hbounds).within t' h).stop
    have hstart := ((stays_removeSuffix hlt hbounds).within t' h).start
    omega
  | advance n =>
    rw [(advance_eq_ok.mp h).2]
  | substr pos n =>
    have hstop := ((@stays_substr env t n pos).within t' h).stop
    have hstart := ((@stays_substr env t n pos).within t' h).start
    omega
  | copy n pos =>
    have hstop := (within_copy t' h).stop
    have hstart := (within_copy t' h).start
    omega

-- The operations turn `t` into `t'`, each within the bounds it asserts.
inductive Run (env : Env) (t : StringPiece) : List ViewOp → StringPiece → Prop
  | nil : Run env t [] t
  | step {ops : List ViewOp} {op : ViewOp} {t' t'' : StringPiece} (before : Run env t ops t')
      (hbounds : op.InBounds t') (happly : (op.apply env t').result = .ok t'')
      : Run env t (ops ++ [op]) t''

def Throughout (env : Env) (t : StringPiece) (ops : List ViewOp) (P : StringPiece → ViewOp → Prop)
    : Prop :=
  ∀ before op behind t', ops = before ++ op :: behind → Run env t before t' → op.InBounds t' → P t' op

theorem Run.size_le {ops : List ViewOp} (h : Run env t ops t') (hlt : t.size < 2 ^ 64)
    : t'.size ≤ t.size := by
  induction h with
  | nil => exact Nat.le_refl _
  | step _ hbounds happly ih =>
    exact Nat.le_trans (size_le_of_apply (Nat.lt_of_le_of_lt ih hlt) hbounds happly) ih

theorem staysThroughout_iff {bytes : List UInt8} {ops : List ViewOp} (h : t.Covers env bytes)
    : Throughout env t ops (Stays env) ↔ Throughout env t ops ViewOp.Harmless := by
  have hstep {before : List ViewOp} {op : ViewOp} {t' : StringPiece} (hrun : Run env t before t')
      (hbounds : op.InBounds t') : t'.Stays env op ↔ op.Harmless t' :=
    stays_iff (Nat.lt_of_le_of_lt (hrun.size_le h.size_lt) h.size_lt) hbounds
  constructor
  . intro hstays before op behind t' heq hrun hbounds
    exact (hstep hrun hbounds).mp (hstays before op behind t' heq hrun hbounds)
  . intro hharmless before op behind t' heq hrun hbounds
    exact (hstep hrun hbounds).mpr (hharmless before op behind t' heq hrun hbounds)

theorem staysThroughout_iff_twoBytes
    : have env := Env.ofSection .literal [0x61, 0x62] (by decide)
      Throughout env ⟨⟨.literal, 0⟩, 2⟩ [.removePrefix 1, .copy 2 1] (Stays env)
        ↔ Throughout env ⟨⟨.literal, 0⟩, 2⟩ [.removePrefix 1, .copy 2 1] ViewOp.Harmless := by
  intro env
  have h : Covers env ⟨⟨.literal, 0⟩, 2⟩ [0x61, 0x62] := ⟨by decide, rfl⟩
  exact staysThroughout_iff h

theorem not_stays_twoBytes
    : have env := Env.ofSection .literal [0x61, 0x62] (by decide)
      ¬Throughout env ⟨⟨.literal, 0⟩, 2⟩ [.advance 1] (Stays env)
        ∧ ¬Throughout env ⟨⟨.literal, 0⟩, 2⟩ [.copy 1 3] (Stays env) := by
  intro env
  have hbounds : (ViewOp.advance 1).InBounds ⟨⟨.literal, 0⟩, 2⟩ := by
    unfold ViewOp.InBounds
    decide
  have hbounds' : (ViewOp.copy 1 3).InBounds ⟨⟨.literal, 0⟩, 2⟩ := by
    unfold ViewOp.InBounds
    decide
  constructor
  . intro h
    have hstays := h [] _ [] _ rfl .nil hbounds
    have hzero := (stays_iff (by decide) hbounds).mp hstays
    contradiction
  . intro h
    have hstays := h [] _ [] _ rfl .nil hbounds'
    cases (stays_iff (by decide) hbounds').mp hstays <;> contradiction

end StringPiece
end Claire
