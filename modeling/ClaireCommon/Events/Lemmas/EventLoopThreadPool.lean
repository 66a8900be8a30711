import Mathlib.Data.Int.CardIntervalMod
import Mathlib.Data.List.GetD
import Mathlib.Data.List.Nodup
import ClaireCommon.Events.Impl.EventLoopThreadPool
import ClaireCommon.Lib.Machine

/-!
This module contains that the pool of event loops shares out the calls of `NextLoop` evenly.
-/

namespace Claire
namespace EventLoopThreadPool

variable {ℓ : Type} {p p' : EventLoopThreadPool ℓ}

structure Inv (p : EventLoopThreadPool ℓ) : Prop where
  next_lt : p.next < max 1 p.loops.length

theorem Inv.next_lt_length (hinv : Inv p) (hne : p.loops ≠ []) : p.next < p.loops.length := by
  have := hinv.next_lt
  have := List.length_pos_iff.mpr hne
  omega

def turn (p : EventLoopThreadPool ℓ) (i : Nat) : ℓ :=
  p.loops.getD ((p.next + i) % p.loops.length) p.baseLoop

def advance (p : EventLoopThreadPool ℓ) (n : Nat) : EventLoopThreadPool ℓ :=
  { p with next := (p.next + n) % p.loops.length }

theorem nextLoop_eq (hinv : Inv p) (hne : p.loops ≠ [])
    : p.nextLoop = some (p.turn 0, p.advance 1) := by
  have hlt := hinv.next_lt_length hne
  have hturn : p.turn 0 = p.loops[p.next] := by
    unfold turn
    rw [Nat.add_zero, Nat.mod_eq_of_lt hlt, List.getD_eq_getElem _ _ hlt]
  unfold nextLoop advance
  rw [if_neg hne, List.getElem?_eq_getElem hlt, hturn]
  dsimp only
  split
  . next hge => rw [show p.next + 1 = p.loops.length by omega, Nat.mod_self]
  . next hge => rw [Nat.mod_eq_of_lt (by omega)]

theorem Inv.advance (hne : p.loops ≠ []) (n : Nat) : Inv (p.advance n) where
  next_lt := by
    have hpos := List.length_pos_iff.mpr hne
    have : (p.next + n) % p.loops.length < p.loops.length := Nat.mod_lt _ hpos
    unfold EventLoopThreadPool.advance
    dsimp only
    omega

theorem turn_advance (p : EventLoopThreadPool ℓ) (i : Nat) : (p.advance 1).turn i = p.turn (i + 1) := by
  unfold turn advance
  dsimp only
  rw [Nat.mod_add_mod, Nat.add_assoc, Nat.add_comm 1]

theorem nextLoops_eq (hinv : Inv p) (hne : p.loops ≠ []) (n : Nat)
    : ∃ p', p.nextLoops n = some ((List.range n).map p.turn, p') := by
  induction n generalizing p with
  | zero => exact ⟨p, rfl⟩
  | succ n ih =>
    have ⟨p', h⟩ := @ih (p.advance 1) (Inv.advance hne 1) hne
    refine ⟨p', ?_⟩
    unfold nextLoops
    rw [nextLoop_eq hinv hne]
    dsimp only
    rw [h, List.range_succ_eq_map, List.map_cons, List.map_map]
    dsimp only
    congr 3
    apply List.map_congr_left
    intro i _
    exact turn_advance p i

theorem loops_of_nextLoop {loop : ℓ} (h : p.nextLoop = some (loop, p'))
    : p'.loops = p.loops ∧ p'.baseLoop = p.baseLoop := by
  unfold nextLoop at h
  split at h
  . injection h with h
    injection h with _ h
    rw [← h]
    exact ⟨rfl, rfl⟩
  . split at h
    . contradiction
    . injection h with h
      injection h with _ h
      rw [← h]
      exact ⟨rfl, rfl⟩

theorem nextLoops_of_nil (hnil : p.loops = []) (n : Nat)
    : p.nextLoops n = some (List.replicate n p.baseLoop, p) := by
  induction n with
  | zero => rfl
  | succ n ih =>
    unfold nextLoops nextLoop
    rw [if_pos hnil]
    dsimp only
    rw [ih]
    rfl

theorem turn_eq_iff [DecidableEq ℓ] (hinv : Inv p) (hnodup : p.loops.Nodup) {i : Nat}
    (hi : i < p.loops.length) (j : Nat)
    : p.turn j = p.loops[i] ↔ j ≡ i + (p.loops.length - p.next) [MOD p.loops.length] := by
  have hne : p.loops ≠ [] := List.ne_nil_of_length_pos (by omega)
  have hlt := hinv.next_lt_length hne
  have hmod : (p.next + j) % p.loops.length < p.loops.length := Nat.mod_lt _ (by omega)
  unfold turn
  rw [List.getD_eq_getElem _ _ hmod, hnodup.getElem_inj_iff]
  have hshift : p.next + (i + (p.loops.length - p.next)) = i + p.loops.length := by omega
  constructor
  . intro h
    apply Nat.ModEq.add_left_cancel' p.next
    rw [hshift]
    unfold Nat.ModEq
    rw [h, Nat.add_mod_right, Nat.mod_eq_of_lt hi]
  . intro h
    have h := h.add_left p.next
    rw [hshift] at h
    unfold Nat.ModEq at h
    rw [h, Nat.add_mod_right, Nat.mod_eq_of_lt hi]

theorem count_turns [DecidableEq ℓ] (hinv : Inv p) (hnodup : p.loops.Nodup) {loop : ℓ}
    (hloop : loop ∈ p.loops)
    (n : Nat)
    : n / p.loops.length ≤ ((List.range n).map p.turn).count loop ∧
        ((List.range n).map p.turn).count loop ≤ n / p.loops.length + 1 := by
  have ⟨i, hi, heq⟩ := List.getElem_of_mem hloop
  have hcount : ((List.range n).map p.turn).count loop =
      n.count (· ≡ i + (p.loops.length - p.next) [MOD p.loops.length]) := by
    rw [← heq, List.count_eq_countP, List.countP_map, Nat.count]
    apply List.countP_congr
    intro j _
    simp [turn_eq_iff hinv hnodup hi j]
  rw [hcount, Nat.count_modEq_card n (by omega)]
  split <;> omega

section

variable [DecidableEq ℓ]

theorem Inv.step (hinv : Inv p) {dchecks : Bool} {label : Label ℓ}
    (h : p.step dchecks label = some p') : Inv p' := by
  cases label with
  | setNumThreads numThreads =>
    injection h with h
    rw [← h]
    exact ⟨hinv.next_lt⟩
  | start created =>
    dsimp only [EventLoopThreadPool.step, start] at h
    split at h
    . contradiction
    . split at h
      . injection h with h
        rw [← h]
        constructor
        apply Nat.lt_of_lt_of_le hinv.next_lt
        dsimp only
        rw [List.length_append]
        omega
      . contradiction
  | nextLoop loop =>
    dsimp only [EventLoopThreadPool.step] at h
    by_cases hnil : p.loops = []
    . rw [nextLoop, if_pos hnil] at h
      dsimp only at h
      split at h
      . injection h with h
        rw [← h]
        exact hinv
      . contradiction
    . rw [nextLoop_eq hinv hnil] at h
      dsimp only at h
      split at h
      . injection h with h
        rw [← h]
        exact Inv.advance hnil 1
      . contradiction

def created? : Label ℓ → Option (List ℓ)
  | .start created => some created
  | _ => none

structure SharesOut (p : EventLoopThreadPool ℓ) (n : Nat) (given : List ℓ) : Prop where
  length_eq : given.length = n
  of_nil : p.loops = [] → ∀ loop ∈ given, loop = p.baseLoop
  mem : p.loops ≠ [] → ∀ loop ∈ given, loop ∈ p.loops
  evenly : ∀ loop ∈ p.loops,
      n / p.loops.length ≤ given.count loop ∧ given.count loop ≤ n / p.loops.length + 1

theorem loops_of_run {dchecks : Bool} {baseLoop : ℓ} {labels : List (Label ℓ)}
    (h : Machine.run (step dchecks) (create baseLoop) labels = some p)
    : Inv p ∧ p.loops = (labels.filterMap created?).flatten ∧ p.baseLoop = baseLoop := by
  apply Machine.run_induction (P := fun labels p =>
    Inv p ∧ p.loops = (labels.filterMap created?).flatten ∧ p.baseLoop = baseLoop) _ _ h
  . exact ⟨⟨by simp [create]⟩, rfl, rfl⟩
  . intro labels p label p' _ ⟨hinv, hloops, hbase⟩ hstep
    refine ⟨hinv.step hstep, ?_⟩
    rw [Machine.filterMap_concat, List.flatten_append, ← hloops]
    cases label with
    | setNumThreads numThreads =>
      injection hstep with hstep
      rw [← hstep]
      exact ⟨(List.append_nil _).symm, hbase⟩
    | start created =>
      dsimp only [EventLoopThreadPool.step, start] at hstep
      split at hstep
      . contradiction
      . split at hstep
        . injection hstep with hstep
          rw [← hstep]
          exact ⟨by simp [created?], hbase⟩
        . contradiction
    | nextLoop loop =>
      dsimp only [EventLoopThreadPool.step] at hstep
      split at hstep
      . next loop' q hq =>
        split at hstep
        . injection hstep with hstep
          have ⟨hloops', hbase'⟩ := loops_of_nextLoop hq
          rw [← hstep]
          exact ⟨hloops'.trans (List.append_nil _).symm, hbase'.trans hbase⟩
        . contradiction
      . contradiction

theorem sharesOut_of_run {dchecks : Bool} {baseLoop : ℓ} {labels : List (Label ℓ)}
    (hnodup : (labels.filterMap created?).flatten.Nodup)
    (h : Machine.run (step dchecks) (create baseLoop) labels = some p) (n : Nat)
    : ∃ given p', p.nextLoops n = some (given, p') ∧ SharesOut p n given := by
  have ⟨hinv, hloops, _⟩ := loops_of_run h
  rw [← hloops] at hnodup
  by_cases hnil : p.loops = []
  . refine ⟨_, p, nextLoops_of_nil hnil n, List.length_replicate, ?_, fun hne => absurd hnil hne, ?_⟩
    . intro _ loop hloop
      exact List.eq_of_mem_replicate hloop
    . intro loop hloop
      rw [hnil] at hloop
      contradiction
  . have ⟨p', hp'⟩ := nextLoops_eq hinv hnil n
    refine ⟨_, p', hp', by simp, fun h => absurd h hnil, ?_, ?_⟩
    . intro _ loop hloop
      have ⟨i, _, hi⟩ := List.mem_map.mp hloop
      have hmod : (p.next + i) % p.loops.length < p.loops.length :=
        Nat.mod_lt _ (List.length_pos_iff.mpr hnil)
      rw [← hi, turn, List.getD_eq_getElem _ _ hmod]
      exact List.getElem_mem hmod
    . intro loop hloop
      exact count_turns hinv hnodup hloop n

theorem sharesOut_of_run_twice
    : ∃ (p : EventLoopThreadPool Nat) (given : List Nat),
        Machine.run (step true) (create 0) [.setNumThreads 2, .start [1, 2], .nextLoop 1] = some p ∧
        given = [2, 1, 2] ∧ SharesOut p 3 given := by
  have ⟨given, p', hgiven, hshares⟩ := @sharesOut_of_run Nat _ _ true 0
    [.setNumThreads 2, .start [1, 2], .nextLoop 1] (by decide) rfl 3
  injection hgiven with hgiven
  injection hgiven with hgiven
  exact ⟨_, given, rfl, hgiven.symm, hshares⟩

end

end EventLoopThreadPool
end Claire
