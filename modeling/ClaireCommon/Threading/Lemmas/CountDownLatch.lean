import ClaireCommon.Lib.GuardedRest
import ClaireCommon.Threading.Impl.CountDownLatch

/-!
This module contains that the latch holds back every thread that waits until it has been counted down,
and none of them longer than that.
-/

namespace Claire
namespace CountDownLatch

open Guarded

universe v

variable {ω : Type v} {c : BitVec 32}

-- Nobody waits any more when the counter has come down.
def need (c : BitVec 32) (n : Nat) : Prop := 0 < c.toInt → n = 0

theorem waits_iff {operation : Operation} : Waits body operation ↔ operation = .wait := by
  constructor
  . intro ⟨c, h⟩
    cases operation with
    | wait => rfl
    | countDown => contradiction
    | count => contradiction
  . intro h
    exact ⟨1, by rw [h]; rfl⟩

theorem pos_of_wait {operation : Operation} (h : body operation c = .wait)
    : operation = .wait ∧ 0 < c.toInt := by
  have hoperation := waits_iff.mp ⟨c, h⟩
  subst hoperation
  refine ⟨rfl, ?_⟩
  dsimp only [body, wait] at h
  split at h
  . next hpos => exact hpos
  . contradiction

-- The counter only becomes positive again when it wraps around.
theorem pos_of_pred (hne : c - 1 ≠ 0) (hpos : 0 < c.toInt) : 0 < (c - 1).toInt := by
  have hlt := BitVec.toInt_lt (x := c)
  have hpred : (c - 1).toInt = c.toInt - 1 := by
    rw [BitVec.toInt_sub]
    apply Int.bmod_eq_of_le <;> simp <;> omega
  have hzero : (c - 1).toInt ≠ 0 := by
    intro h
    apply hne
    rw [← BitVec.toInt_inj, h]
    rfl
  omega

theorem signals : Signals body need where
  wait := by
    intro operation c n hwait hneed
    exact hneed (pos_of_wait hwait).2
  goOn := by
    intro operation c hwaits hne hpos
    rw [waits_iff] at hwaits
    subst hwaits
    exact absurd (if_pos hpos) hne
  finish := by
    intro operation c c' result signal n hbody hneed heverybody
    cases operation with
    | wait =>
      dsimp only [body, wait] at hbody
      split at hbody
      . contradiction
      . next hpos =>
        exact ⟨n + 1, fun h => absurd h hpos, by omega, fun _ => by omega⟩
    | countDown =>
      injection hbody with hcount _ hsignal
      rw [← hcount] at hneed
      have hne : c - 1 ≠ 0 := by
        intro heq
        rw [if_pos heq] at hsignal
        exact heverybody hsignal.symm
      refine ⟨n, fun hpos => hneed (pos_of_pred hne hpos), by omega, ?_⟩
      intro hwaits
      rw [waits_iff] at hwaits
      contradiction
    | count =>
      injection hbody with hcount _ hsignal
      rw [← hcount] at hneed
      refine ⟨n, hneed, by omega, ?_⟩
      intro hwaits
      rw [waits_iff] at hwaits
      contradiction

def countsDown (effect : Operation × Result) : Bool := effect.1 = .countDown

def countDowns (labels : List (Label ω)) : Nat :=
  (labels.filterMap Label.effect?).countP countsDown

variable [DecidableEq ω] {labels : List (Label ω)} {s : CountDownLatch ω}

theorem object_of_effects {effects : List (Operation × Result)} {c' : BitVec 32}
    (h : Machine.run (Atomic.applyAs (effectOf body)) c effects = some c')
    : c' = c - BitVec.ofNat 32 (effects.countP countsDown) := by
  apply Machine.run_induction (P := fun effects c' =>
    c' = c - BitVec.ofNat 32 (effects.countP countsDown)) _ _ h
  . simp
  . intro effects c₁ effect c₂ _ ih heffect
    rw [Atomic.applyAs_eq_some] at heffect
    obtain ⟨operation, result⟩ := effect
    rw [List.countP_append]
    cases operation with
    | wait =>
      dsimp only [effectOf, body, wait] at heffect
      split at heffect
      . contradiction
      . injection heffect with heffect
        injection heffect with hcount _
        simp [← hcount, ih, countsDown]
    | countDown =>
      injection heffect with heffect
      injection heffect with hcount _
      simp only [← hcount, ih, countsDown, decide_true, List.countP_cons, List.countP_nil, ↓reduceIte]
      bv_omega
    | count =>
      injection heffect with heffect
      injection heffect with hcount _
      simp [← hcount, ih, countsDown]

theorem object_of_run (hrun : run (create c) labels = some s)
    : s.object = c - BitVec.ofNat 32 (countDowns labels) :=
  object_of_effects (run_effects hrun)

theorem finishes_of_step {t : ω} {operation : Operation} {result : Result} {receiver : Option ω}
    {s' : CountDownLatch ω} (h : s.step body (.finish t operation result receiver) = some s')
    : body operation s.object ≠ .wait := by
  rw [stepped_iff] at h
  cases h with
  | finish hcall hbody hnotify =>
    simp [hbody]

theorem pos_of_lt {n : Nat} (h : n < c.toInt) : 0 < (c - BitVec.ofNat 32 n).toInt := by
  have hlt := BitVec.toInt_lt (x := c)
  have hn : (BitVec.ofNat 32 n).toInt = n := by
    rw [BitVec.toInt_ofNat']
    apply Int.bmod_eq_of_le <;> omega
  have hsub : (c - BitVec.ofNat 32 n).toInt = c.toInt - n := by
    rw [BitVec.toInt_sub, hn]
    apply Int.bmod_eq_of_le <;> omega
  omega

structure Holds [Fintype ω] (c : BitVec 32) (labels : List (Label ω)) (s : CountDownLatch ω)
    : Prop where
  linearizable : Atomic.Linearizable (effectOf body) c (labels.filterMap Label.event?)
  counts : s.object = c - BitVec.ofNat 32 (countDowns labels)
  -- `Wait` only comes to its end after the counter has been counted down.
  holdsBack : ∀ (as : List (Label ω)) t result receiver (bs : List (Label ω)),
    labels = as ++ .finish t .wait result receiver :: bs →
    c.toInt ≤ countDowns as
  -- A thread that cannot go on waits for the counter.
  letsGo : (∀ label, label.goesOn → s.step body label = none) →
    ∀ t, s.calls t = .idle ∨ s.calls t = .waiting .wait ∧ 0 < s.object.toInt
  length_le : labels.length
    ≤ (4 * Fintype.card ω + 4) * labels.countP Label.isCall + 4 * labels.countP Label.isSpurious

theorem holds_of_run [Fintype ω] (hrun : run (create c) labels = some s) : Holds c labels s where
  linearizable := linearizable hrun
  counts := object_of_run hrun
  holdsBack := by
    intro as t result receiver bs heq
    rw [heq, Machine.run_append_cons_eq_some] at hrun
    have ⟨m, m', hm, hstep, _⟩ := hrun
    apply Classical.byContradiction
    intro hlt
    have hpos := pos_of_lt (Int.not_le.mp hlt)
    rw [← object_of_run hm] at hpos
    exact finishes_of_step hstep (if_pos hpos)
  letsGo := by
    intro hstuck t
    rcases run_atRest signals hrun hstuck t with hidle | ⟨operation, hcall, hbody⟩
    . exact Or.inl hidle
    . have ⟨hoperation, hpos⟩ := pos_of_wait hbody
      exact Or.inr ⟨hoperation ▸ hcall, hpos⟩
  length_le := length_le hrun

/-! A thread waits, wakes up without a signal and waits again, until the latch is counted down. -/

def exampleLabels : List (Label (Fin 2)) := [
  .call 0 .wait, .enter 0, .wait 0, .wakeSpuriously 0, .enter 0, .wait 0,
  .call 1 .countDown, .enter 1, .finish 1 .countDown .countDown none, .leave 1 .countDown,
  .wake 0, .enter 0, .finish 0 .wait .wait none, .leave 0 .wait]

theorem holds_of_run_one : ∃ s, run (create 1) exampleLabels = some s ∧ Holds 1 exampleLabels s := by
  refine ⟨_, rfl, ?_⟩
  apply holds_of_run rfl

end CountDownLatch
end Claire
