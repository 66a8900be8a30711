import ClaireCommon.Lib.GuardedRuns
import Mathlib.Algebra.GroupWithZero.Nat
import Mathlib.Algebra.Order.BigOperators.Group.Finset

/-!
This module contains when an object with a mutex and a condition comes to rest: if the operations send
enough signals, no wakeup is lost, and the object cannot rest while somebody who is inside could go on.
It comes to rest unless it is called again and again, or threads wake up without a signal again and again.
-/

universe u v w x

namespace Guarded

variable {ω : Type u} {ο : Type v} {ρ : Type w} {σ : Type x} {body : ο → σ → Section σ ρ}
  {s s' : Guarded ω ο ρ σ} {label : Label ω ο ρ} {labels : List (Label ω ο ρ)}

def Label.isCall : Label ω ο ρ → Bool
  | .call _ _ => true
  | _ => false

def Label.isSpurious : Label ω ο ρ → Bool
  | .wakeSpuriously _ => true
  | _ => false

def Label.goesOn (label : Label ω ο ρ) : Bool := !label.isCall && !label.isSpurious

def Label.cost [Fintype ω] : Label ω ο ρ → Nat
  | .call _ _ => 4 * Fintype.card ω + 4
  | .wakeSpuriously _ => 4
  | _ => 0

theorem sum_cost [Fintype ω] (labels : List (Label ω ο ρ))
    : (labels.map Label.cost).sum
        = (4 * Fintype.card ω + 4) * labels.countP Label.isCall
          + 4 * labels.countP Label.isSpurious := by
  induction labels with
  | nil => simp
  | cons label labels ih =>
    rw [List.map_cons, List.sum_cons, ih, List.countP_cons, List.countP_cons]
    cases label <;> simp only [Label.cost, Label.isCall, Label.isSpurious, Nat.mul_add, ↓reduceIte,
      Bool.false_eq_true] <;> omega

def Call.holds : Call ο ρ → Bool
  | .inside _ | .leaving _ => true
  | _ => false

def Waits (body : ο → σ → Section σ ρ) (operation : ο) : Prop := ∃ object, body operation object = .wait

structure Consistent (body : ο → σ → Section σ ρ) (s : Guarded ω ο ρ σ) : Prop where
  holder : ∀ t, (s.calls t).holds ↔ s.holder = some t
  knows : ∀ t operation, s.calls t = .waiting operation → s.condition.Knows t
  waiting : ∀ t ∈ s.condition.waiting, ∃ operation, Waits body operation ∧ s.calls t = .waiting operation
  signalled : ∀ t ∈ s.condition.signalled, ∃ operation, Waits body operation ∧
    (s.calls t = .waiting operation ∨ s.calls t = .entering operation ∨ s.calls t = .inside operation)

theorem consistent_init (object : σ) : Consistent body (init object : Guarded ω ο ρ σ) := by
  constructor <;> simp [init, Call.holds, Condition.empty]

@[simp]
theorem condition_hold (s : Guarded ω ο ρ σ) (holder : Option ω)
    : (s.hold holder).condition = s.condition := rfl

theorem Consistent.not_waiting (hs : Consistent body s) {t : ω}
    (hcall : ∀ operation, s.calls t ≠ .waiting operation) : t ∉ s.condition.waiting := by
  intro hmem
  have ⟨operation, _, heq⟩ := hs.waiting t hmem
  exact hcall operation heq

theorem Consistent.not_signalled (hs : Consistent body s) {t : ω}
    (hcall : ∀ operation, (s.calls t).phase ≠ .called operation) : t ∉ s.condition.signalled := by
  intro hmem
  have ⟨operation, _, heq⟩ := hs.signalled t hmem
  apply hcall operation
  rcases heq with heq | heq | heq <;> rw [heq] <;> rfl

theorem Consistent.waits (hs : Consistent body s) {t : ω} {operation : ο}
    (hmem : t ∈ s.condition.signalled) (hcall : (s.calls t).phase = .called operation)
    : Waits body operation := by
  have ⟨operation', hwaits, heq⟩ := hs.signalled t hmem
  have hsame : operation' = operation := by
    rcases heq with heq | heq | heq <;> rw [heq] at hcall <;> injection hcall
  exact hsame ▸ hwaits

variable [DecidableEq ω]

theorem calls_setCall (s : Guarded ω ο ρ σ) (t v : ω) (call : Call ο ρ)
    : (s.setCall t call).calls v = if v = t then call else s.calls v := by
  dsimp only [setCall]
  rw [Function.update_apply]

theorem knows_of_notify {condition condition' : Condition ω} {receiver : Option ω} {signal : Signal}
    (h : notify condition receiver signal = some condition')
    : (∀ v, condition'.Knows v ↔ condition.Knows v) ∧ condition'.waiting ⊆ condition.waiting := by
  cases signal with
  | nobody =>
    simp only [notify, Option.ite_none_right_eq_some, Option.some.injEq] at h
    rw [← h.2]
    exact ⟨fun _ => Iff.rfl, Finset.Subset.refl _⟩
  | one =>
    have ⟨hknows, hwaiting, _⟩ := Condition.knows_of_notify h
    exact ⟨hknows, hwaiting⟩
  | everybody =>
    simp only [notify, Option.ite_none_right_eq_some, Option.some.injEq] at h
    rw [← h.2]
    simp [Condition.Knows]

theorem Consistent.setCall (hs : Consistent body s) {t : ω} {call : Call ο ρ}
    (hholder : ∀ v ≠ t, s'.holder = some v ↔ s.holder = some v)
    (hknows : ∀ v ≠ t, s'.condition.Knows v ↔ s.condition.Knows v)
    (hwaiting : ∀ v ≠ t, v ∈ s'.condition.waiting → v ∈ s.condition.waiting)
    (hcalls : s'.calls = s.calls)
    (hholds : call.holds ↔ s'.holder = some t)
    (hknown : ∀ operation, call = .waiting operation → s'.condition.Knows t)
    (hwaits : t ∈ s'.condition.waiting → ∃ operation, Waits body operation ∧ call = .waiting operation)
    (hsignals : t ∈ s'.condition.signalled → ∃ operation, Waits body operation ∧
      (call = .waiting operation ∨ call = .entering operation ∨ call = .inside operation))
    : Consistent body (s'.setCall t call) := by
  constructor
  . intro v
    rw [calls_setCall, hcalls]
    split
    . next heq => rw [heq]; exact hholds
    . next hne => exact (hs.holder v).trans (hholder v hne).symm
  . intro v operation hcall
    rw [calls_setCall, hcalls] at hcall
    split at hcall
    . next heq => rw [heq]; exact hknown operation hcall
    . next hne => exact (hknows v hne).mpr (hs.knows v operation hcall)
  . intro v hv
    rw [calls_setCall, hcalls]
    split
    . next heq => exact hwaits (heq ▸ hv)
    . next hne => exact hs.waiting v (hwaiting v hne hv)
  . intro v hv
    rw [calls_setCall, hcalls]
    split
    . next heq => exact hsignals (heq ▸ hv)
    . next hne =>
      cases (hknows v hne).mp (Or.inr hv) with
      | inl hmem =>
        have ⟨operation, hwaits, hcall⟩ := hs.waiting v hmem
        exact ⟨operation, hwaits, Or.inl hcall⟩
      | inr hmem => exact hs.signalled v hmem

theorem Stepped.consistent (h : Stepped body s label s') (hs : Consistent body s)
    : Consistent body s' := by
  cases h with
  | @call t operation hcall =>
    have hholder := hs.holder t
    have hwaiting : t ∉ s.condition.waiting := hs.not_waiting (by simp [hcall])
    have hsignalled : t ∉ s.condition.signalled := hs.not_signalled (by simp [hcall, Call.phase])
    rw [hcall] at hholder
    refine hs.setCall (by simp) (by simp) (by simp) rfl ?_ (by simp) (by simp [hwaiting])
      (by simp [hsignalled])
    simpa [Call.holds] using hholder
  | @enter t operation hcall hfree =>
    have hwaiting : t ∉ s.condition.waiting := hs.not_waiting (by simp [hcall])
    refine hs.setCall ?_ (by simp [hold]) (by simp [hold]) rfl ?_ (by simp) (by simp [hold, hwaiting]) ?_
    . intro v hne
      simp [hold, hfree, hne.symm]
    . simp [hold, Call.holds]
    . intro hmem
      exact ⟨operation, hs.waits hmem (by rw [hcall]; rfl), Or.inr (Or.inr rfl)⟩
  | @finish t operation object result signal receiver condition hcall hbody hnotify =>
    have ⟨hsame, hsub⟩ := knows_of_notify hnotify
    have hwaiting : t ∉ s.condition.waiting := hs.not_waiting (by simp [hcall])
    have hunknown : ¬ condition.Knows t := by
      rw [hsame]
      simp [Condition.Knows, hwaiting]
    refine hs.setCall (by simp) ?_ (fun _ _ hv => hsub hv) rfl ?_ (by simp)
      (fun hmem => absurd (Or.inl hmem) hunknown) (fun hmem => absurd (Or.inr hmem) hunknown)
    . intro v hne
      dsimp only
      rw [hsame]
      simp [Condition.Knows, hne]
    . have hholder := hs.holder t
      rw [hcall] at hholder
      exact hholder
  | @wait t operation hcall hbody =>
    have hholder := (hs.holder t).mp (by rw [hcall]; rfl)
    refine hs.setCall ?_ ?_ ?_ rfl (by simp [hold, Call.holds]) ?_ ?_ (by simp [hold])
    . intro v hne
      simp [hold, hholder, hne.symm]
    . intro v hne
      simp [hold, Condition.Knows, hne]
    . intro v hne
      simp [hold, hne]
    . simp [hold, Condition.Knows]
    . intro _
      exact ⟨operation, ⟨s.object, hbody⟩, rfl⟩
  | @wake t operation hcall hsignalled =>
    have hholder := hs.holder t
    have hwaiting : t ∉ s.condition.waiting :=
      fun hmem => Finset.disjoint_left.mp s.condition.disjoint hmem hsignalled
    rw [hcall] at hholder
    refine hs.setCall (by simp) (by simp) (by simp) rfl ?_ (by simp) (by simp [hwaiting]) ?_
    . simpa [Call.holds] using hholder
    . intro hmem
      exact ⟨operation, hs.waits hmem (by rw [hcall]; rfl), Or.inr (Or.inl rfl)⟩
  | @wakeSpuriously t operation hcall hwaiting =>
    have hholder := hs.holder t
    have hsignalled : t ∉ s.condition.signalled := Finset.disjoint_left.mp s.condition.disjoint hwaiting
    rw [hcall] at hholder
    refine hs.setCall (by simp) ?_ (by simp) rfl ?_ (by simp) (by simp) (by simp [hsignalled])
    . intro v hne
      simp [Condition.Knows, hne]
    . simpa [Call.holds] using hholder
  | @leave t result hcall =>
    have hholder := (hs.holder t).mp (by rw [hcall]; rfl)
    have hwaiting : t ∉ s.condition.waiting := hs.not_waiting (by simp [hcall])
    have hsignalled : t ∉ s.condition.signalled := hs.not_signalled (by simp [hcall, Call.phase])
    refine hs.setCall ?_ (by simp [hold]) (by simp [hold]) rfl (by simp [hold, Call.holds]) (by simp)
      (by simp [hold, hwaiting]) (by simp [hold, hsignalled])
    intro v hne
    simp [hold, hholder, hne.symm]

def Signal.count : Signal → Nat
  | .one => 1
  | _ => 0

-- `need object n`: while somebody waits, `n` signals are under way to threads that can go on.
structure Signals (body : ο → σ → Section σ ρ) (need : σ → Nat → Prop) : Prop where
  wait : ∀ {operation object n}, body operation object = .wait → need object n → n = 0
  goOn : ∀ {operation object}, Waits body operation → body operation object ≠ .wait → need object 1
  finish : ∀ {operation object object' result signal n},
    body operation object = .finish object' result signal → need object' n → signal ≠ .everybody →
    ∃ m, need object m ∧ n ≤ m + signal.count ∧ (Waits body operation → n ≤ m - 1 + signal.count)

def Awake (need : σ → Nat → Prop) (s : Guarded ω ο ρ σ) : Prop :=
  ∀ n, need s.object n → s.condition.Covers n

variable {need : σ → Nat → Prop}

theorem covers_notify {condition condition' : Condition ω} {receiver : Option ω} {signal : Signal}
    {n m : Nat} (h : notify condition receiver signal = some condition') (hcovers : condition.Covers n)
    (hle : signal ≠ .everybody → m ≤ n + signal.count) : condition'.Covers m := by
  cases signal with
  | nobody =>
    simp only [notify, Option.ite_none_right_eq_some, Option.some.injEq] at h
    rw [← h.2]
    exact hcovers.mono (hle (by simp))
  | one => exact (hcovers.notify h).mono (hle (by simp))
  | everybody =>
    simp only [notify, Option.ite_none_right_eq_some, Option.some.injEq] at h
    rw [← h.2]
    apply Condition.covers_notifyAll

theorem back_of_not_signalled {condition : Condition ω} {t : ω} (h : t ∉ condition.signalled)
    : condition.back t = condition := by
  dsimp only [Condition.back]
  congr 1
  exact Finset.erase_eq_of_notMem h

theorem Stepped.awake (h : Stepped body s label s') (hsignals : Signals body need)
    (hs : Consistent body s) (hawake : s.Awake need) : s'.Awake need := by
  cases h with
  | call _ => exact hawake
  | enter _ _ => exact hawake
  | @finish t operation object result signal receiver condition hcall hbody hnotify =>
    intro n hn
    by_cases heverybody : signal = .everybody
    . exact covers_notify hnotify (Condition.covers_zero _) (by simp [heverybody])
    . have ⟨m, hm, hle, hwaits⟩ := hsignals.finish hbody hn heverybody
      have hcovers := hawake m hm
      by_cases hmem : t ∈ s.condition.signalled
      . have hoperation := hs.waits hmem (by rw [hcall]; rfl)
        exact covers_notify hnotify (hcovers.back t) fun _ => hwaits hoperation
      . rw [back_of_not_signalled hmem] at hnotify
        exact covers_notify hnotify hcovers fun _ => hle
  | wait hcall hbody =>
    intro n hn
    rw [hsignals.wait hbody hn]
    apply Condition.covers_zero
  | wake _ _ => exact hawake
  | wakeSpuriously _ _ =>
    intro n hn
    exact (hawake n hn).wake _
  | leave _ => exact hawake

def AtRest (body : ο → σ → Section σ ρ) (s : Guarded ω ο ρ σ) : Prop :=
  ∀ t, s.calls t = .idle ∨ ∃ operation, s.calls t = .waiting operation ∧ body operation s.object = .wait

theorem exists_notify (condition : Condition ω) (signal : Signal)
    : ∃ receiver condition', notify condition receiver signal = some condition' := by
  cases signal with
  | nobody => exact ⟨none, condition, by simp [notify]⟩
  | one =>
    rcases Finset.eq_empty_or_nonempty condition.waiting with hempty | ⟨w, hw⟩
    . exact ⟨none, condition, by simp [notify, Condition.notify, hempty]⟩
    . exact ⟨some w, condition.signal w, by simp [notify, Condition.notify, hw]⟩
  | everybody => exact ⟨none, condition.notifyAll, by simp [notify]⟩

theorem Consistent.holder_goesOn (hs : Consistent body s) {t : ω} (hholder : s.holder = some t)
    : ∃ label s', label.goesOn ∧ Stepped body s label s' := by
  have hholds := (hs.holder t).mpr hholder
  cases hcall : s.calls t with
  | inside operation =>
    cases hbody : body operation s.object with
    | wait => exact ⟨_, _, rfl, .wait hcall hbody⟩
    | finish object result signal =>
      have ⟨receiver, condition, hnotify⟩ := exists_notify (s.condition.back t) signal
      exact ⟨_, _, rfl, .finish hcall hbody hnotify⟩
  | leaving result => exact ⟨_, _, rfl, .leave hcall⟩
  | idle => simp [hcall, Call.holds] at hholds
  | entering operation => simp [hcall, Call.holds] at hholds
  | waiting operation => simp [hcall, Call.holds] at hholds

theorem Consistent.signalled_goesOn (hs : Consistent body s) {t : ω}
    (hmem : t ∈ s.condition.signalled) : ∃ label s', label.goesOn ∧ Stepped body s label s' := by
  cases hholder : s.holder with
  | some v => exact hs.holder_goesOn hholder
  | none =>
    have ⟨operation, _, hcall⟩ := hs.signalled t hmem
    rcases hcall with hcall | hcall | hcall
    . exact ⟨_, _, rfl, .wake hcall hmem⟩
    . exact ⟨_, _, rfl, .enter hcall hholder⟩
    . have := (hs.holder t).mp (by rw [hcall]; rfl)
      rw [hholder] at this
      contradiction

theorem atRest_of_stuck (hsignals : Signals body need) (hs : Consistent body s) (hawake : s.Awake need)
    (hstuck : ∀ label s', label.goesOn → ¬ Stepped body s label s') : AtRest body s := by
  have hfree : ∀ t, s.holder ≠ some t := by
    intro t hholder
    have ⟨label, s', hgoesOn, h⟩ := hs.holder_goesOn hholder
    exact hstuck label s' hgoesOn h
  have hunsignalled : ∀ t, t ∉ s.condition.signalled := by
    intro t hmem
    have ⟨label, s', hgoesOn, h⟩ := hs.signalled_goesOn hmem
    exact hstuck label s' hgoesOn h
  intro t
  cases hcall : s.calls t with
  | idle => exact Or.inl rfl
  | entering operation =>
    exact absurd (.enter hcall (Option.eq_none_iff_forall_ne_some.mpr hfree)) (hstuck _ _ rfl)
  | inside operation => exact absurd ((hs.holder t).mp (by rw [hcall]; rfl)) (hfree t)
  | leaving result => exact absurd ((hs.holder t).mp (by rw [hcall]; rfl)) (hfree t)
  | waiting operation =>
    refine Or.inr ⟨operation, rfl, ?_⟩
    apply Classical.byContradiction
    intro hbody
    have hmem : t ∈ s.condition.waiting := by
      cases hs.knows t operation hcall with
      | inl hmem => exact hmem
      | inr hmem => exact absurd hmem (hunsignalled t)
    have ⟨operation', hwaits, hcall'⟩ := hs.waiting t hmem
    rw [hcall] at hcall'
    injection hcall' with hsame
    have hcard := hawake 1 (hsignals.goOn (hsame ▸ hwaits) hbody) ⟨t, hmem⟩
    have ⟨v, hv⟩ := Finset.card_pos.mp hcard
    exact hunsignalled v hv

section Bound

variable [Fintype ω]

-- How many steps a thread is away from the end of its call or from its next wait, with `n` for each
-- signal that the call can still send
def Call.share (n : Nat) (signalled : Bool) : Call ο ρ → Nat
  | .idle => 0
  | .entering _ => 3 + n
  | .inside _ => 2 + n
  | .waiting _ => (if signalled then 4 else 0) + n
  | .leaving _ => 1

def share (s : Guarded ω ο ρ σ) (t : ω) : Nat :=
  (s.calls t).share (4 * Fintype.card ω) (t ∈ s.condition.signalled)

def potential (s : Guarded ω ο ρ σ) : Nat := ∑ t, s.share t

theorem potential_le (t : ω) (k : Nat) (h : ∀ v ≠ t, s'.share v ≤ s.share v + k)
    : s'.potential + s.share t ≤ s.potential + s'.share t + Fintype.card ω * k := by
  have hothers : ∑ v ∈ Finset.univ.erase t, s'.share v
      ≤ (∑ v ∈ Finset.univ.erase t, s.share v) + Fintype.card ω * k := calc
    _ ≤ ∑ v ∈ Finset.univ.erase t, (s.share v + k) := by
      apply Finset.sum_le_sum
      intro v hv
      exact h v (Finset.ne_of_mem_erase hv)
    _ = (∑ v ∈ Finset.univ.erase t, s.share v) + (Finset.univ.erase t).card * k := by
      rw [Finset.sum_add_distrib, Finset.sum_const_nat fun _ _ => rfl]
    _ ≤ _ := by
      apply Nat.add_le_add_left
      apply Nat.mul_le_mul_right
      exact Finset.card_le_univ _
  have hsum := Finset.add_sum_erase Finset.univ s.share (Finset.mem_univ t)
  have hsum' := Finset.add_sum_erase Finset.univ s'.share (Finset.mem_univ t)
  dsimp only [potential]
  omega

theorem share_setCall (s : Guarded ω ο ρ σ) (t : ω) (call : Call ο ρ)
    : (s.setCall t call).share t = call.share (4 * Fintype.card ω) (t ∈ s.condition.signalled) := by
  dsimp only [share]
  rw [calls_setCall, if_pos rfl]
  rfl

theorem potential_setCall (s s' : Guarded ω ο ρ σ) (t : ω) (call : Call ο ρ) (hcalls : s'.calls = s.calls)
    (hsignalled : ∀ v ≠ t, v ∈ s'.condition.signalled ↔ v ∈ s.condition.signalled)
    : (s'.setCall t call).potential + s.share t
        ≤ s.potential + call.share (4 * Fintype.card ω) (t ∈ s'.condition.signalled) := by
  have hothers : ∀ v ≠ t, (s'.setCall t call).share v ≤ s.share v + 0 := by
    intro v hne
    dsimp only [share]
    rw [calls_setCall, if_neg hne, hcalls, ← decide_eq_decide.mpr (hsignalled v hne)]
    exact Nat.le_refl _
  have h := potential_le t 0 hothers
  rw [share_setCall] at h
  omega

theorem potential_notify (s s' : Guarded ω ο ρ σ) (t : ω) (call : Call ο ρ) (hcalls : s'.calls = s.calls)
    : (s'.setCall t call).potential + s.share t
        ≤ s.potential + call.share (4 * Fintype.card ω) (t ∈ s'.condition.signalled)
          + 4 * Fintype.card ω := by
  have hothers : ∀ v ≠ t, (s'.setCall t call).share v ≤ s.share v + 4 := by
    intro v hne
    dsimp only [share]
    rw [calls_setCall, if_neg hne, hcalls]
    cases s.calls v <;> grind [Call.share]
  have h := potential_le t 4 hothers
  rw [share_setCall] at h
  omega

theorem Stepped.potential (h : Stepped body s label s')
    : s'.potential + 1 ≤ s.potential + label.cost := by
  cases h with
  | @call t operation hcall =>
    have hsum := potential_setCall s s t (.entering operation) rfl fun _ _ => Iff.rfl
    simp only [share, hcall, Call.share] at hsum
    dsimp only [Label.cost]
    omega
  | @enter t operation hcall hfree =>
    have hsum := potential_setCall s (s.hold (some t)) t (.inside operation) rfl
      fun _ _ => Iff.rfl
    simp only [share, hcall, Call.share] at hsum
    dsimp only [Label.cost]
    omega
  | @finish t operation object result signal receiver condition hcall hbody hnotify =>
    have hsum := potential_notify s { s with object := object, condition := condition } t
      (.leaving result) rfl
    simp only [share, hcall, Call.share] at hsum
    dsimp only [Label.cost]
    omega
  | @wait t operation hcall hbody =>
    have hsum := potential_setCall s ({ s with condition := s.condition.wait t }.hold none) t
      (.waiting operation) rfl (by intro v hne; simp [hold, hne])
    have hnot : t ∉ (s.condition.wait t).signalled := by simp
    simp only [share, hcall, Call.share, condition_hold, hnot, decide_false, Bool.false_eq_true,
      ↓reduceIte] at hsum
    dsimp only [Label.cost]
    omega
  | @wake t operation hcall hsignalled =>
    have hsum := potential_setCall s s t (.entering operation) rfl fun _ _ => Iff.rfl
    simp only [share, hcall, Call.share, hsignalled, decide_true, ↓reduceIte] at hsum
    dsimp only [Label.cost]
    omega
  | @wakeSpuriously t operation hcall hwaiting =>
    have hsum := potential_setCall s { s with condition := s.condition.wake t } t
      (.entering operation) rfl fun _ _ => Iff.rfl
    simp only [share, hcall, Call.share] at hsum
    dsimp only [Label.cost]
    omega
  | @leave t result hcall =>
    have hsum := potential_setCall s (s.hold none) t .idle rfl fun _ _ => Iff.rfl
    simp only [share, hcall, Call.share] at hsum
    dsimp only [Label.cost]
    omega

end Bound

variable [DecidableEq ο] [DecidableEq ρ] {object : σ}

theorem run_consistent (hrun : run body (init object) labels = some s) : Consistent body s := by
  apply Machine.run_invariant _ (consistent_init object) hrun
  intro s label s' hs h
  exact (stepped_iff.mp h).consistent hs

theorem run_awake (hsignals : Signals body need) (hrun : run body (init object) labels = some s)
    : s.Awake need := by
  have h : Consistent body s ∧ s.Awake need := by
    apply Machine.run_invariant (P := fun s => Consistent body s ∧ s.Awake need) _ _ hrun
    . intro s label s' hs h
      have h := stepped_iff.mp h
      exact ⟨h.consistent hs.1, h.awake hsignals hs.1 hs.2⟩
    . exact ⟨consistent_init object, fun _ _ => Condition.covers_empty _⟩
  exact h.2

theorem run_atRest (hsignals : Signals body need) (hrun : run body (init object) labels = some s)
    (hstuck : ∀ label, label.goesOn → s.step body label = none) : AtRest body s := by
  apply atRest_of_stuck hsignals (run_consistent hrun) (run_awake hsignals hrun)
  intro label s' hgoesOn h
  have hnone := hstuck label hgoesOn
  rw [stepped_iff.mpr h] at hnone
  contradiction

theorem length_le [Fintype ω] (hrun : run body (init object) labels = some s)
    : labels.length ≤ (4 * Fintype.card ω + 4) * labels.countP Label.isCall
        + 4 * labels.countP Label.isSpurious := by
  have h : s.potential + labels.length ≤ (labels.map Label.cost).sum := by
    apply Machine.run_induction
      (P := fun labels s => s.potential + labels.length ≤ (labels.map Label.cost).sum) _ _ hrun
    . simp [potential, share, init, Call.share]
    . intro labels s label s' _ hle h
      have hstep := (stepped_iff.mp h).potential
      simp only [List.length_append, List.map_append, List.sum_append, List.map_cons, List.map_nil,
        List.sum_cons, List.sum_nil, List.length_cons, List.length_nil]
      omega
  rw [sum_cost] at h
  omega

end Guarded
