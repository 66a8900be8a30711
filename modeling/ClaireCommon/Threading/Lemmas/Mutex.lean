import ClaireCommon.Threading.Impl.Mutex

/-!
This module contains that the mutex knows its holder: a thread is told that it has the mutex exactly if it
has, whatever other threads do and however often it has waited in between.
-/

namespace Claire
namespace Mutex

variable {ω : Type} {tid : ω → Nat} {s s' : Mutex ω} {t : ω}

structure Inv (tid : ω → Nat) (s : Mutex ω) : Prop where
  owner_iff : ∀ t, s.owner = some t ↔ (s.place t).hasMutex
  inside : ∀ t, s.place t = .inside → s.holder = tid t
  nobody : (∀ t, s.place t ≠ .inside) → s.holder = 0

-- What `MutexLock` and the users of `Condition` stick to
def Permitted (s : Mutex ω) : Label ω → Prop
  | .lock t => s.place t ≠ .inside
  | .unAssignHolder t | .beginWait t _ => s.place t ≠ .outside
  | _ => True

theorem inv_init : Inv tid (init : Mutex ω) where
  owner_iff := by
    intro t
    simp [init, Place.hasMutex]
  inside := by
    intro t h
    contradiction
  nobody := fun _ => rfl

theorem Inv.eq_of_hasMutex (hinv : Inv tid s) {t' : ω} (h : (s.place t).hasMutex)
    (h' : (s.place t').hasMutex) : t = t' := by
  have howner := (hinv.owner_iff t).mpr h
  rw [(hinv.owner_iff t').mpr h'] at howner
  injection howner with heq
  exact heq.symm

theorem Inv.not_inside (hinv : Inv tid s) (h : (s.place t).hasMutex) {t' : ω} (hne : t' ≠ t)
    : s.place t' ≠ .inside := by
  intro hinside
  apply hne
  exact hinv.eq_of_hasMutex (by rw [hinside]; rfl) h

variable [DecidableEq ω]

theorem setPlace_place (s : Mutex ω) (t t' : ω) (place : Place)
    : (s.setPlace t place).place t' = if t' = t then place else s.place t' := by
  unfold setPlace
  dsimp only
  rw [Function.update_apply]

theorem Inv.keep (hinv : Inv tid s) {place : Place} {holder : Nat}
    (hmutex : place.hasMutex = (s.place t).hasMutex)
    (hinside : place = .inside → holder = tid t)
    (hother : ∀ t', t' ≠ t → s.place t' = .inside → holder = tid t')
    (hnobody : place ≠ .inside → (∀ t', t' ≠ t → s.place t' ≠ .inside) → holder = 0)
    : Inv tid ({ s with holder := holder }.setPlace t place) where
  owner_iff := by
    intro t'
    rw [setPlace_place]
    split
    . next heq =>
      rw [heq, hmutex]
      exact hinv.owner_iff t
    . exact hinv.owner_iff t'
  inside := by
    intro t' h
    rw [setPlace_place] at h
    split at h
    . next heq =>
      rw [heq]
      exact hinside h
    . next hne => exact hother t' hne h
  nobody := by
    intro h
    apply hnobody
    . have := h t
      rw [setPlace_place, if_pos rfl] at this
      exact this
    . intro t' hne
      have := h t'
      rw [setPlace_place, if_neg hne] at this
      exact this

theorem Inv.assign (hinv : Inv tid s) (hmutex : (s.place t).hasMutex)
    : Inv tid ({ s with holder := tid t }.setPlace t .inside) := by
  have hplace : Place.inside.hasMutex = (s.place t).hasMutex := hmutex.symm
  apply hinv.keep hplace (fun _ => rfl)
  . intro t' hne hinside
    exact absurd hinside (hinv.not_inside hmutex hne)
  . intro h
    contradiction

theorem Inv.unAssign (hinv : Inv tid s) (hinside : s.place t = .inside) {place : Place}
    (hmutex : place.hasMutex) (hplace : place ≠ .inside)
    : Inv tid ({ s with holder := 0 }.setPlace t place) := by
  have hhas : (s.place t).hasMutex := by
    rw [hinside]
    rfl
  apply hinv.keep (hmutex.trans hhas.symm) (fun h => absurd h hplace)
  . intro t' hne hinside'
    exact absurd hinside' (hinv.not_inside hhas hne)
  . intro _ _
    rfl

theorem Inv.acquire (hinv : Inv tid s) (howner : s.owner = none) {place : Place} (hmutex : place.hasMutex)
    (hplace : place ≠ .inside) : Inv tid ({ s with owner := some t }.setPlace t place) := by
  have hnobody : ∀ t', (s.place t').hasMutex = false := by
    intro t'
    have := (hinv.owner_iff t').not
    rw [howner] at this
    simpa using this
  have houtside : ∀ t', s.place t' ≠ .inside := by
    intro t' h
    have := hnobody t'
    rw [h] at this
    contradiction
  refine ⟨?_, ?_, ?_⟩
  . intro t'
    rw [setPlace_place]
    split
    . next heq =>
      rw [heq]
      exact ⟨fun _ => hmutex, fun _ => rfl⟩
    . next hne =>
      rw [hnobody t']
      constructor
      . intro h
        injection h with h
        exact absurd h.symm hne
      . intro h
        contradiction
  . intro t' h
    rw [setPlace_place] at h
    split at h
    . exact absurd h hplace
    . exact absurd h (houtside t')
  . intro _
    exact hinv.nobody houtside

theorem Inv.release (hinv : Inv tid s) (hmutex : (s.place t).hasMutex) (hinside : s.place t ≠ .inside)
    {place : Place} (hplace : place.hasMutex = false)
    : Inv tid ({ s with owner := none }.setPlace t place) := by
  have houtside : ∀ t', s.place t' ≠ .inside := by
    intro t'
    by_cases heq : t' = t
    . rw [heq]
      exact hinside
    . exact hinv.not_inside hmutex heq
  refine ⟨?_, ?_, ?_⟩
  . intro t'
    rw [setPlace_place]
    split
    . simp [setPlace, hplace]
    . next hne =>
      constructor
      . intro h
        contradiction
      . intro h
        exact absurd (hinv.eq_of_hasMutex h hmutex) hne
  . intro t' h
    rw [setPlace_place] at h
    split at h
    . rw [h] at hplace
      contradiction
    . exact absurd h (houtside t')
  . intro _
    exact hinv.nobody houtside

theorem Inv.wake (hinv : Inv tid s) (hmutex : (s.place t).hasMutex = false) {place : Place}
    (hplace : place.hasMutex = false) : Inv tid (s.setPlace t place) := by
  apply hinv.keep (hplace.trans hmutex.symm)
  . intro h
    rw [h] at hplace
    contradiction
  . intro t' _ h
    exact hinv.inside t' h
  . intro _ h
    apply hinv.nobody
    intro t' hinside
    apply h t' _ hinside
    intro heq
    rw [← heq, hinside] at hmutex
    contradiction

theorem acquire_eq_next {place : Place} (h : s.acquire t place = .next s')
    : s.owner = none ∧ s' = { s with owner := some t }.setPlace t place := by
  unfold acquire at h
  split at h
  . next howner =>
    injection h with h
    exact ⟨howner, h.symm⟩
  . split at h <;> contradiction

theorem release_eq_next {place : Place} (h : s.release t place = .next s')
    : s' = { s with owner := none }.setPlace t place := by
  unfold release at h
  split at h
  . injection h with h
    exact h.symm
  . contradiction

theorem Inv.step (hinv : Inv tid s) {a : Label ω} (hpermitted : Permitted s a)
    (h : s.step tid a = .next s') : Inv tid s' := by
  unfold Mutex.step at h
  split at h
  . -- `lock`
    have hacquire : ∀ place : Place, place.hasMutex → place ≠ .inside → ∀ {t : ω},
        s.acquire t place = .next s' → Inv tid s' := by
      intro place hmutex hplace t h
      have ⟨howner, hs'⟩ := acquire_eq_next h
      rw [hs']
      exact hinv.acquire howner hmutex hplace
    split at h
    . exact hacquire .locking rfl (by simp) h
    . exact hacquire .locking rfl (by simp) h
    . contradiction
  . split at h
    . next hplace =>
      injection h with h
      rw [← h]
      exact hinv.assign (by rw [hplace]; rfl)
    . contradiction
  . split at h
    . next hplace => exact absurd hplace hpermitted
    . next hplace =>
      injection h with h
      rw [← h]
      exact hinv.unAssign hplace rfl (by simp)
    . contradiction
  . split at h
    . next hplace =>
      rw [release_eq_next h]
      exact hinv.release (by rw [hplace]; rfl) (by simp [hplace]) rfl
    . contradiction
  . split at h
    . next hplace => exact absurd hplace hpermitted
    . next hplace =>
      injection h with h
      rw [← h]
      exact hinv.unAssign hplace rfl (by simp)
    . contradiction
  . split at h
    . next hplace =>
      rw [release_eq_next h]
      exact hinv.release (by rw [hplace]; rfl) (by simp [hplace]) rfl
    . contradiction
  . split at h
    . next hplace =>
      split at h
      . injection h with h
        rw [← h]
        exact hinv.wake (by rw [hplace]; rfl) rfl
      . contradiction
    . contradiction
  . split at h
    . have ⟨howner, hs'⟩ := acquire_eq_next h
      rw [hs']
      exact hinv.acquire howner rfl (by simp)
    . contradiction
  . split at h
    . next hplace =>
      split at h
      . injection h with h
        rw [← h]
        exact hinv.assign (by rw [hplace]; rfl)
      . contradiction
    . contradiction
  . split at h
    . split at h
      . injection h with h
        rw [← h]
        exact hinv
      . contradiction
    . split at h
      . injection h with h
        rw [← h]
        exact hinv
      . contradiction
    . contradiction

inductive Runs (tid : ω → Nat) : List (Label ω) → Mutex ω → Prop
  | init : Runs tid [] init
  | step {as : List (Label ω)} {s s' : Mutex ω} {a : Label ω} (hrun : Runs tid as s)
      (hpermitted : Permitted s a) (hstep : s.step tid a = .next s') : Runs tid (as ++ [a]) s'

theorem Runs.inv {as : List (Label ω)} (h : Runs tid as s) : Inv tid s := by
  induction h with
  | init => exact inv_init
  | step _ hpermitted hstep ih => exact ih.step hpermitted hstep

-- What a thread does next, where it does not ask in between whether it has the mutex
def Place.label (t : ω) : Place → Label ω
  | outside => .lock t
  | locking => .assignHolder t
  | inside => .unAssignHolder t
  | unlocking => .unlock t
  | toWait _ => .sleep t
  | waiting _ => .wake t false
  | woken _ => .relock t
  | relocked timedOut => .endWait t timedOut

def GoesOn (tid : ω → Nat) (s : Mutex ω) (t : ω) : Prop :=
  Permitted s ((s.place t).label t) ∧ ∃ s', s.step tid ((s.place t).label t) = .next s'

structure KnowsHolder (tid : ω → Nat) (s : Mutex ω) : Prop where
  exclusive : ∀ t t', (s.place t).hasMutex → (s.place t').hasMutex → t = t'
  isLocked_iff : ∀ t, s.holds tid t ↔ s.place t = .inside
  not_stops : ∀ a, Permitted s a → s.step tid a ≠ .stop
  -- A thread waits for nothing but a thread that has the mutex, which can do its own next step.
  goesOn : ∀ t, s.GoesOn tid t ∨ ∃ t', t' ≠ t ∧ (s.place t').hasMutex ∧ s.GoesOn tid t'

omit [DecidableEq ω] in
theorem Inv.holds_iff (hinv : Inv tid s) (htid : Function.Injective tid) (hpos : ∀ t, tid t ≠ 0) (t : ω)
    : s.holds tid t ↔ s.place t = .inside := by
  unfold holds
  rw [decide_eq_true_iff]
  constructor
  . intro h
    apply Classical.byContradiction
    intro hplace
    by_cases hsome : ∃ t', s.place t' = .inside
    . have ⟨t', ht'⟩ := hsome
      rw [hinv.inside t' ht'] at h
      rw [htid h] at ht'
      exact hplace ht'
    . rw [hinv.nobody (fun t' ht' => hsome ⟨t', ht'⟩)] at h
      exact hpos t h.symm
  . exact hinv.inside t

theorem Inv.acquire_ne_stop (hinv : Inv tid s) (hmutex : (s.place t).hasMutex = false) (place : Place)
    : s.acquire t place ≠ .stop := by
  unfold Mutex.acquire
  split
  . simp
  . next t' howner =>
    split
    . next heq =>
      have := (hinv.owner_iff t').mp howner
      rw [heq, hmutex] at this
      contradiction
    . simp

theorem Inv.release_eq (hinv : Inv tid s) (hmutex : (s.place t).hasMutex) (place : Place)
    : s.release t place = .next ({ s with owner := none }.setPlace t place) :=
  if_pos ((hinv.owner_iff t).mpr hmutex)

theorem Inv.not_stops (hinv : Inv tid s) {a : Label ω} (hpermitted : Permitted s a)
    : s.step tid a ≠ .stop := by
  unfold Mutex.step
  split
  . split
    . next hplace => exact hinv.acquire_ne_stop (by rw [hplace]; rfl) _
    . next hplace => exact absurd hplace hpermitted
    . simp
  . split <;> simp
  . split <;> simp
  . split
    . next hplace => rw [hinv.release_eq (by rw [hplace]; rfl)]; simp
    . simp
  . split <;> simp
  . split
    . next hplace => rw [hinv.release_eq (by rw [hplace]; rfl)]; simp
    . simp
  . split
    . split <;> simp
    . simp
  . split
    . next hplace => exact hinv.acquire_ne_stop (by rw [hplace]; rfl) _
    . simp
  . split
    . split <;> simp
    . simp
  . split
    . split <;> simp
    . split <;> simp
    . simp

omit [DecidableEq ω] in
theorem permitted_label (s : Mutex ω) (t : ω) : Permitted s ((s.place t).label t) := by
  cases hplace : s.place t with
  | outside => simp [Permitted, Place.label, hplace]
  | inside => simp [Permitted, Place.label, hplace]
  | _ => trivial

theorem Inv.goesOn_of_hasMutex (hinv : Inv tid s) (hmutex : (s.place t).hasMutex) : s.GoesOn tid t := by
  apply And.intro (permitted_label s t)
  cases hplace : s.place t with
  | locking => exact ⟨_, by simp only [Mutex.step, Place.label, hplace]; rfl⟩
  | inside => exact ⟨_, by simp only [Mutex.step, Place.label, hplace]; rfl⟩
  | unlocking =>
    refine ⟨{ s with owner := none }.setPlace t .outside, ?_⟩
    simp only [Mutex.step, Place.label, hplace]
    exact hinv.release_eq hmutex _
  | toWait timed =>
    refine ⟨{ s with owner := none }.setPlace t (.waiting timed), ?_⟩
    simp only [Mutex.step, Place.label, hplace]
    exact hinv.release_eq hmutex _
  | relocked timedOut =>
    exact ⟨_, by simp only [Mutex.step, Place.label, hplace, ↓reduceIte]; rfl⟩
  | _ =>
    rw [hplace] at hmutex
    contradiction

theorem goesOn_of_free (hfree : s.owner = none) (hmutex : (s.place t).hasMutex = false)
    : s.GoesOn tid t := by
  apply And.intro (permitted_label s t)
  cases hplace : s.place t with
  | outside =>
    refine ⟨{ s with owner := some t }.setPlace t .locking, ?_⟩
    simp only [Mutex.step, Place.label, hplace, Mutex.acquire, hfree]
  | waiting timed =>
    refine ⟨s.setPlace t (.woken false), ?_⟩
    simp [Mutex.step, Place.label, hplace]
  | woken timedOut =>
    refine ⟨{ s with owner := some t }.setPlace t (.relocked timedOut), ?_⟩
    simp only [Mutex.step, Place.label, hplace, Mutex.acquire, hfree]
  | _ =>
    rw [hplace] at hmutex
    contradiction

theorem Inv.goesOn (hinv : Inv tid s) (t : ω)
    : s.GoesOn tid t ∨ ∃ t', t' ≠ t ∧ (s.place t').hasMutex ∧ s.GoesOn tid t' := by
  cases hmutex : (s.place t).hasMutex with
  | true => exact .inl (hinv.goesOn_of_hasMutex hmutex)
  | false =>
    cases howner : s.owner with
    | none => exact .inl (goesOn_of_free howner hmutex)
    | some t' =>
      have hmutex' := (hinv.owner_iff t').mp howner
      refine .inr ⟨t', ?_, hmutex', hinv.goesOn_of_hasMutex hmutex'⟩
      intro heq
      rw [heq, hmutex] at hmutex'
      contradiction

theorem knowsHolder_of_runs (htid : Function.Injective tid) (hpos : ∀ t, tid t ≠ 0) {as : List (Label ω)}
    (hruns : Runs tid as s) : KnowsHolder tid s where
  exclusive := fun _ _ h h' => hruns.inv.eq_of_hasMutex h h'
  isLocked_iff := hruns.inv.holds_iff htid hpos
  not_stops := fun _ => hruns.inv.not_stops
  goesOn := hruns.inv.goesOn

theorem knowsHolder_of_runs_wait
    : ∃ s : Mutex Nat, Runs Nat.succ [.lock 0, .assignHolder 0, .beginWait 0 true, .sleep 0, .lock 1,
        .wake 0 true, .assignHolder 1] s ∧ KnowsHolder Nat.succ s := by
  have hruns := @Runs.step Nat _ Nat.succ _ _ _ (.lock 0) .init (by simp [Permitted, init]) rfl
  have hruns := Runs.step (a := .assignHolder 0) hruns trivial rfl
  have hruns := Runs.step (a := .beginWait 0 true) hruns (by simp [Permitted, setPlace]) rfl
  have hruns := Runs.step (a := .sleep 0) hruns trivial rfl
  have hruns := Runs.step (a := .lock 1) hruns (by simp [Permitted, setPlace, init]) rfl
  have hruns := Runs.step (a := .wake 0 true) hruns trivial rfl
  have hruns := Runs.step (a := .assignHolder 1) hruns trivial rfl
  exact ⟨_, hruns, knowsHolder_of_runs (fun _ _ => Nat.succ.inj) Nat.succ_ne_zero hruns⟩

end Mutex
end Claire
