import ClaireCommon.Events.Lemmas.TimeoutQueue

/-!
This module contains what holds over whole runs of the timer queue: which ids are handed out and
inserted, and how the calls of `Run` show up in the labels.
-/

namespace Claire

universe u

variable {κ : Type u}

namespace TimeoutQueue

def Label.handedOut : Label κ → Option Int
  | .add id _ _ => some id
  | .addRepeating id _ _ _ => some id
  | _ => none

def Label.executed : Label κ → Option Int
  | .execute id => some id
  | _ => none

def ids (ls : List (Label κ)) : List Int := ls.filterMap Label.handedOut

def executions (ls : List (Label κ)) : List Int := ls.filterMap Label.executed

def current (q : TimeoutQueue κ) : Option (Event κ) :=
  match q.phase with
  | .idle => none
  | .running _ current _ => current

theorem next_of_step {q q' : TimeoutQueue κ} {l : Label κ} (h : step q l = some q')
    : match l.handedOut with
      | some id => id = q.next ∧ q'.next = q.next + 1
      | none => q'.next = q.next := by
  cases l with
  | add id expiration callback =>
    obtain ⟨hid, rfl⟩ := step_add h
    exact ⟨hid, rfl⟩
  | addRepeating id now interval callback =>
    obtain ⟨hid, rfl⟩ := step_addRepeating h
    exact ⟨hid, rfl⟩
  | addInLoop id clock =>
    obtain ⟨event, -, rfl⟩ := step_addInLoop h
    simp [Label.handedOut]
  | cancelInLoop id =>
    obtain rfl := step_cancelInLoop h
    rfl
  | expire =>
    obtain ⟨_, _, rfl⟩ := step_expire h
    rfl
  | runStart now =>
    obtain ⟨-, rfl⟩ := step_runStart h
    rfl
  | execute id =>
    obtain ⟨_, _, _, _, _, _, rfl⟩ := step_execute h
    rfl
  | runEnd clock =>
    obtain ⟨_, _, _, rfl⟩ := step_runEnd h
    rfl

theorem next_le_of_step {q q' : TimeoutQueue κ} {l : Label κ} (h : step q l = some q')
    : q.next ≤ q'.next := by
  have := next_of_step h
  split at this <;> omega

theorem next_le_of_run {q q' : TimeoutQueue κ} {ls : List (Label κ)} (h : run q ls = some q')
    : q.next ≤ q'.next := by
  apply Machine.run_invariant (P := fun q' => q.next ≤ q'.next) _ _ h
  . intro m l m' hle hstep
    have := next_le_of_step hstep
    omega
  . omega

theorem ids_of_run {q q' : TimeoutQueue κ} {ls : List (Label κ)} (h : run q ls = some q')
    : (ids ls).Nodup ∧ ∀ id ∈ ids ls, q.next ≤ id ∧ id < q'.next := by
  induction ls generalizing q with
  | nil => simp [ids]
  | cons l ls ih =>
    rw [run, Machine.run_cons_eq_some] at h
    have ⟨m, hm, hrun⟩ := h
    have hnext := next_of_step hm
    have hle := next_le_of_run hrun
    have ih := ih hrun
    unfold ids at ih ⊢
    rw [List.filterMap_cons]
    split at hnext
    . next id hid =>
      simp only [hid, List.nodup_cons, List.mem_cons]
      refine ⟨⟨?_, ih.1⟩, ?_⟩
      . intro hmem
        have := ih.2 id hmem
        omega
      . intro id' hid'
        cases hid' with
        | inl heq => omega
        | inr hmem =>
          have := ih.2 id' hmem
          omega
    . next hid =>
      simp only [hid]
      refine ⟨ih.1, ?_⟩
      intro id' hid'
      have := ih.2 id' hid'
      omega

theorem mem_ids_of_handedOut {ls : List (Label κ)} {l : Label κ} {id : Int}
    (hl : l.handedOut = some id) (h : l ∈ ls) : id ∈ ids ls := by
  unfold ids
  rw [List.mem_filterMap]
  apply Exists.intro l ⟨h, hl⟩

theorem mem_left_of_handedOut {q q₁ q₂ : TimeoutQueue κ} {ls₁ ls₂ : List (Label κ)} {l : Label κ}
    {id : Int} (hl : l.handedOut = some id) (h : run q (ls₁ ++ ls₂) = some q₂)
    (hls₁ : run q ls₁ = some q₁) (hmem : l ∈ ls₁ ++ ls₂) (hid : id < q₁.next) : l ∈ ls₁ := by
  rw [List.mem_append] at hmem
  cases hmem with
  | inl hmem => apply hmem
  | inr hmem =>
    rw [run, Machine.run_append_eq_some] at h
    have ⟨m, hm, hrun⟩ := h
    rw [run, hm, Option.some.injEq] at hls₁
    have := (ids_of_run hrun).2 id (mem_ids_of_handedOut hl hmem)
    rw [hls₁] at this
    omega

def ReinsertsAccepted (now : Int) (timeouts : TimeoutSet κ) : List (Event κ) → Prop
  | [] => True
  | event :: expired =>
    (event.repeatInterval ≥ 0 → (timeouts.insert (event.reschedule now)).2 = true)
      ∧ ReinsertsAccepted now (reinsert now timeouts event) expired

def InsertsAccepted (q : TimeoutQueue κ) : Label κ → Prop
  | .addInLoop id _ =>
    ∀ event, q.bound.find? (·.id = id) = some event → (q.timeouts.insert event).2 = true
  | .runStart now => ReinsertsAccepted now (q.timeouts.eraseUpTo now) (q.timeouts.upTo now)
  | _ => True

theorem reinsertsAccepted {now : Int} {timeouts : TimeoutSet κ} {expired : List (Event κ)}
    (hnodup : (expired.map Event.id).Nodup) (hfresh : ∀ e ∈ expired, e.id ∉ timeouts.keys)
    : ReinsertsAccepted now timeouts expired := by
  induction expired generalizing timeouts with
  | nil => trivial
  | cons e expired ih =>
    rw [List.map_cons, List.nodup_cons] at hnodup
    constructor
    . intro _
      rw [OrderedSet.insert_accepted, Event.reschedule_id]
      exact hfresh e List.mem_cons_self
    . apply ih hnodup.2
      intro e' he' hk
      rw [OrderedSet.mem_keys] at hk
      have ⟨a, ha, hid⟩ := hk
      have hold : a = e.reschedule now ∨ a ∈ timeouts := by
        unfold reinsert at ha
        split at ha
        . exact OrderedSet.eq_or_mem_of_mem_insert ha
        . exact Or.inr ha
      cases hold with
      | inl heq =>
        rw [heq, Event.reschedule_id] at hid
        apply hnodup.1
        rw [hid]
        exact List.mem_map_of_mem he'
      | inr hmem =>
        apply hfresh e' (List.mem_cons_of_mem _ he')
        rw [← hid]
        exact OrderedSet.key_mem_keys hmem

theorem insertsAccepted_of_inv {q : TimeoutQueue κ} (hinv : Inv q) (l : Label κ)
    : InsertsAccepted q l := by
  cases l with
  | addInLoop id clock =>
    intro event hfind
    rw [OrderedSet.insert_accepted]
    apply hinv.bound_timeouts
    exact List.mem_of_find?_eq_some hfind
  | runStart now =>
    have hnodup := q.timeouts.nodup_upTo_above now
    rw [List.nodup_append] at hnodup
    apply reinsertsAccepted hnodup.1
    intro e he hk
    rw [OrderedSet.mem_keys] at hk
    have ⟨a, ha, hid⟩ := hk
    exact hnodup.2.2 e.id (List.mem_map_of_mem he) a.id (List.mem_map_of_mem ha) hid.symm
  | _ => trivial

def RunningAt (now : Int) (q : TimeoutQueue κ) : Prop :=
  ∃ current rest, q.phase = .running now current rest

def PhaseAfter (q q' : TimeoutQueue κ) : Label κ → Prop
  | .runStart now => q.phase = .idle ∧ RunningAt now q'
  | .runEnd _ => q.rest = [] ∧ q'.phase = .idle
  | .execute id => ∃ event, q.rest = event :: q'.rest ∧ event.id = id
      ∧ q'.current = some event ∧ ∀ now, RunningAt now q → RunningAt now q'
  | _ => q'.phase = q.phase

theorem phase_of_step {q q' : TimeoutQueue κ} {l : Label κ} (h : step q l = some q')
    : PhaseAfter q q' l := by
  cases l with
  | add id expiration callback =>
    obtain ⟨-, rfl⟩ := step_add h
    rfl
  | addRepeating id now interval callback =>
    obtain ⟨-, rfl⟩ := step_addRepeating h
    rfl
  | addInLoop id clock =>
    obtain ⟨event, -, rfl⟩ := step_addInLoop h
    simp [PhaseAfter]
  | cancelInLoop id =>
    obtain rfl := step_cancelInLoop h
    rfl
  | expire =>
    obtain ⟨_, _, rfl⟩ := step_expire h
    rfl
  | runStart now =>
    obtain ⟨hphase, rfl⟩ := step_runStart h
    exact ⟨hphase, none, _, rfl⟩
  | execute id =>
    obtain ⟨now, current, event, rest, hphase, hid, rfl⟩ := step_execute h
    refine ⟨event, by simp [TimeoutQueue.rest, hphase], hid, rfl, ?_⟩
    intro now' hrunning
    obtain ⟨current', rest', hphase'⟩ := hrunning
    rw [hphase, Phase.running.injEq] at hphase'
    rw [← hphase'.1]
    exact ⟨_, _, rfl⟩
  | runEnd clock =>
    obtain ⟨_, _, hphase, rfl⟩ := step_runEnd h
    exact ⟨by simp [rest, hphase], rfl⟩

theorem rest_of_phase {q q' : TimeoutQueue κ} (h : q'.phase = q.phase) : q'.rest = q.rest := by
  simp [rest, h]

theorem rest_of_step {q q' : TimeoutQueue κ} {l : Label κ} (hl : ∀ now, l ≠ .runStart now)
    (h : step q l = some q')
    : q.rest.map Event.id = l.executed.toList ++ q'.rest.map Event.id := by
  have hphase := phase_of_step h
  cases l with
  | runStart now => apply absurd rfl (hl now)
  | runEnd clock =>
    have hrest : q'.rest = [] := by
      unfold rest
      rw [hphase.2]
    rw [hphase.1, hrest]
    rfl
  | execute id =>
    have ⟨event, hrest, hid, _⟩ := hphase
    rw [hrest, List.map_cons, hid]
    rfl
  | _ =>
    dsimp only [PhaseAfter] at hphase
    rw [rest_of_phase hphase]
    rfl

theorem rest_of_run {q q' : TimeoutQueue κ} {ls : List (Label κ)}
    (hls : ∀ now, .runStart now ∉ ls) (h : run q ls = some q')
    : q.rest.map Event.id = executions ls ++ q'.rest.map Event.id := by
  induction ls generalizing q with
  | nil =>
    simp only [run, Machine.run_nil, Option.some.injEq] at h
    rw [h]
    rfl
  | cons l ls ih =>
    rw [run, Machine.run_cons_eq_some] at h
    have ⟨m, hm, hrun⟩ := h
    have hl : ∀ now, l ≠ .runStart now := by
      intro now heq
      apply hls now
      rw [heq]
      apply List.mem_cons_self
    have hls' : ∀ now, .runStart now ∉ ls := by
      intro now hmem
      apply hls now (List.mem_cons_of_mem _ hmem)
    rw [rest_of_step hl hm, ih hls' hrun, ← List.append_assoc]
    congr 1
    unfold executions
    rw [List.filterMap_cons]
    cases l.executed <;> rfl

theorem runningAt_step {q q' : TimeoutQueue κ} {l : Label κ} {now : Int} (hq : RunningAt now q)
    (hl : ∀ clock, l ≠ .runEnd clock) (h : step q l = some q')
    : RunningAt now q' ∧ q'.rest ⊆ q.rest := by
  have hphase := phase_of_step h
  cases l with
  | runStart now' =>
    have ⟨current, rest, hq⟩ := hq
    simp [PhaseAfter, hq] at hphase
  | execute id =>
    have ⟨event, hrest, _, _, hrunning⟩ := hphase
    refine ⟨hrunning now hq, ?_⟩
    rw [hrest]
    exact List.subset_cons_self _ _
  | runEnd clock => exact absurd rfl (hl clock)
  | _ =>
    dsimp only [PhaseAfter] at hphase
    rw [rest_of_phase hphase]
    unfold RunningAt
    rw [hphase]
    exact ⟨hq, List.Subset.refl _⟩

theorem runningAt_run {q q' : TimeoutQueue κ} {ls : List (Label κ)} {now : Int}
    (hq : RunningAt now q) (hls : ∀ clock, .runEnd clock ∉ ls) (h : run q ls = some q')
    : RunningAt now q' ∧ q'.rest ⊆ q.rest := by
  apply Machine.run_invariant_of (P := fun q' => RunningAt now q' ∧ q'.rest ⊆ q.rest)
    (L := fun l => ∀ clock, l ≠ .runEnd clock) _ _ _ h
  . intro a l b hl ha hstep
    have := runningAt_step ha.1 hl hstep
    exact ⟨this.1, List.Subset.trans this.2 ha.2⟩
  . intro l hl clock heq
    exact hls clock (heq ▸ hl)
  . exact ⟨hq, List.Subset.refl _⟩

def StartedAt (now : Int) (ls : List (Label κ)) : Prop :=
  ∃ ls₁ ls₂ : List (Label κ), ls = ls₁ ++ .runStart now :: ls₂ ∧ ∀ clock, .runEnd clock ∉ ls₂

theorem StartedAt.concat {now : Int} {ls : List (Label κ)} {l : Label κ} (h : StartedAt now ls)
    (hl : ∀ clock, l ≠ .runEnd clock) : StartedAt now (ls ++ [l]) := by
  have ⟨ls₁, ls₂, heq, hend⟩ := h
  refine ⟨ls₁, ls₂ ++ [l], by simp [heq], ?_⟩
  intro clock hmem
  rw [List.mem_append, List.mem_singleton] at hmem
  cases hmem with
  | inl hmem => exact hend clock hmem
  | inr heq => exact hl clock heq.symm

theorem running_of_run {q : TimeoutQueue κ} {ls : List (Label κ)} (h : run init ls = some q)
    : ∀ now, RunningAt now q →
        StartedAt now ls ∧ ∀ e ∈ q.rest, e.repeatInterval < 0 → e.expiration ≤ now := by
  apply Machine.run_induction (P := fun ls q => ∀ now, RunningAt now q →
    StartedAt now ls ∧ ∀ e ∈ q.rest, e.repeatInterval < 0 → e.expiration ≤ now) _ _ h
  . intro now hrunning
    obtain ⟨current, rest, hphase⟩ := hrunning
    contradiction
  . intro ls m l m' hrun ih hstep now hrunning
    have hphase := phase_of_step hstep
    cases l with
    | runStart now' =>
      obtain ⟨-, rfl⟩ := step_runStart hstep
      obtain ⟨current, rest, heq⟩ := hrunning
      simp only [runStart, Phase.running.injEq] at heq
      obtain ⟨rfl, -, -⟩ := heq
      refine ⟨⟨ls, [], rfl, by simp⟩, ?_⟩
      intro e he hrepeat
      rw [mem_rest_runStart] at he
      obtain ⟨e₀, -, hdue, rfl⟩ := he
      rw [Event.reschedule_repeatInterval] at hrepeat
      rw [Event.reschedule_oneShot hrepeat]
      exact hdue
    | runEnd clock =>
      obtain ⟨current, rest, heq⟩ := hrunning
      rw [hphase.2] at heq
      contradiction
    | execute id =>
      obtain ⟨now', current, event, rest, hm, -, rfl⟩ := step_execute hstep
      obtain ⟨current', rest', heq⟩ := hrunning
      simp only [Phase.running.injEq] at heq
      obtain ⟨rfl, -, -⟩ := heq
      have hmrunning : RunningAt now' m := ⟨_, _, hm⟩
      refine ⟨(ih _ hmrunning).1.concat (by simp), ?_⟩
      intro e he
      apply (ih now' hmrunning).2 e
      simp only [TimeoutQueue.rest, hm] at he ⊢
      exact List.mem_cons_of_mem _ he
    | _ =>
      dsimp only [PhaseAfter] at hphase
      have hmrunning : RunningAt now m := by
        unfold RunningAt at hrunning ⊢
        rwa [hphase] at hrunning
      refine ⟨(ih _ hmrunning).1.concat (by simp), ?_⟩
      rw [rest_of_phase hphase]
      exact (ih now hmrunning).2

theorem execute_of_rest {q q' : TimeoutQueue κ} {ls : List (Label κ)} {now : Int} {e : Event κ}
    (hq : RunningAt now q) (hls : ∀ clock, .runEnd clock ∉ ls) (h : run q ls = some q')
    (he : e ∈ q.rest) : .execute e.id ∈ ls ∨ e ∈ q'.rest := by
  induction ls generalizing q with
  | nil =>
    simp only [run, Machine.run_nil, Option.some.injEq] at h
    exact Or.inr (h ▸ he)
  | cons l ls ih =>
    rw [run, Machine.run_cons_eq_some] at h
    have ⟨m, hm, hrun⟩ := h
    have hl : ∀ clock, l ≠ .runEnd clock := by
      intro clock heq
      apply hls clock
      simp [heq]
    have hmrunning := (runningAt_step hq hl hm).1
    have hls' : ∀ clock, .runEnd clock ∉ ls := by
      intro clock hmem
      exact hls clock (List.mem_cons_of_mem _ hmem)
    have hcont : e ∈ m.rest → .execute e.id ∈ l :: ls ∨ e ∈ q'.rest := by
      intro hmem
      exact (ih hmrunning hls' hrun hmem).imp_left (List.mem_cons_of_mem _)
    have hphase := phase_of_step hm
    cases l with
    | execute id =>
      have ⟨event, hrest, hid, _⟩ := hphase
      rw [hrest, List.mem_cons] at he
      cases he with
      | inl heq =>
        left
        rw [heq, hid]
        exact List.mem_cons_self
      | inr hmem => exact hcont hmem
    | runStart now' =>
      have ⟨current, rest, heq⟩ := hq
      simp [PhaseAfter, heq] at hphase
    | runEnd clock => exact absurd rfl (hl clock)
    | _ =>
      apply hcont
      rwa [rest_of_phase hphase]

theorem mem_timeouts_step {q q' : TimeoutQueue κ} {l : Label κ} {e : Event κ} (he : e ∈ q.timeouts)
    (hcancel : l ≠ .cancelInLoop e.id) (hnotDue : ∀ now, l = .runStart now → now < e.expiration)
    (h : step q l = some q') : e ∈ q'.timeouts := by
  cases l with
  | add id expiration callback =>
    obtain ⟨-, rfl⟩ := step_add h
    exact he
  | addRepeating id now interval callback =>
    obtain ⟨-, rfl⟩ := step_addRepeating h
    exact he
  | addInLoop id clock =>
    obtain ⟨event, -, rfl⟩ := step_addInLoop h
    rw [addInLoop_timeouts]
    exact OrderedSet.mem_insert_of_mem he
  | cancelInLoop id =>
    obtain rfl := step_cancelInLoop h
    unfold cancelInLoop
    rw [OrderedSet.mem_erase]
    refine ⟨he, ?_⟩
    intro hid
    exact hcancel (by rw [hid])
  | expire =>
    obtain ⟨_, _, rfl⟩ := step_expire h
    exact he
  | runStart now =>
    obtain ⟨-, rfl⟩ := step_runStart h
    apply mem_foldl_reinsert_of_mem
    rw [OrderedSet.mem_eraseUpTo]
    exact ⟨he, hnotDue now rfl⟩
  | execute id =>
    obtain ⟨_, _, _, _, _, _, rfl⟩ := step_execute h
    exact he
  | runEnd clock =>
    obtain ⟨_, _, _, rfl⟩ := step_runEnd h
    exact he

theorem mem_timeouts_run {q q' : TimeoutQueue κ} {ls : List (Label κ)} {e : Event κ}
    (he : e ∈ q.timeouts) (hcancel : .cancelInLoop e.id ∉ ls)
    (hnotDue : ∀ now, .runStart now ∈ ls → now < e.expiration) (h : run q ls = some q')
    : e ∈ q'.timeouts := by
  apply Machine.run_invariant_of (P := fun q => e ∈ q.timeouts)
    (L := fun l => l ≠ .cancelInLoop e.id ∧ ∀ now, l = .runStart now → now < e.expiration) _ _ he h
  . intro a l b hl he hstep
    exact mem_timeouts_step he hl.1 hl.2 hstep
  . intro l hl
    constructor
    . intro heq
      exact hcancel (heq ▸ hl)
    . intro now heq
      exact hnotDue now (heq ▸ hl)

theorem mem_bound_of_step {q q' : TimeoutQueue κ} {l : Label κ} {e : Event κ}
    (h : step q l = some q') (he : e ∈ q'.bound)
    : (e ∈ q.bound ∧ ∀ clock, l ≠ .addInLoop e.id clock) ∨ l.handedOut = some e.id := by
  cases l with
  | add id expiration callback =>
    obtain ⟨hid, heq⟩ := step_add h
    rw [heq] at he
    simp only [add, List.mem_append, List.mem_singleton] at he
    cases he with
    | inl he => exact Or.inl ⟨he, by simp⟩
    | inr he =>
      apply Or.inr
      rw [he, hid]
      rfl
  | addRepeating id now interval callback =>
    obtain ⟨hid, heq⟩ := step_addRepeating h
    rw [heq] at he
    simp only [addRepeating, List.mem_append, List.mem_singleton] at he
    cases he with
    | inl he => exact Or.inl ⟨he, by simp⟩
    | inr he =>
      apply Or.inr
      rw [he, hid]
      rfl
  | addInLoop id clock =>
    obtain ⟨event, _, heq⟩ := step_addInLoop h
    rw [heq, addInLoop_bound, List.mem_filter] at he
    apply Or.inl
    constructor
    . exact he.1
    . intro clock' hlabel
      injection hlabel with hid
      simp [hid] at he
  | cancelInLoop id =>
    rw [step_cancelInLoop h] at he
    exact Or.inl ⟨he, by simp⟩
  | expire =>
    obtain ⟨_, _, heq⟩ := step_expire h
    rw [heq] at he
    exact Or.inl ⟨he, by simp⟩
  | runStart now =>
    rw [(step_runStart h).2] at he
    exact Or.inl ⟨he, by simp⟩
  | execute id =>
    obtain ⟨_, _, _, _, _, _, heq⟩ := step_execute h
    rw [heq] at he
    exact Or.inl ⟨he, by simp⟩
  | runEnd clock =>
    obtain ⟨_, _, _, heq⟩ := step_runEnd h
    rw [heq] at he
    exact Or.inl ⟨he, by simp⟩

theorem timeouts_of_step {q q' : TimeoutQueue κ} {l : Label κ} {e : Event κ}
    (h : step q l = some q') (he : e ∈ q'.timeouts)
    : (e ∈ q.timeouts ∧ ∀ now, l = .runStart now → now < e.expiration) ∨
      (e ∈ q.bound ∧ ∃ clock, l = .addInLoop e.id clock) ∨
      (∃ now e₀, l = .runStart now ∧ e₀ ∈ q.timeouts ∧ e₀.expiration ≤ now ∧
        e₀.repeatInterval ≥ 0 ∧ e = e₀.reschedule now) := by
  cases l with
  | add id expiration callback =>
    rw [(step_add h).2] at he
    apply Or.inl ⟨he, by simp⟩
  | addRepeating id now interval callback =>
    rw [(step_addRepeating h).2] at he
    apply Or.inl ⟨he, by simp⟩
  | addInLoop id clock =>
    obtain ⟨event, hfind, heq⟩ := step_addInLoop h
    rw [heq, addInLoop_timeouts] at he
    cases OrderedSet.eq_or_mem_of_mem_insert he with
    | inl heq =>
      have hid : event.id = id := by simpa using List.find?_some hfind
      rw [heq, hid]
      apply Or.inr (Or.inl ⟨List.mem_of_find?_eq_some hfind, clock, rfl⟩)
    | inr he => apply Or.inl ⟨he, by simp⟩
  | cancelInLoop id =>
    rw [step_cancelInLoop h, cancelInLoop, OrderedSet.mem_erase] at he
    apply Or.inl ⟨he.1, by simp⟩
  | expire =>
    obtain ⟨_, _, heq⟩ := step_expire h
    rw [heq] at he
    apply Or.inl ⟨he, by simp⟩
  | runStart now =>
    rw [(step_runStart h).2] at he
    cases mem_foldl_reinsert he with
    | inl he =>
      rw [OrderedSet.mem_eraseUpTo] at he
      refine Or.inl ⟨he.1, ?_⟩
      intro now' hnow
      injection hnow with hnow
      rw [← hnow]
      apply he.2
    | inr he =>
      obtain ⟨e₀, he₀, hrepeat, heq⟩ := he
      rw [OrderedSet.mem_upTo] at he₀
      apply Or.inr (Or.inr ⟨now, e₀, rfl, he₀.1, he₀.2, hrepeat, heq⟩)
  | execute id =>
    obtain ⟨_, _, _, _, _, _, heq⟩ := step_execute h
    rw [heq] at he
    apply Or.inl ⟨he, by simp⟩
  | runEnd clock =>
    obtain ⟨_, _, _, heq⟩ := step_runEnd h
    rw [heq] at he
    apply Or.inl ⟨he, by simp⟩

theorem mem_timeouts_of_step {q q' : TimeoutQueue κ} {l : Label κ} {e : Event κ}
    (h : step q l = some q') (he : e ∈ q'.timeouts)
    : ∃ e₀, (e₀ ∈ q.bound ∨ e₀ ∈ q.timeouts) ∧ e.id = e₀.id := by
  cases timeouts_of_step h he with
  | inl hold => apply Exists.intro e ⟨Or.inr hold.1, rfl⟩
  | inr hnew =>
    cases hnew with
    | inl hbound => apply Exists.intro e ⟨Or.inl hbound.1, rfl⟩
    | inr hreinsert =>
      have ⟨now, e₀, _, he₀, _, _, heq⟩ := hreinsert
      apply Exists.intro e₀ ⟨Or.inr he₀, by rw [heq, Event.reschedule_id]⟩

theorem forall_events_step {q q' : TimeoutQueue κ} {l : Label κ} {id : Int} {P : Event κ → Prop}
    (hreschedule : ∀ e now, P e → P (e.reschedule now)) (hid : id < q.next)
    (hevents : ∀ e ∈ q.events, e.id = id → P e) (h : step q l = some q')
    : id < q'.next ∧ ∀ e ∈ q'.events, e.id = id → P e := by
  constructor
  . have := next_le_of_step h
    omega
  . intro e he heid
    cases mem_events_of_step h e he with
    | inl hold =>
      have ⟨e₀, he₀, heq⟩ := hold
      cases heq with
      | inl heq =>
        rw [heq] at heid ⊢
        apply hevents e₀ he₀ heid
      | inr heq =>
        have ⟨now, heq⟩ := heq
        rw [heq, Event.reschedule_id] at heid
        rw [heq]
        apply hreschedule e₀ now (hevents e₀ he₀ heid)
    | inr hnew => omega

theorem eq_of_addEvent {q : TimeoutQueue κ} {event e : Event κ} (hinv : Inv q)
    (he : e ∈ events { q with next := q.next + 1, bound := q.bound ++ [event] })
    (hid : e.id = q.next) : e = event := by
  rw [mem_events] at he
  simp only [List.mem_append, List.mem_singleton] at he
  cases he with
  | inl he =>
    cases he with
    | inl he =>
      have := hinv.bound he
      omega
    | inr heq => apply heq
  | inr he =>
    cases he with
    | inl he =>
      have := hinv.timeouts (OrderedSet.key_mem_keys he)
      omega
    | inr he =>
      have : e.id < q.next := hinv.rest he
      omega

def Gone (q : TimeoutQueue κ) (id : Int) : Prop :=
  id < q.next ∧ ∀ e ∈ q.events, e.id ≠ id

theorem gone_step {q q' : TimeoutQueue κ} {l : Label κ} {id : Int} (hgone : Gone q id)
    (h : step q l = some q') : Gone q' id := by
  apply forall_events_step _ hgone.1 hgone.2 h
  simp

theorem not_gone_of_execute {q q' : TimeoutQueue κ} {id : Int} (h : step q (.execute id) = some q')
    : ¬ Gone q id := by
  obtain ⟨now, current, e, rest, hphase, hid, rfl⟩ := step_execute h
  intro hgone
  apply hgone.2 e _ hid
  rw [mem_events]
  simp [TimeoutQueue.rest, hphase]

-- Neither inserted nor on its way into the queue, but maybe in the batch of an ongoing `Run`
structure Absent (q : TimeoutQueue κ) (id : Int) : Prop where
  lt_next : id < q.next
  bound : ∀ e ∈ q.bound, e.id ≠ id
  timeouts : ∀ e ∈ q.timeouts, e.id ≠ id

theorem absent_step {q q' : TimeoutQueue κ} {l : Label κ} {id : Int} (habsent : Absent q id)
    (h : step q l = some q') : Absent q' id := by
  constructor
  . have := next_le_of_step h
    have := habsent.lt_next
    omega
  . intro e he
    cases mem_bound_of_step h he with
    | inl hold => exact habsent.bound e hold.1
    | inr hnew =>
      have hnext := next_of_step h
      rw [hnew] at hnext
      have := habsent.lt_next
      omega
  . intro e he
    have ⟨e₀, he₀, hid⟩ := mem_timeouts_of_step h he
    rw [hid]
    cases he₀ with
    | inl hbound => exact habsent.bound e₀ hbound
    | inr htimeouts => exact habsent.timeouts e₀ htimeouts

theorem gone_of_runStart {q q' : TimeoutQueue κ} {now id : Int} (habsent : Absent q id)
    (h : step q (.runStart now) = some q') : Gone q' id := by
  have habsent' := absent_step habsent h
  constructor
  . exact habsent'.lt_next
  . intro e he
    rw [mem_events] at he
    cases he with
    | inl hbound => exact habsent'.bound e hbound
    | inr he =>
      cases he with
      | inl htimeouts => exact habsent'.timeouts e htimeouts
      | inr hrest =>
        rw [(step_runStart h).2, mem_rest_runStart] at hrest
        have ⟨e₀, he₀, _, heq⟩ := hrest
        rw [← heq, Event.reschedule_id]
        exact habsent.timeouts e₀ he₀

end TimeoutQueue
end Claire
