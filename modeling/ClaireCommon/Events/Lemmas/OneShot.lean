import ClaireCommon.Events.Lemmas.TimeoutQueueRuns

/-!
This module contains the proof that one-shot timers fire exactly once and on time, over all runs of
the timer queue.
-/

namespace Claire

universe u

variable {κ : Type u}

namespace TimeoutQueue

-- Whatever the queue still holds under the id of `event` is `event` itself
def Holds (q : TimeoutQueue κ) (event : Event κ) : Prop :=
  event.id < q.next ∧ ∀ e ∈ q.events, e.id = event.id → e = event

theorem holds_step {q q' : TimeoutQueue κ} {l : Label κ} {event : Event κ}
    (hrepeat : event.repeatInterval < 0) (hholds : Holds q event) (h : step q l = some q')
    : Holds q' event := by
  apply forall_events_step _ hholds.1 hholds.2 h
  intro e now heq
  rw [heq]
  apply Event.reschedule_oneShot hrepeat

theorem holds_of_add {q q' : TimeoutQueue κ} {id expiration : Int} {callback : κ} (hinv : Inv q)
    (h : step q (.add id expiration callback) = some q')
    : Holds q' ⟨id, expiration, -1, callback⟩ := by
  have ⟨hid, heq⟩ := step_add h
  rw [heq, hid]
  constructor
  . simp only [add]
    omega
  . intro e he hid
    apply eq_of_addEvent hinv he hid

theorem holds_of_mem {q : TimeoutQueue κ} {ls : List (Label κ)} {id expiration : Int}
    {callback : κ} (h : run init ls = some q) (hadd : .add id expiration callback ∈ ls)
    : Holds q ⟨id, expiration, -1, callback⟩ := by
  apply Machine.run_invariant_of_mem _ _ hadd h
  . intro a l b hholds hstep
    apply holds_step _ hholds hstep
    simp
  . intro ls m m' hm hstep
    apply holds_of_add (inv_run inv_init hm) hstep

theorem gone_of_execute {q q' : TimeoutQueue κ} {event : Event κ} (hinv : Inv q)
    (hholds : Holds q event) (hrepeat : event.repeatInterval < 0)
    (h : step q (.execute event.id) = some q') : Gone q' event.id := by
  obtain ⟨now, current, e, rest, hphase, hid, rfl⟩ := step_execute h
  have hrest : q.rest = e :: rest := by simp [TimeoutQueue.rest, hphase]
  have he : e ∈ q.rest := by simp [hrest]
  have heq : e = event := hholds.2 e (mem_events.mpr (Or.inr (Or.inr he))) hid
  subst heq
  refine ⟨hholds.1, ?_⟩
  intro e' he' hid'
  rw [mem_events] at he'
  rcases he' with he' | he' | he'
  . exact hinv.bound_rest e' he' e he hid'.symm
  . apply hinv.rest_timeouts e he hrepeat
    rw [← hid']
    exact OrderedSet.key_mem_keys he'
  . have := hinv.rest_nodup
    rw [hrest, List.map_cons, List.nodup_cons] at this
    apply this.1
    rw [← hid']
    exact List.mem_map_of_mem he'

theorem execute_lt_next {q q' : TimeoutQueue κ} {id : Int} (hinv : Inv q)
    (h : step q (.execute id) = some q') : id < q.next := by
  obtain ⟨now, current, e, rest, hphase, hid, rfl⟩ := step_execute h
  rw [← hid]
  apply hinv.rest
  simp [TimeoutQueue.rest, hphase]

@[simp]
theorem executions_concat (ls : List (Label κ)) (l : Label κ)
    : executions (ls ++ [l]) = executions ls ++ l.executed.toList := by
  apply Machine.filterMap_concat

theorem executions_lt_next {q : TimeoutQueue κ} {ls : List (Label κ)} (h : run init ls = some q)
    : ∀ id ∈ executions ls, id < q.next := by
  apply Machine.run_induction (P := fun ls q => ∀ id ∈ executions ls, id < q.next) _ _ h
  . simp [executions]
  . intro ls m l m' hrun ih hstep id hid
    have hle := next_le_of_step hstep
    rw [executions_concat, List.mem_append] at hid
    cases hid with
    | inl hid =>
      have := ih id hid
      omega
    | inr hid =>
      cases l with
      | execute id' =>
        simp only [Label.executed, Option.toList_some, List.mem_singleton] at hid
        have := execute_lt_next (inv_run inv_init hrun) hstep
        omega
      | _ => simp [Label.executed] at hid

theorem executed_once {q : TimeoutQueue κ} {ls : List (Label κ)} (h : run init ls = some q)
    {id expiration : Int} {callback : κ}
    : .add id expiration callback ∈ ls →
        (id ∉ executions ls) ∨ ((executions ls).count id = 1 ∧ Gone q id) := by
  apply Machine.run_induction (P := fun ls q => .add id expiration callback ∈ ls →
    (id ∉ executions ls) ∨ ((executions ls).count id = 1 ∧ Gone q id)) _ _ h
  . simp
  . intro ls m l m' hrun ih hstep hadd
    rw [executions_concat]
    rw [List.mem_append, List.mem_singleton] at hadd
    cases hadd with
    | inr hadd =>
      subst hadd
      have hid := (step_add hstep).1
      left
      simp only [Label.executed, Option.toList_none, List.append_nil]
      intro hmem
      have := executions_lt_next hrun id hmem
      omega
    | inl hadd =>
      have hholds := holds_of_mem hrun hadd
      have hinv := inv_run inv_init hrun
      cases l with
      | execute id' =>
        simp only [Label.executed, Option.toList_some, List.mem_append, List.mem_singleton,
          List.count_append, List.count_singleton]
        by_cases heq : id' = id
        . subst heq
          cases ih hadd with
          | inl hnot =>
            right
            refine ⟨by simp [List.count_eq_zero_of_not_mem hnot], ?_⟩
            exact gone_of_execute hinv hholds (by simp) hstep
          | inr hgone => exact absurd hgone.2 (not_gone_of_execute hstep)
        . cases ih hadd with
          | inl hnot =>
            left
            simp [hnot, Ne.symm heq]
          | inr hgone =>
            right
            refine ⟨by simp [hgone.1, heq], ?_⟩
            exact gone_step hgone.2 hstep
      | _ =>
        simp only [Label.executed, Option.toList_none, List.append_nil]
        exact (ih hadd).imp_right (And.imp_right fun hgone => gone_step hgone hstep)

theorem execute_on_time {q : TimeoutQueue κ} {ls₁ ls₂ : List (Label κ)} {id expiration : Int}
    {callback : κ} (h : run init (ls₁ ++ .execute id :: ls₂) = some q)
    (hadd : .add id expiration callback ∈ ls₁ ++ .execute id :: ls₂)
    : (∃ q, run init (ls₁ ++ [Label.execute id]) = some q
        ∧ q.current = some ⟨id, expiration, -1, callback⟩)
        ∧
      ∃ now, StartedAt now ls₁ ∧ expiration ≤ now := by
  have hsplit := h
  rw [run, Machine.run_append_cons_eq_some] at hsplit
  obtain ⟨m, m', hm, hstep, _⟩ := hsplit
  have hinv := inv_run inv_init hm
  have hmem := mem_left_of_handedOut rfl h hm hadd (execute_lt_next hinv hstep)
  have hholds := holds_of_mem hm hmem
  obtain ⟨event, hrest, hid, hcurrent, _⟩ := phase_of_step hstep
  have hevent : event ∈ m.rest := by simp [hrest]
  have heq : event = ⟨id, expiration, -1, callback⟩ :=
    hholds.2 event (mem_events.mpr (Or.inr (Or.inr hevent))) hid
  constructor
  . refine ⟨m', ?_, by rw [hcurrent, heq]⟩
    rw [run, Machine.run_concat_eq_some]
    exact ⟨m, hm, hstep⟩
  . obtain ⟨now, current, e, rest, hphase, _⟩ := step_execute hstep
    have hrunning := running_of_run hm now ⟨_, _, hphase⟩
    refine ⟨now, hrunning.1, ?_⟩
    have := hrunning.2 event hevent
    rw [heq] at this
    exact this (by simp)

theorem execute_when_due {q : TimeoutQueue κ} {id expiration : Int} {callback : κ}
    {clock clock' now : Int} {ls₁ ls₂ ls₃ ls₄ : List (Label κ)}
    (h : run init
      (ls₁ ++ .addInLoop id clock :: (ls₂ ++ .runStart now :: (ls₃ ++ .runEnd clock' :: ls₄))) = some q)
    (hadd : .add id expiration callback ∈
      ls₁ ++ .addInLoop id clock :: (ls₂ ++ .runStart now :: (ls₃ ++ .runEnd clock' :: ls₄)))
    (hcancel : .cancelInLoop id ∉ ls₂) (hnotDue : ∀ now', .runStart now' ∈ ls₂ → now' < expiration)
    (hdue : expiration ≤ now) (hls₃ : ∀ c, .runEnd c ∉ ls₃) : .execute id ∈ ls₃ := by
  have hsplit := h
  rw [run, Machine.run_append_cons_eq_some] at hsplit
  obtain ⟨q₁, q₂, hq₁, hinsert, hsplit⟩ := hsplit
  rw [Machine.run_append_cons_eq_some] at hsplit
  obtain ⟨q₃, q₄, hq₃, hstart, hsplit⟩ := hsplit
  rw [Machine.run_append_cons_eq_some] at hsplit
  obtain ⟨q₅, q₆, hq₅, hend, _⟩ := hsplit
  have hinv := inv_run inv_init hq₁
  -- the event is the one of `add`, and it is inserted
  obtain ⟨event, hfind, hq₂⟩ := step_addInLoop hinsert
  have hbound : event ∈ q₁.bound := List.mem_of_find?_eq_some hfind
  have hid : event.id = id := by simpa using List.find?_some hfind
  have hlt : id < q₁.next := by
    rw [← hid]
    exact hinv.bound hbound
  have hholds := holds_of_mem hq₁ (mem_left_of_handedOut rfl h hq₁ hadd hlt)
  have heq : event = ⟨id, expiration, -1, callback⟩ :=
    hholds.2 event (mem_events.mpr (Or.inl hbound)) hid
  have hmem : event ∈ q₂.timeouts := by
    rw [hq₂, addInLoop_timeouts, OrderedSet.mem_insert (hinv.bound_timeouts event hbound)]
    exact Or.inl rfl
  -- it stays there until the first call of `Run` that is late enough
  have hmem : event ∈ q₃.timeouts := by
    apply mem_timeouts_run hmem _ _ hq₃
    . rwa [hid]
    . rwa [heq]
  obtain ⟨-, rfl⟩ := step_runStart hstart
  have hrest : event ∈ (q₃.runStart now).rest := by
    rw [mem_rest_runStart]
    refine ⟨event, hmem, ?_, ?_⟩
    . rwa [heq]
    . apply Event.reschedule_oneShot
      simp [heq]
  -- and is executed before `Run` returns
  have := execute_of_rest ⟨none, _, rfl⟩ hls₃ hq₅ hrest
  rw [(phase_of_step hend).1, hid] at this
  simpa using this

theorem not_execute_in_same_run {q : TimeoutQueue κ} {id clock now : Int} {ls₁ ls₂ ls₃ : List (Label κ)}
    (h : run init (ls₁ ++ .runStart now :: (ls₂ ++ .addInLoop id clock :: ls₃)) = some q)
    (hls₂ : ∀ c, .runEnd c ∉ ls₂) (hls₃ : ∀ c, .runEnd c ∉ ls₃) : .execute id ∉ ls₃ := by
  rw [run, Machine.run_append_cons_eq_some] at h
  obtain ⟨q₁, q₂, hq₁, hstart, h⟩ := h
  rw [Machine.run_append_cons_eq_some] at h
  obtain ⟨q₃, q₄, hq₃, hinsert, hq₄⟩ := h
  have hinv := inv_run (inv_step (inv_run inv_init hq₁) hstart) hq₃
  have hrunning := (runningAt_run (phase_of_step hstart).2 hls₂ hq₃).1
  obtain ⟨event, hfind, _⟩ := step_addInLoop hinsert
  have hbound : event ∈ q₃.bound := List.mem_of_find?_eq_some hfind
  have hid : event.id = id := by simpa using List.find?_some hfind
  have hrunning₄ := runningAt_step hrunning (by simp) hinsert
  intro hexecute
  obtain ⟨ls₅, ls₆, rfl⟩ := List.append_of_mem hexecute
  rw [Machine.run_append_cons_eq_some] at hq₄
  obtain ⟨q₅, q₆, hq₅, hstep, _⟩ := hq₄
  obtain ⟨r, hrest, hr, _⟩ := phase_of_step hstep
  -- what `Run` executes from here on was extracted before the insertion
  have hsubset := (runningAt_run hrunning₄.1 (by
    intro c hmem
    apply hls₃ c
    simp [hmem]) hq₅).2
  have hmem : r ∈ q₃.rest := by
    apply hrunning₄.2
    apply hsubset
    simp [hrest]
  apply hinv.bound_rest event hbound r hmem
  rw [hr, hid]

structure OneShotTimersFire (ls : List (Label κ)) : Prop where
  ids_nodup : (ids ls).Nodup
  inserts_accepted : ∀ (ls₁ : List (Label κ)) (l : Label κ) (ls₂ : List (Label κ)) (q : TimeoutQueue κ),
    ls = ls₁ ++ l :: ls₂ → run init ls₁ = some q → InsertsAccepted q l
  executed_at_most_once : ∀ (id expiration : Int) (callback : κ),
    .add id expiration callback ∈ ls → (executions ls).count id ≤ 1
  executed_on_time : ∀ (id expiration : Int) (callback : κ) (ls₁ ls₂ : List (Label κ)),
    .add id expiration callback ∈ ls → ls = ls₁ ++ .execute id :: ls₂ →
      (∃ q, run init (ls₁ ++ [Label.execute id]) = some q
        ∧ q.current = some ⟨id, expiration, -1, callback⟩)
        ∧
      ∃ now, StartedAt now ls₁ ∧ expiration ≤ now
  executed_when_due : ∀ (id expiration : Int) (callback : κ) (clock clock' now : Int)
    (ls₁ ls₂ ls₃ ls₄ : List (Label κ)),
    .add id expiration callback ∈ ls →
    ls = ls₁ ++ .addInLoop id clock :: ls₂ ++ .runStart now :: ls₃ ++ .runEnd clock' :: ls₄ →
    .cancelInLoop id ∉ ls₂ → (∀ now', .runStart now' ∈ ls₂ → now' < expiration) →
    expiration ≤ now → (∀ c, .runEnd c ∉ ls₃) → .execute id ∈ ls₃
  not_executed_in_same_run : ∀ (id clock now : Int) (ls₁ ls₂ ls₃ ls₄ : List (Label κ)),
    ls = ls₁ ++ .runStart now :: ls₂ ++ .addInLoop id clock :: ls₃ ++ ls₄ →
    (∀ c, .runEnd c ∉ ls₂) → (∀ c, .runEnd c ∉ ls₃) → .execute id ∉ ls₃

theorem oneShotTimersFire {q : TimeoutQueue κ} {ls : List (Label κ)} (h : run init ls = some q)
    : OneShotTimersFire ls := by
  constructor
  . exact (ids_of_run h).1
  . intro ls₁ l ls₂ q₁ _ hq₁
    apply insertsAccepted_of_inv
    exact inv_run inv_init hq₁
  . intro id expiration callback hadd
    cases executed_once h hadd with
    | inl hnot =>
      rw [List.count_eq_zero_of_not_mem hnot]
      omega
    | inr hgone => omega
  . intro id expiration callback ls₁ ls₂ hadd heq
    subst heq
    exact execute_on_time h hadd
  . intro id expiration callback clock clock' now ls₁ ls₂ ls₃ ls₄ hadd heq hcancel hnotDue hdue hls₃
    subst heq
    simp only [List.append_assoc, List.cons_append] at h hadd
    exact execute_when_due h hadd hcancel hnotDue hdue hls₃
  . intro id clock now ls₁ ls₂ ls₃ ls₄ heq hls₂ hls₃
    subst heq
    have hassoc : ls₁ ++ .runStart now :: ls₂ ++ .addInLoop id clock :: ls₃ ++ ls₄
        = (ls₁ ++ .runStart now :: (ls₂ ++ .addInLoop id clock :: ls₃)) ++ ls₄ := by
      simp
    rw [hassoc, run, Machine.run_append_eq_some] at h
    obtain ⟨m, hm, _⟩ := h
    exact not_execute_in_same_run hm hls₂ hls₃

theorem oneShotTimersFire_one_timer
    : OneShotTimersFire
        [.add 1 5 (), .addInLoop 1 0, .runStart 4, .runEnd 4, .runStart 7, .execute 1, .runEnd 8] :=
  oneShotTimersFire (show run init _ = some _ from rfl)

end TimeoutQueue
end Claire
