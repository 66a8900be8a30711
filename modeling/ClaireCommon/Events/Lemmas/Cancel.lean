import ClaireCommon.Events.Lemmas.Reactor

/-!
This module contains what `Cancel` achieves when `Add` and `Cancel` reach the timer queue on
different ways. A cancel that is posted is executed behind the insertion. A cancel in the loop thread
is executed at once and overtakes an insertion that is still queued.
-/

namespace Claire

universe u v w

namespace Reactor

variable {κ : Type u} {υ : Type v} {ι : Type w} {r r' : Reactor κ υ ι} {tid : ι}

def insertion (id : Int) : Task υ := .timer (.addInLoop id)

theorem queued_iff {task : Task υ} : r.loop.Queued task ↔ task ∈ r.tasks := by
  simp [EventLoop.Queued, tasks]

structure Inv (r : Reactor κ υ ι) : Prop where
  loop : r.loop.Inv
  posting : ∀ t context id,
    r.loop.calls t = .posting context (insertion id) → id < r.queue.next
  bound : ∀ e ∈ r.queue.bound,
    r.loop.Posting (insertion e.id) ∨ r.loop.Queued (insertion e.id)

structure Returned (r : Reactor κ υ ι) (id : Int) : Prop where
  lt_next : id < r.queue.next
  posting : ∀ t context, r.loop.calls t ≠ .posting context (insertion id)

theorem absent_of_returned {id : Int} (hinv : Inv r) (hreturned : Returned r id)
    (htasks : insertion id ∉ r.tasks) (htimeouts : ∀ e ∈ r.queue.timeouts, e.id ≠ id)
    : r.queue.Absent id := by
  constructor
  . exact hreturned.lt_next
  . intro e he hid
    have hflight := hinv.bound e he
    rw [hid] at hflight
    cases hflight with
    | inl hposting =>
      have ⟨t, context, hcall⟩ := hposting
      exact hreturned.posting t context hcall
    | inr hqueued => exact htasks (queued_iff.mp hqueued)
  . exact htimeouts

theorem inv_init : Inv (init tid : Reactor κ υ ι) where
  loop := EventLoop.inv_init tid
  posting := by
    intro t context id h
    contradiction
  bound := by
    intro e he
    contradiction

variable [DecidableEq υ] [DecidableEq ι]

theorem insertion_of_post {l l' : EventLoop (Task υ) ι} {t t' : ι} {context context' : TraceContext}
    {task : TimerTask} {id : Int} (h : l.step (.post t' context' (.timer task)) = some l')
    (hcall : l'.calls t = .posting context (insertion id))
    : l.calls t = .posting context (insertion id) ∨ t' = t ∧ task = .addInLoop id := by
  cases EventLoop.calls_of_posting h hcall with
  | inl hold => exact Or.inl hold
  | inr hnew =>
    injection hnew with htt _ htask
    injection htask with htask
    exact Or.inr ⟨htt, htask⟩

theorem calls_of_insertion {a : Label κ υ ι} {t : ι} {context : TraceContext} {id : Int}
    (h : step r a = some r') (hcall : r'.loop.calls t = .posting context (insertion id))
    : r.loop.calls t = .posting context (insertion id)
        ∨ ∃ clock label, a.added? = some (t, id, clock, label) ∧ t ≠ r.loop.tid := by
  have hadded : ∀ p, a.added? = some p → r.loop.calls t = .posting context (insertion id)
      ∨ ∃ clock label, a.added? = some (t, id, clock, label) ∧ t ≠ r.loop.tid := by
    intro (t', id', clock, label) ha
    have ⟨queue, _, hcases⟩ := step_added ha h
    cases hcases with
    | inl hnow =>
      rw [hnow.2.2] at hcall
      exact Or.inl hcall
    | inr hpost =>
      cases insertion_of_post hpost.2.2 hcall with
      | inl hold => exact Or.inl hold
      | inr hnew =>
        have ⟨htt, htask⟩ := hnew
        injection htask with hid
        apply Or.inr
        rw [ha, htt, hid]
        exact ⟨clock, label, rfl, htt ▸ hpost.1⟩
  cases a with
  | loop label =>
    have ⟨hloop, _, htimer⟩ := step_loop h
    cases EventLoop.calls_of_posting hloop hcall with
    | inl hold => exact Or.inl hold
    | inr hnew =>
      rw [hnew] at htimer
      contradiction
  | queue label =>
    rw [(step_queue h).2.1] at hcall
    exact Or.inl hcall
  | add t id expiration callback clock => exact hadded _ rfl
  | addRepeating t id now interval callback clock => exact hadded _ rfl
  | cancel t' id' clock =>
    cases step_cancel h with
    | inl hnow =>
      rw [hnow.2.2] at hcall
      exact Or.inl hcall
    | inr hpost =>
      cases insertion_of_post hpost.2.2 hcall with
      | inl hold => exact Or.inl hold
      | inr hnew => exact absurd hnew.2 (by simp)
  | task context' task clock =>
    have ⟨loop, hbegin, _, hend⟩ := step_task h
    cases EventLoop.calls_of_posting hend hcall with
    | inl hold =>
      cases EventLoop.calls_of_posting hbegin hold with
      | inl hold => exact Or.inl hold
      | inr hnew => contradiction
    | inr hnew => contradiction

theorem next_of_added {a : Label κ υ ι} {t : ι} {id clock : Int} {label : TimeoutQueue.Label κ}
    (ha : a.added? = some (t, id, clock, label)) (h : step r a = some r')
    : id = r.queue.next ∧ id < r'.queue.next := by
  have ⟨queue, hqueue, hcases⟩ := step_added ha h
  have hnext := TimeoutQueue.next_of_step hqueue
  rw [Label.handedOut_of_added ha] at hnext
  have hle : queue.next ≤ r'.queue.next := by
    cases hcases with
    | inl hnow => exact TimeoutQueue.next_le_of_step hnow.2.1
    | inr hpost => rw [hpost.2.1]
  constructor
  . exact hnext.1
  . omega

theorem bound_of_added {a : Label κ υ ι} {t : ι} {id clock : Int} {label : TimeoutQueue.Label κ}
    (hinv : Inv r) (ha : a.added? = some (t, id, clock, label)) (h : step r a = some r')
    : ∀ e ∈ r'.queue.bound,
        r'.loop.Posting (insertion e.id) ∨ r'.loop.Queued (insertion e.id) := by
  intro e he
  have ⟨queue, hqueue, hcases⟩ := step_added ha h
  cases hcases with
  | inl hnow =>
    rw [hnow.2.2]
    cases TimeoutQueue.mem_bound_of_step hnow.2.1 he with
    | inl hmid =>
      cases TimeoutQueue.mem_bound_of_step hqueue hmid.1 with
      | inl hold => exact hinv.bound e hold.1
      | inr hnew =>
        rw [Label.handedOut_of_added ha, Option.some.injEq] at hnew
        rw [hnew] at hmid
        exact absurd rfl (hmid.2 clock)
    | inr hnew => contradiction
  | inr hpost =>
    rw [hpost.2.1] at he
    cases TimeoutQueue.mem_bound_of_step hqueue he with
    | inl hold =>
      apply EventLoop.inFlight_step hinv.loop hpost.2.2 (hinv.bound e hold.1)
      intro context hlabel
      contradiction
    | inr hnew =>
      rw [Label.handedOut_of_added ha, Option.some.injEq] at hnew
      apply Or.inl
      exists t, r.loop.getTraceContext t
      rw [(EventLoop.step_post hpost.2.2).2.2, EventLoop.post_calls_self, hnew]
      rfl

theorem inv_step {a : Label κ υ ι} (hinv : Inv r) (h : step r a = some r') : Inv r' := by
  constructor
  . exact loopInv_step hinv.loop h
  . intro t context id hcall
    cases calls_of_insertion h hcall with
    | inl hold =>
      have := hinv.posting t context id hold
      have := next_le_of_step h
      omega
    | inr hnew =>
      have ⟨_, _, ha, _⟩ := hnew
      exact (next_of_added ha h).2
  . cases a with
    | loop label =>
      have ⟨hloop, hqueue, htimer⟩ := step_loop h
      intro e he
      rw [hqueue] at he
      apply EventLoop.inFlight_step hinv.loop hloop (hinv.bound e he)
      intro context hlabel
      rw [hlabel] at htimer
      contradiction
    | queue label =>
      have ⟨hqueue, hloop, hhanded, _⟩ := step_queue h
      intro e he
      rw [hloop]
      cases TimeoutQueue.mem_bound_of_step hqueue he with
      | inl hold => exact hinv.bound e hold.1
      | inr hnew =>
        rw [hhanded] at hnew
        contradiction
    | add t id expiration callback clock => exact bound_of_added hinv rfl h
    | addRepeating t id now interval callback clock => exact bound_of_added hinv rfl h
    | cancel t id clock =>
      intro e he
      cases step_cancel h with
      | inl hnow =>
        rw [hnow.2.2]
        cases TimeoutQueue.mem_bound_of_step hnow.2.1 he with
        | inl hold => exact hinv.bound e hold.1
        | inr hnew => contradiction
      | inr hpost =>
        rw [hpost.2.1] at he
        apply EventLoop.inFlight_step hinv.loop hpost.2.2 (hinv.bound e he)
        intro context hlabel
        contradiction
    | task context task clock =>
      have ⟨loop, hbegin, heffect, hend⟩ := step_task h
      intro e he
      have hold : e ∈ r.queue.bound ∧ task ≠ .addInLoop e.id := by
        cases TimeoutQueue.mem_bound_of_step heffect he with
        | inl hold =>
          constructor
          . exact hold.1
          . intro htask
            apply hold.2 clock
            rw [htask]
            rfl
        | inr hnew => cases task <;> contradiction
      have hbegun : loop.Posting (insertion e.id) ∨ loop.Queued (insertion e.id) := by
        apply EventLoop.inFlight_step hinv.loop hbegin (hinv.bound e hold.1)
        intro context' hlabel
        injection hlabel with _ htask
        injection htask with htask
        exact hold.2 htask
      apply EventLoop.inFlight_step (EventLoop.inv_step hinv.loop hbegin) hend hbegun
      intro context' hlabel
      contradiction

theorem inv_run {as : List (Label κ υ ι)} (h : run (init tid) as = some r) : Inv r := by
  apply Machine.run_invariant (P := fun r : Reactor κ υ ι => Inv r) _ inv_init h
  intro r a r' hinv hstep
  exact inv_step hinv hstep

theorem tid_of_run {as : List (Label κ υ ι)} (h : run (init tid) as = some r)
    : r.loop.tid = tid := by
  apply Machine.run_invariant (P := fun r : Reactor κ υ ι => r.loop.tid = tid) _ rfl h
  intro r a r' htid hstep
  rw [tid_of_step hstep, htid]

theorem tasks_of_run {as : List (Label κ υ ι)} (h : run (init tid) as = some r)
    : executed as ++ r.tasks = posted as := by
  apply Machine.run_induction (P := fun as r => executed as ++ r.tasks = posted as) _ _ h
  . rfl
  . intro as r a r' hrun ih hstep
    have htasks := tasks_of_step (inv_run hrun).loop hstep
    calc executed (as ++ [a]) ++ r'.tasks
      _ = executed as ++ (executed [a] ++ r'.tasks) := by simp
      _ = executed as ++ r.tasks ++ posted [a] := by rw [htasks, List.append_assoc]
      _ = posted (as ++ [a]) := by rw [ih, posted_append]

theorem returned_step {a : Label κ υ ι} {id : Int} (hreturned : Returned r id) (h : step r a = some r')
    : Returned r' id := by
  constructor
  . have := hreturned.lt_next
    have := next_le_of_step h
    omega
  . intro t context hcall
    cases calls_of_insertion h hcall with
    | inl hold => exact hreturned.posting t context hold
    | inr hnew =>
      have ⟨_, _, ha, _⟩ := hnew
      have := (next_of_added ha h).1
      have := hreturned.lt_next
      omega

theorem returned_run {as : List (Label κ υ ι)} {id : Int} (hreturned : Returned r id)
    (h : run r as = some r') : Returned r' id := by
  apply Machine.run_invariant (P := fun r : Reactor κ υ ι => Returned r id) _ hreturned h
  intro r a r' hreturned hstep
  exact returned_step hreturned hstep

theorem posted_of_returned {a : Label κ υ ι} {id : Int} (hreturned : Returned r id)
    (h : step r a = some r') : insertion id ∉ posted [a] := by
  intro hmem
  have ⟨a', ha, hposted⟩ := List.mem_filterMap.mp hmem
  rw [List.mem_singleton.mp ha] at hposted
  unfold Label.posted? at hposted
  split at hposted
  . next t context task =>
    injection hposted with htask
    apply hreturned.posting t context
    rw [← htask]
    exact (EventLoop.step_push (step_loop h).1).1
  . contradiction

def AddReturned (tid : ι) (id : Int) (as : List (Label κ υ ι)) : Prop :=
  ∃ (bs : List (Label κ υ ι)) (a : Label κ υ ι) (cs : List (Label κ υ ι)) (t : ι) (clock : Int)
    (label : TimeoutQueue.Label κ), as = bs ++ a :: cs ∧ a.added? = some (t, id, clock, label)
    ∧ (t = tid ∨ .loop (.wakeup t) ∈ cs)

structure PostingOnly (r : Reactor κ υ ι) (id : Int) (t : ι) : Prop where
  lt_next : id < r.queue.next
  posting : ∀ t' context, r.loop.calls t' = .posting context (insertion id) → t' = t

theorem postingOnly_step {a : Label κ υ ι} {id : Int} {t : ι} (hposting : PostingOnly r id t)
    (h : step r a = some r') : PostingOnly r' id t := by
  constructor
  . have := hposting.lt_next
    have := next_le_of_step h
    omega
  . intro t' context hcall
    cases calls_of_insertion h hcall with
    | inl hold => exact hposting.posting t' context hold
    | inr hnew =>
      have ⟨_, _, ha, _⟩ := hnew
      have := (next_of_added ha h).1
      have := hposting.lt_next
      omega

theorem postingOnly_of_added {a : Label κ υ ι} {id clock : Int} {t : ι}
    {label : TimeoutQueue.Label κ} (hinv : Inv r) (ha : a.added? = some (t, id, clock, label))
    (h : step r a = some r')
    : PostingOnly r' id t ∧ (t = r.loop.tid → Returned r' id) := by
  have hnext := next_of_added ha h
  have hnew : ∀ t' context, r'.loop.calls t' = .posting context (insertion id) →
      t' = t ∧ t' ≠ r.loop.tid := by
    intro t' context hcall
    cases calls_of_insertion h hcall with
    | inl hold =>
      have := hinv.posting t' context id hold
      omega
    | inr hnew =>
      have ⟨_, _, ha', htid⟩ := hnew
      rw [ha] at ha'
      injection ha' with ha'
      injection ha' with htt
      exact ⟨htt.symm, htid⟩
  constructor
  . constructor
    . exact hnext.2
    . intro t' context hcall
      exact (hnew t' context hcall).1
  . intro htid
    constructor
    . exact hnext.2
    . intro t' context hcall
      have ⟨htt, hne⟩ := hnew t' context hcall
      rw [htt] at hne
      exact hne htid

theorem returned_of_wakeup {id : Int} {t : ι} (hposting : PostingOnly r id t)
    (h : step r (.loop (.wakeup t)) = some r') : Returned r' id := by
  have hposting' := postingOnly_step hposting h
  constructor
  . exact hposting'.lt_next
  . intro t' context hcall
    rw [hposting'.posting t' context hcall, EventLoop.calls_of_wakeup (step_loop h).1,
      Function.update_self] at hcall
    contradiction

theorem returned_of_run {as : List (Label κ υ ι)} {id : Int} (h : run (init tid) as = some r)
    (hreturned : AddReturned tid id as) : Returned r id := by
  have ⟨bs, a, cs, t, clock, label, heq, ha, hcs⟩ := hreturned
  rw [heq, run, Machine.run_append_cons_eq_some] at h
  have ⟨m, m', hm, hstep, hrun⟩ := h
  have ⟨hposting, hloop⟩ := postingOnly_of_added (inv_run hm) ha hstep
  cases hcs with
  | inl htid =>
    apply returned_run (hloop _) hrun
    rw [htid, tid_of_run hm]
  | inr hwakeup =>
    have ⟨ds, es, hds⟩ := List.append_of_mem hwakeup
    rw [hds, Machine.run_append_cons_eq_some] at hrun
    have ⟨m₂, m₃, hm₂, hstep₃, hrun⟩ := hrun
    have hposting₂ : PostingOnly m₂ id t := by
      apply Machine.run_invariant (P := fun r : Reactor κ υ ι => PostingOnly r id t) _ hposting hm₂
      intro r a r' hposting hstep
      exact postingOnly_step hposting hstep
    exact returned_run (returned_of_wakeup hposting₂ hstep₃) hrun

theorem absent_run {as : List (Label κ υ ι)} {id : Int} (habsent : r.queue.Absent id)
    (h : run r as = some r') : r'.queue.Absent id := by
  apply Machine.run_invariant (P := fun r : Reactor κ υ ι => r.queue.Absent id) _ habsent h
  intro r a r' habsent hstep
  exact absent_step habsent hstep

theorem gone_run {as : List (Label κ υ ι)} {id : Int} (hgone : r.queue.Gone id)
    (h : run r as = some r') : r'.queue.Gone id := by
  apply Machine.run_invariant (P := fun r : Reactor κ υ ι => r.queue.Gone id) _ hgone h
  intro r a r' hgone hstep
  exact gone_step hgone hstep

def cancellation (id : Int) : Task υ := .timer (.cancelInLoop id)

-- `ahead` tasks are executed before the cancel, and no insertion comes behind it.
def Cancelling (r : Reactor κ υ ι) (id : Int) (ahead : Nat) : Prop :=
  ∃ xs ys, r.tasks = xs ++ cancellation id :: ys ∧ xs.length = ahead ∧ insertion id ∉ ys

theorem timeouts_of_cancellation {a : Label κ υ ι} {id : Int} {ts : List (Task υ)}
    (h : step r a = some r') (hexecuted : executed [a] = cancellation id :: ts)
    : ∀ e ∈ r'.queue.timeouts, e.id ≠ id := by
  cases a with
  | loop label =>
    have htimer := (step_loop h).2.2
    cases label with
    | beginTask context task =>
      have htask : task = cancellation id := by
        simp only [executed, Label.executed?, List.filterMap_cons, List.filterMap_nil] at hexecuted
        injection hexecuted
      rw [htask] at htimer
      contradiction
    | _ => contradiction
  | task context task clock =>
    have ⟨_, _, heffect, _⟩ := step_task h
    have htask : task = .cancelInLoop id := by
      simp only [executed, Label.executed?, List.filterMap_cons, List.filterMap_nil] at hexecuted
      injection hexecuted with hhead
      injection hhead
    rw [htask] at heffect
    rw [TimeoutQueue.step_cancelInLoop heffect]
    intro e he
    exact (OrderedSet.mem_erase.mp he).2
  | _ => contradiction

theorem cancelling_step {a : Label κ υ ι} {id : Int} {ahead : Nat} (hinv : Inv r)
    (hreturned : Returned r id) (hcancelling : Cancelling r id ahead) (h : step r a = some r')
    : (∃ ahead', Cancelling r' id ahead' ∧ (executed [a]).length + ahead' = ahead)
        ∨ r'.queue.Absent id := by
  have ⟨xs, ys, hxs, hahead, hys⟩ := hcancelling
  have hys' : insertion id ∉ ys ++ posted [a] := by
    rw [List.mem_append]
    intro hmem
    cases hmem with
    | inl hmem => exact hys hmem
    | inr hmem => exact posted_of_returned hreturned h hmem
  have htasks := tasks_of_step hinv.loop h
  rw [hxs, List.append_assoc, List.cons_append] at htasks
  cases executed_singleton a with
  | inl hnone =>
    rw [hnone] at htasks ⊢
    apply Or.inl
    exact ⟨ahead, ⟨xs, ys ++ posted [a], htasks, hahead, hys'⟩, Nat.zero_add ahead⟩
  | inr hsome =>
    have ⟨task, htask⟩ := hsome
    cases xs with
    | nil =>
      rw [htask] at htasks
      injection htasks with hhead htail
      rw [hhead] at htask
      apply Or.inr
      apply absent_of_returned (inv_step hinv h) (returned_step hreturned h)
      . have htail' : r'.tasks = ys ++ posted [a] := htail
        rw [htail']
        exact hys'
      . exact timeouts_of_cancellation h htask
    | cons x xs =>
      rw [htask] at htasks ⊢
      injection htasks with hhead htail
      apply Or.inl
      refine ⟨xs.length, ⟨xs, ys ++ posted [a], htail, rfl, hys'⟩, ?_⟩
      rw [List.length_cons] at hahead
      rw [List.length_singleton]
      omega

theorem cancelling_run {as : List (Label κ υ ι)} {id : Int} {ahead : Nat} (hinv : Inv r)
    (hreturned : Returned r id) (hcancelling : Cancelling r id ahead) (h : run r as = some r')
    (hexecuted : ahead < (executed as).length) : r'.queue.Absent id := by
  induction as generalizing r ahead with
  | nil =>
    rw [executed, List.filterMap_nil, List.length_nil] at hexecuted
    omega
  | cons a as ih =>
    rw [run, Machine.run_cons_eq_some] at h
    have ⟨m, hstep, hrun⟩ := h
    have hlength : (executed (a :: as)).length = (executed [a]).length + (executed as).length := by
      rw [← List.length_append, ← executed_append]
      rfl
    cases cancelling_step hinv hreturned hcancelling hstep with
    | inl hcancelling' =>
      have ⟨ahead', hahead', hcount⟩ := hcancelling'
      apply ih (inv_step hinv hstep) (returned_step hreturned hstep) hahead' hrun
      omega
    | inr habsent => exact absent_run habsent hrun

structure NeverFires (r : Reactor κ υ ι) (id : Int) : Prop where
  not_inserted : ∀ e ∈ r.queue.timeouts, e.id ≠ id
  not_executed : ∀ (bs : List (Label κ υ ι)) (now : Int) (cs : List (Label κ υ ι)) (r' : Reactor κ υ ι),
    run r (bs ++ .queue (.runStart now) :: cs) = some r' → .queue (.execute id) ∉ cs

theorem neverFires_of_absent {id : Int} (habsent : r.queue.Absent id) : NeverFires r id := by
  constructor
  . exact habsent.timeouts
  . intro bs now cs r' h hexecute
    rw [run, Machine.run_append_cons_eq_some] at h
    have ⟨m, m', hm, hstart, hrun⟩ := h
    have hgone := TimeoutQueue.gone_of_runStart (absent_run habsent hm) (step_queue hstart).1
    have ⟨ds, es, hds⟩ := List.append_of_mem hexecute
    rw [hds, Machine.run_append_cons_eq_some] at hrun
    have ⟨m₂, m₃, hm₂, hstep, _⟩ := hrun
    exact TimeoutQueue.not_gone_of_execute (step_queue hstep).1 (gone_run hgone hm₂)

-- After `as` a thread calls `Cancel`, the first label of `cs` is this call. The tasks that were
-- pending at the call and the cancel itself have been executed.
def CancelExecuted (tid t : ι) (id : Int) (bs cs : List (Label κ υ ι)) : Prop :=
  (posted bs).length ≤ (executed (bs ++ cs)).length
    ∧ (t = tid ∨ ∃ (cs₁ : List (Label κ υ ι)) (context : TraceContext)
          (cs₂ : List (Label κ υ ι)), cs = cs₁ ++ .loop (.push t context (cancellation id)) :: cs₂
        ∧ (∀ context task, .loop (.push t context task) ∉ cs₁)
        ∧ (posted (bs ++ cs₁)).length < (executed (bs ++ cs)).length)

def CancelledTimersNeverFire (tid : ι) (as : List (Label κ υ ι)) (r : Reactor κ υ ι) : Prop :=
  ∀ (bs : List (Label κ υ ι)) (t : ι) (id clock : Int) (cs : List (Label κ υ ι)),
    as = bs ++ .cancel t id clock :: cs → AddReturned tid id bs →
    CancelExecuted tid t id bs (.cancel t id clock :: cs) → NeverFires r id

def CancelsBehindInsertions (tid : ι) (as : List (Label κ υ ι)) : Prop :=
  ∀ (bs : List (Label κ υ ι)) (id clock : Int) (cs : List (Label κ υ ι)) (m : Reactor κ υ ι),
    as = bs ++ .cancel tid id clock :: cs → run (init tid) bs = some m → insertion id ∉ m.tasks

theorem absent_of_loop_cancel {id clock : Int} (hinv : Inv r) (hreturned : Returned r id)
    (htasks : insertion id ∉ r.tasks) (h : step r (.cancel r.loop.tid id clock) = some r')
    : r'.queue.Absent id := by
  cases step_cancel h with
  | inl hnow =>
    apply absent_of_returned (inv_step hinv h) (returned_step hreturned h)
    . rw [tasks_of_eq hnow.2.2]
      exact htasks
    . rw [TimeoutQueue.step_cancelInLoop hnow.2.1]
      intro e he
      exact (OrderedSet.mem_erase.mp he).2
  | inr hpost => exact absurd rfl hpost.1

theorem absent_of_push {t : ι} {context : TraceContext} {id : Int} {cs : List (Label κ υ ι)}
    (hinv : Inv r) (hreturned : Returned r id)
    (h : run r (.loop (.push t context (cancellation id)) :: cs) = some r')
    (hexecuted : r.tasks.length < (executed cs).length) : r'.queue.Absent id := by
  rw [run, Machine.run_cons_eq_some] at h
  have ⟨m, hstep, hrun⟩ := h
  have htasks : m.tasks = r.tasks ++ [cancellation id] := tasks_of_step hinv.loop hstep
  have hcancelling : Cancelling m id r.tasks.length := ⟨r.tasks, [], htasks, rfl, by simp⟩
  exact cancelling_run (inv_step hinv hstep) (returned_step hreturned hstep) hcancelling hrun hexecuted

theorem cancelledTimersNeverFire {as : List (Label κ υ ι)} (h : run (init tid) as = some r)
    (hcancels : CancelsBehindInsertions tid as) : CancelledTimersNeverFire tid as r := by
  intro bs t id clock cs heq hreturned hexecuted
  apply neverFires_of_absent
  have hbs := hcancels bs id clock cs
  rw [heq] at h hbs
  rw [run, Machine.run_append_eq_some] at h
  have ⟨m, hm, hrun⟩ := h
  have hinv := inv_run hm
  have hreturned := returned_of_run hm hreturned
  cases hexecuted.2 with
  | inl htid =>
    rw [Machine.run_cons_eq_some] at hrun
    have ⟨m', hstep, hrun⟩ := hrun
    have hinsertion := hbs m (by rw [htid]) hm
    rw [htid, ← tid_of_run hm] at hstep
    exact absent_run (absent_of_loop_cancel hinv hreturned hinsertion hstep) hrun
  | inr hpush =>
    have ⟨cs₁, context, cs₂, hcs, _, hlength⟩ := hpush
    rw [hcs, Machine.run_append_eq_some] at hrun
    have ⟨m₁, hm₁, hrun⟩ := hrun
    have hrun₁ : run (init tid) (bs ++ cs₁) = some m₁ := by
      rw [run, Machine.run_append_eq_some]
      exact ⟨m, hm, hm₁⟩
    apply absent_of_push (inv_run hrun₁) (returned_run hreturned hm₁) hrun
    have htasks : (executed (bs ++ cs₁)).length + m₁.tasks.length = (posted (bs ++ cs₁)).length := by
      rw [← List.length_append, tasks_of_run hrun₁]
    have htotal : (executed (bs ++ .cancel t id clock :: cs)).length
        = (executed (bs ++ cs₁)).length + (executed cs₂).length := by
      rw [hcs, ← List.append_assoc, executed_append, List.length_append]
      rfl
    omega

def addedByOther : List (Label Unit Unit Nat) := [
  .loop .loop, .loop (.poll []), .add 1 1 5 () 0, .loop (.push 1 (0, 0) (insertion 1)), .loop (.wakeup 1)]

def cancelledByOther : List (Label Unit Unit Nat) := [
  .loop (.push 2 (0, 0) (cancellation 1)), .loop (.wakeup 2), .loop .endDispatch, .loop .swap,
  .task (0, 0) (.addInLoop 1) 0, .task (0, 0) (.cancelInLoop 1) 0]

theorem cancelledTimersNeverFire_other_thread
    : ∃ as : List (Label Unit Unit Nat), ∃ r, run (init 0) as = some r ∧ NeverFires r 1 := by
  have hsome : (run (init 0) (addedByOther ++ .cancel 2 1 0 :: cancelledByOther)).isSome := by
    decide +kernel
  have ⟨r, h⟩ := Option.isSome_iff_exists.mp hsome
  refine ⟨_, r, h, cancelledTimersNeverFire h ?_ _ 2 1 0 _ rfl ?_ ?_⟩
  . intro bs id clock cs m heq
    have hmem : Label.cancel 0 id clock ∈ bs ++ .cancel 0 id clock :: cs := by simp
    rw [← heq] at hmem
    simp [addedByOther, cancelledByOther] at hmem
  . exact ⟨[.loop .loop, .loop (.poll [])], .add 1 1 5 () 0, _, 1, 0, _, rfl, rfl, Or.inr (by simp)⟩
  . constructor
    . decide
    . exact Or.inr ⟨[.cancel 2 1 0], (0, 0), _, rfl, by simp, by decide⟩

def addedInCallback : List (Label Unit Unit Nat) := [
  .loop .loop, .loop (.poll [.user 3]), .loop .beginEvent, .add 1 1 5 () 0,
  .loop (.push 1 (0, 0) (insertion 1)), .loop (.wakeup 1)]

def insertedBehind : List (Label Unit Unit Nat) := [
  .loop .endEvent, .loop .endDispatch, .loop .swap, .task (0, 0) (.addInLoop 1) 0]

-- The insertion is pushed and waits for the loop while a channel callback cancels the timer.
theorem not_cancelledTimersNeverFire
    : ∃ as : List (Label Unit Unit Nat), ∃ r,
        run (init 0) as = some r ∧ ¬ CancelledTimersNeverFire 0 as r := by
  have hany : (run (init 0) (addedInCallback ++ .cancel 0 1 0 :: insertedBehind)).any
      (fun r => r.queue.timeouts.elems.any (·.id = 1)) := by
    decide +kernel
  have ⟨r, h, hinserted⟩ := (Option.any_eq_true _ _).mp hany
  have ⟨event, hmem, hid⟩ := List.any_eq_true.mp hinserted
  refine ⟨_, r, h, ?_⟩
  intro hclaim
  have hreturned : AddReturned 0 1 addedInCallback :=
    ⟨[.loop .loop, .loop (.poll [.user 3]), .loop .beginEvent], .add 1 1 5 () 0, _, 1, 0, _, rfl, rfl,
      Or.inr (by simp)⟩
  have hnever := hclaim _ 0 1 0 _ rfl hreturned ⟨by decide, Or.inl rfl⟩
  exact hnever.not_inserted event hmem (of_decide_eq_true hid)

end Reactor
end Claire
