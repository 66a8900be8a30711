import ClaireCommon.Events.Lemmas.Repeating

/-!
This module contains the proof that a cancel in the loop thread is final for every timer that was
inserted before.
-/

namespace Claire

universe u

variable {κ : Type u}

namespace TimeoutQueue

variable {q q' : TimeoutQueue κ} {id : Int}

def NotBound (q : TimeoutQueue κ) (id : Int) : Prop :=
  id < q.next ∧ ∀ e ∈ q.bound, e.id ≠ id

theorem notBound_step {l : Label κ} (hnotBound : NotBound q id) (h : step q l = some q')
    : NotBound q' id := by
  have hlt := hnotBound.1
  constructor
  . have := next_le_of_step h
    omega
  . intro e he
    cases mem_bound_of_step h he with
    | inl hold => apply hnotBound.2 e hold.1
    | inr hnew =>
      have hnext := next_of_step h
      rw [hnew] at hnext
      omega

theorem notBound_of_addInLoop {clock : Int} (hinv : Inv q)
    (h : step q (.addInLoop id clock) = some q') : NotBound q' id := by
  have ⟨event, hfind, heq⟩ := step_addInLoop h
  have hid : event.id = id := by simpa using List.find?_some hfind
  rw [heq]
  constructor
  . rw [addInLoop_next, ← hid]
    apply hinv.bound (List.mem_of_find?_eq_some hfind)
  . intro e he
    rw [addInLoop_bound, List.mem_filter] at he
    simpa using he.2

theorem notBound_of_mem {ls : List (Label κ)} {clock : Int} (h : run init ls = some q)
    (hinserted : .addInLoop id clock ∈ ls) : NotBound q id := by
  apply Machine.run_invariant_of_mem _ _ hinserted h
  . intro a l b hnotBound hstep
    apply notBound_step hnotBound hstep
  . intro ls m m' hm hstep
    apply notBound_of_addInLoop (inv_run inv_init hm) hstep

theorem absent_of_cancelInLoop (hnotBound : NotBound q id)
    (h : step q (.cancelInLoop id) = some q') : Absent q' id := by
  rw [step_cancelInLoop h]
  constructor
  . apply hnotBound.1
  . apply hnotBound.2
  . intro e he
    unfold cancelInLoop at he
    rw [OrderedSet.mem_erase] at he
    apply he.2

theorem absent_run {ls : List (Label κ)} (habsent : Absent q id) (h : run q ls = some q')
    : Absent q' id := by
  apply Machine.run_invariant (P := fun q => Absent q id) _ habsent h
  intro m l m' hm hstep
  apply absent_step hm hstep

theorem cancelInLoop_of_absent (habsent : Absent q id) : q.cancelInLoop id = q := by
  have helems : q.timeouts.elems.filter (·.id ≠ id) = q.timeouts.elems := by
    rw [List.filter_eq_self]
    intro e he
    apply decide_eq_true (habsent.timeouts e he)
  have htimeouts : q.timeouts.erase id = q.timeouts := by
    cases htimeouts : q.timeouts with
    | mk elems nodup sorted =>
      rw [htimeouts] at helems
      simp only [OrderedSet.erase, OrderedSet.mk.injEq]
      apply helems
  unfold cancelInLoop
  rw [htimeouts]

theorem not_mem_executions_of_gone {ls : List (Label κ)} (hgone : Gone q id)
    (h : run q ls = some q') : id ∉ executions ls := by
  intro hmem
  unfold executions at hmem
  rw [List.mem_filterMap] at hmem
  obtain ⟨l, hl, hexecuted⟩ := hmem
  have heq : l = .execute id := by
    cases l <;> simp_all [Label.executed]
  obtain ⟨ls₁, ls₂, hls⟩ := List.append_of_mem (heq ▸ hl)
  rw [hls, run, Machine.run_append_cons_eq_some] at h
  obtain ⟨m, m', hm, hstep, _⟩ := h
  apply not_gone_of_execute hstep
  apply Machine.run_invariant (P := fun q => Gone q id) _ hgone hm
  intro a l b ha hab
  apply gone_step ha hab

theorem count_executions_of_absent {ls : List (Label κ)} (habsent : Absent q id)
    (h : run q ls = some q') : (executions ls).count id ≤ (q.rest.map Event.id).count id := by
  induction ls generalizing q with
  | nil => apply Nat.zero_le
  | cons l ls ih =>
    rw [run, Machine.run_cons_eq_some] at h
    obtain ⟨m, hm, hrun⟩ := h
    have hcount : (executions (l :: ls)).count id
        = l.executed.toList.count id + (executions ls).count id := by
      unfold executions
      rw [List.filterMap_cons, ← List.count_append]
      cases l.executed <;> rfl
    rw [hcount]
    by_cases hl : ∃ now, l = .runStart now
    . obtain ⟨now, hl⟩ := hl
      rw [hl] at hm ⊢
      have hgone := gone_of_runStart habsent hm
      rw [List.count_eq_zero_of_not_mem (not_mem_executions_of_gone hgone hrun)]
      apply Nat.zero_le
    . have hbatch := rest_of_step (fun now hnow => hl ⟨now, hnow⟩) hm
      have := ih (absent_step habsent hm) hrun
      rw [hbatch, List.count_append]
      omega

theorem current_not_mem_rest {ls : List (Label κ)} (h : run init ls = some q)
    : ∀ e, q.current = some e → e.id ∉ q.rest.map Event.id := by
  apply Machine.run_induction
    (P := fun _ q => ∀ e, q.current = some e → e.id ∉ q.rest.map Event.id) _ _ h
  . intro e he
    contradiction
  . intro ls m l m' hrun ih hstep e he
    have hphase := phase_of_step hstep
    cases l with
    | runStart now =>
      rw [(step_runStart hstep).2] at he
      contradiction
    | runEnd clock =>
      unfold current at he
      rw [hphase.2] at he
      contradiction
    | execute id =>
      have ⟨event, hrest, _, hcurrent, _⟩ := hphase
      have hnodup := (inv_run inv_init hrun).rest_nodup
      rw [hrest, List.map_cons, List.nodup_cons] at hnodup
      rw [hcurrent] at he
      injection he with he
      rw [← he]
      apply hnodup.1
    | _ =>
      dsimp only [PhaseAfter] at hphase
      unfold current at he
      rw [hphase] at he
      rw [rest_of_phase hphase]
      apply ih e he

theorem due_of_mem_rest {ls : List (Label κ)} (h : run init ls = some q)
    (hid : id ∈ q.rest.map Event.id)
    : ∃ ls₁ now ls₂ m, ls = ls₁ ++ .runStart now :: ls₂ ∧ (∀ c, .runEnd c ∉ ls₂) ∧
        run init ls₁ = some m ∧ Due m id now ∧ id ∉ executions ls₂ := by
  cases hphase : q.phase with
  | idle =>
    unfold rest at hid
    rw [hphase] at hid
    contradiction
  | running now current rest =>
    obtain ⟨ls₁, ls₂, heq, hend⟩ := (running_of_run h now ⟨current, rest, hphase⟩).1
    rw [heq, run, Machine.run_append_cons_eq_some] at h
    obtain ⟨m, m', hm, hstart, hrun⟩ := h
    have hbatch := batch_of_run hstart hend hrun
    have hnodup := (inv_step (inv_run inv_init hm) hstart).rest_nodup
    rw [(step_runStart hstart).2, hbatch, List.nodup_append] at hnodup
    refine ⟨ls₁, now, ls₂, m, heq, hend, hm, ?_, ?_⟩
    . rw [← mem_rest_runStart_iff, hbatch]
      apply List.mem_append_right _ hid
    . intro hexecuted
      apply hnodup.2.2 id hexecuted id hid rfl

-- `CancelInLoop(id)` leads from `q` after the steps `ls₁` to `q'`, `ls₂` are the steps from there.
structure CancelIsFinal (ls₁ ls₂ : List (Label κ)) (id : Int) (q q' : TimeoutQueue κ) : Prop where
  not_executed_later : ∀ (as : List (Label κ)) (now : Int) (bs : List (Label κ)),
    ls₂ = as ++ .runStart now :: bs → id ∉ executions bs
  executed_at_most_once : (executions ls₂).count id ≤ 1
  executed_from_batch : id ∈ executions ls₂ →
    ∃ (as : List (Label κ)) (now : Int) (bs : List (Label κ)) (m : TimeoutQueue κ),
      ls₁ = as ++ .runStart now :: bs ∧ (∀ c, .runEnd c ∉ bs) ∧
      run init as = some m ∧ Due m id now ∧ id ∉ executions bs
  others_untouched : q'.timeouts.elems = q.timeouts.elems.filter (·.id ≠ id) ∧
    q'.bound = q.bound ∧ q'.phase = q.phase ∧ q'.next = q.next ∧ q'.timerFd = q.timerFd
  not_executed_after_own_callback : ∀ event, q.current = some event → event.id = id →
    id ∉ executions ls₂
  cancel_again : ∀ (as bs : List (Label κ)) (m m' : TimeoutQueue κ),
    ls₂ = as ++ .cancelInLoop id :: bs → run q' as = some m →
    step m (.cancelInLoop id) = some m' → m' = m

theorem cancelIsFinal {q'' : TimeoutQueue κ} {ls₁ ls₂ : List (Label κ)} {clock : Int}
    (h : run init ls₁ = some q) (hinserted : .addInLoop id clock ∈ ls₁)
    (hcancel : step q (.cancelInLoop id) = some q') (hrun : run q' ls₂ = some q'')
    : CancelIsFinal ls₁ ls₂ id q q' := by
  have hinv := inv_run inv_init h
  have habsent := absent_of_cancelInLoop (notBound_of_mem h hinserted) hcancel
  have hcount := count_executions_of_absent habsent hrun
  have hphase : q'.phase = q.phase := phase_of_step hcancel
  rw [rest_of_phase hphase] at hcount
  have hexecuted (hmem : id ∈ executions ls₂) : id ∈ q.rest.map Event.id := by
    have := List.count_pos_iff.mpr hmem
    apply List.count_pos_iff.mp
    omega
  constructor
  . intro as now bs heq
    rw [heq, run, Machine.run_append_cons_eq_some] at hrun
    obtain ⟨m, m', hm, hstart, hrun⟩ := hrun
    apply not_mem_executions_of_gone (gone_of_runStart (absent_run habsent hm) hstart) hrun
  . have := List.nodup_iff_count_le_one.mp hinv.rest_nodup id
    omega
  . intro hmem
    apply due_of_mem_rest h (hexecuted hmem)
  . rw [step_cancelInLoop hcancel]
    apply And.intro rfl ⟨rfl, rfl, rfl, rfl⟩
  . intro event hcurrent hid hmem
    apply current_not_mem_rest h event hcurrent
    rw [hid]
    apply hexecuted hmem
  . intro as bs m m' heq hm hstep
    rw [step_cancelInLoop hstep, cancelInLoop_of_absent (absent_run habsent hm)]

def executing : List (Label Unit) := [.addRepeating 1 0 5 (), .addInLoop 1 0, .runStart 7, .execute 1]

def runAgain : List (Label Unit) := [.runEnd 8, .runStart 20, .runEnd 21]

theorem cancelIsFinal_own_callback
    : ∃ q q' : TimeoutQueue Unit,
        CancelIsFinal [.addRepeating 1 0 5 (), .addInLoop 1 0, .runStart 7, .execute 1]
          [.runEnd 8, .runStart 20, .runEnd 21] 1 q q' := by
  have hsome : (run init (executing ++ .cancelInLoop 1 :: runAgain)).isSome := by decide +kernel
  have ⟨q'', hrun⟩ := Option.isSome_iff_exists.mp hsome
  have ⟨q, q', h, hcancel, hrun⟩ := Machine.run_append_cons_eq_some.mp hrun
  have hinserted : .addInLoop 1 0 ∈ executing := by simp [executing]
  exact ⟨q, q', cancelIsFinal h hinserted hcancel hrun⟩

end TimeoutQueue
end Claire
