import ClaireCommon.Events.Lemmas.OneShot
import Mathlib.Data.List.Chain

/-!
This module contains the proof that repeating timers keep their entry, are executed by exactly those
calls of `Run` that find them due, and keep the distance of their interval, over all runs of the
timer queue.
-/

namespace Claire

universe u

variable {κ : Type u}

@[simp]
theorem Event.reschedule_callback (now : Int) (event : Event κ)
    : (event.reschedule now).callback = event.callback := by
  unfold reschedule
  split <;> rfl

theorem Event.reschedule_expiration {now : Int} {event : Event κ} (h : event.repeatInterval ≥ 0)
    : (event.reschedule now).expiration = int64 (now + event.repeatInterval) := by
  unfold reschedule
  rw [if_pos h]

namespace TimeoutQueue

variable {q q' : TimeoutQueue κ} {id t0 d : Int} {callback : κ}

-- Whatever the queue still holds under `id` repeats with the interval and has the callback.
def Registered (q : TimeoutQueue κ) (id d : Int) (callback : κ) : Prop :=
  id < q.next ∧ ∀ e ∈ q.events, e.id = id → e.repeatInterval = d ∧ e.callback = callback

theorem registered_step {l : Label κ} (hregistered : Registered q id d callback)
    (h : step q l = some q') : Registered q' id d callback := by
  apply forall_events_step _ hregistered.1 hregistered.2 h
  intro e now he
  rw [Event.reschedule_repeatInterval, Event.reschedule_callback]
  apply he

theorem registered_of_addRepeating (hinv : Inv q)
    (h : step q (.addRepeating id t0 d callback) = some q') : Registered q' id d callback := by
  have ⟨hid, heq⟩ := step_addRepeating h
  rw [heq, hid]
  constructor
  . simp only [addRepeating]
    omega
  . intro e he heid
    rw [eq_of_addEvent hinv he heid]
    apply And.intro rfl rfl

theorem registered_of_mem {ls : List (Label κ)} (h : run init ls = some q)
    (hadd : .addRepeating id t0 d callback ∈ ls) : Registered q id d callback := by
  apply Machine.run_invariant_of_mem _ _ hadd h
  . intro a l b hregistered hstep
    apply registered_step hregistered hstep
  . intro ls m m' hm hstep
    apply registered_of_addRepeating (inv_run inv_init hm) hstep

theorem Registered.timeouts (h : Registered q id d callback) {e : Event κ} (he : e ∈ q.timeouts)
    (hid : e.id = id) : e.repeatInterval = d := by
  apply (h.2 e _ hid).1
  rw [mem_events]
  apply Or.inr (Or.inl he)

theorem key_mem_foldl_reinsert {now : Int} {timeouts : TimeoutSet κ} {expired : List (Event κ)}
    {e : Event κ} (he : e ∈ expired) (hrepeat : e.repeatInterval ≥ 0)
    : e.id ∈ (expired.foldl (reinsert now) timeouts).keys := by
  induction expired generalizing timeouts with
  | nil => contradiction
  | cons event expired ih =>
    rw [List.mem_cons] at he
    cases he with
    | inr he => apply ih he
    | inl heq =>
      have hkey : e.id ∈ (reinsert now timeouts event).keys := by
        unfold reinsert
        rw [← heq, if_pos hrepeat]
        by_cases hmem : (e.reschedule now).id ∈ timeouts.keys
        . rw [OrderedSet.insert_of_mem_keys hmem, ← Event.reschedule_id now e]
          apply hmem
        . rw [← Event.reschedule_id now e]
          apply OrderedSet.key_mem_keys
          rw [OrderedSet.mem_insert hmem]
          apply Or.inl rfl
      rw [OrderedSet.mem_keys] at hkey
      have ⟨a, ha, hid⟩ := hkey
      rw [List.foldl_cons, ← hid]
      apply OrderedSet.key_mem_keys
      apply mem_foldl_reinsert_of_mem ha

theorem key_mem_step {l : Label κ} (hregistered : Registered q id d callback) (hd : 0 ≤ d)
    (hkey : id ∈ q.timeouts.keys) (hcancel : l ≠ .cancelInLoop id) (h : step q l = some q')
    : id ∈ q'.timeouts.keys := by
  rw [OrderedSet.mem_keys] at hkey
  have ⟨e, he, hid⟩ := hkey
  by_cases hdue : ∃ now, l = .runStart now ∧ e.expiration ≤ now
  . have ⟨now, hl, hle⟩ := hdue
    rw [hl] at h
    rw [(step_runStart h).2, ← hid]
    apply key_mem_foldl_reinsert
    . rw [OrderedSet.mem_upTo]
      apply And.intro he hle
    . rw [hregistered.timeouts he hid]
      apply hd
  . rw [← hid]
    apply OrderedSet.key_mem_keys
    apply mem_timeouts_step he _ _ h
    . rw [hid]
      apply hcancel
    . intro now hl
      apply Int.lt_of_not_ge
      intro hle
      apply hdue ⟨now, hl, hle⟩

theorem count_keys_eq_one (h : id ∈ q.timeouts.keys) : q.timeouts.keys.count id = 1 :=
  List.count_eq_one_of_mem q.timeouts.nodup h

theorem key_mem_of_addInLoop {clock : Int} (hinv : Inv q)
    (h : step q (.addInLoop id clock) = some q') : id ∈ q'.timeouts.keys := by
  have ⟨event, hfind, heq⟩ := step_addInLoop h
  have hid : event.id = id := by simpa using List.find?_some hfind
  have hfresh := hinv.bound_timeouts event (List.mem_of_find?_eq_some hfind)
  rw [heq, addInLoop_timeouts, ← hid]
  apply OrderedSet.key_mem_keys
  rw [OrderedSet.mem_insert hfresh]
  apply Or.inl rfl

def Due (q : TimeoutQueue κ) (id now : Int) : Prop :=
  ∃ e ∈ q.timeouts, e.id = id ∧ e.expiration ≤ now

theorem mem_rest_runStart_iff {now : Int}
    : id ∈ (q.runStart now).rest.map Event.id ↔ Due q id now := by
  rw [List.mem_map]
  constructor
  . intro h
    have ⟨r, hr, hid⟩ := h
    rw [mem_rest_runStart] at hr
    have ⟨e, he, hle, heq⟩ := hr
    refine ⟨e, he, ?_, hle⟩
    rw [← hid, ← heq, Event.reschedule_id]
  . intro h
    have ⟨e, he, hid, hle⟩ := h
    refine ⟨e.reschedule now, ?_, ?_⟩
    . rw [mem_rest_runStart]
      apply Exists.intro e ⟨he, hle, rfl⟩
    . rw [Event.reschedule_id, hid]

theorem not_runStart_mem {ls : List (Label κ)} {now : Int} (hq : RunningAt now q)
    (hls : ∀ clock, .runEnd clock ∉ ls) (h : run q ls = some q') (now' : Int)
    : .runStart now' ∉ ls := by
  intro hmem
  obtain ⟨ls₁, ls₂, heq⟩ := List.append_of_mem hmem
  rw [heq, run, Machine.run_append_cons_eq_some] at h
  obtain ⟨m, m', hm, hstep, _⟩ := h
  have hls₁ : ∀ clock, .runEnd clock ∉ ls₁ := by
    intro clock hclock
    apply hls clock
    rw [heq]
    apply List.mem_append_left _ hclock
  obtain ⟨current, rest, hphase⟩ := (runningAt_run hq hls₁ hm).1
  rw [(step_runStart hstep).1] at hphase
  contradiction

theorem batch_of_run {ls : List (Label κ)} {m : TimeoutQueue κ} {now : Int}
    (hstart : step q (.runStart now) = some m) (hls : ∀ clock, .runEnd clock ∉ ls)
    (h : run m ls = some q')
    : (q.runStart now).rest.map Event.id = executions ls ++ q'.rest.map Event.id := by
  have hrunning := (phase_of_step hstart).2
  rw [← (step_runStart hstart).2]
  apply rest_of_run _ h
  intro now'
  apply not_runStart_mem hrunning hls h

def lastRun : Int → List (Label κ) → Int
  | now, [] => now
  | _, .runStart now :: ls => lastRun now ls
  | now, _ :: ls => lastRun now ls

def executionTimes (id : Int) : Int → List (Label κ) → List Int
  | _, [] => []
  | _, .runStart now :: ls => executionTimes id now ls
  | now, .execute id' :: ls =>
    if id' = id then now :: executionTimes id now ls else executionTimes id now ls
  | now, _ :: ls => executionTimes id now ls

theorem lastRun_concat (now : Int) (ls : List (Label κ)) (l : Label κ)
    : lastRun now (ls ++ [l]) = lastRun (lastRun now ls) [l] := by
  induction ls generalizing now with
  | nil => rfl
  | cons l' ls ih => cases l' <;> apply ih

theorem lastRun_of_run {ls : List (Label κ)} (h : run init ls = some q)
    : ∀ now, RunningAt now q → lastRun 0 ls = now := by
  apply Machine.run_induction (P := fun ls q => ∀ now, RunningAt now q → lastRun 0 ls = now) _ _ h
  . intro now hrunning
    have ⟨current, rest, hphase⟩ := hrunning
    contradiction
  . intro ls m l m' hrun ih hstep now hrunning
    have hphase := phase_of_step hstep
    rw [lastRun_concat]
    cases l with
    | runStart now' =>
      have ⟨current, rest, heq⟩ := hrunning
      have ⟨current', rest', heq'⟩ := hphase.2
      rw [heq', Phase.running.injEq] at heq
      apply heq.1
    | runEnd clock =>
      have ⟨current, rest, heq⟩ := hrunning
      rw [hphase.2] at heq
      contradiction
    | execute id =>
      have ⟨now', current, event, rest, hm, _, heq⟩ := step_execute hstep
      have hnow := ih now' ⟨current, _, hm⟩
      have ⟨current', rest', hrunning⟩ := hrunning
      rw [heq, Phase.running.injEq] at hrunning
      rw [← hrunning.1]
      apply hnow
    | _ =>
      dsimp only [PhaseAfter] at hphase
      apply ih now
      unfold RunningAt at hrunning ⊢
      rw [← hphase]
      apply hrunning

theorem executionTimes_concat (id now : Int) (ls : List (Label κ)) (l : Label κ)
    : executionTimes id now (ls ++ [l])
        = executionTimes id now ls ++ if l.executed = some id then [lastRun now ls] else [] := by
  induction ls generalizing now with
  | nil => cases l <;> simp [executionTimes, Label.executed, lastRun]
  | cons l' ls ih =>
    cases l' with
    | runStart now' => apply ih
    | execute id' =>
      simp only [List.cons_append, executionTimes, lastRun, ih]
      split <;> rfl
    | _ => apply ih

theorem executionTimes_eq_nil {now : Int} {ls : List (Label κ)} (h : id ∉ executions ls)
    : executionTimes id now ls = [] := by
  induction ls generalizing now with
  | nil => rfl
  | cons l ls ih =>
    unfold executions at h ih
    rw [List.filterMap_cons] at h
    cases l with
    | execute id' =>
      simp only [Label.executed, List.mem_cons, not_or] at h
      simp only [executionTimes]
      rw [if_neg (Ne.symm h.1), ih h.2]
    | _ => apply ih h

structure SumsFit (ls : List (Label κ)) (id t0 d : Int) : Prop where
  first : -2 ^ 63 ≤ t0 + d ∧ t0 + d < 2 ^ 63
  later : ∀ (ls₁ : List (Label κ)) (now : Int) (ls₂ : List (Label κ)) (q : TimeoutQueue κ),
    ls = ls₁ ++ .runStart now :: ls₂ → run init ls₁ = some q →
    Due q id now → -2 ^ 63 ≤ now + d ∧ now + d < 2 ^ 63

theorem SumsFit.of_forall {ls : List (Label κ)} (hfirst : -2 ^ 63 ≤ t0 + d ∧ t0 + d < 2 ^ 63)
    (hlater : ∀ now, .runStart now ∈ ls → -2 ^ 63 ≤ now + d ∧ now + d < 2 ^ 63)
    : SumsFit ls id t0 d where
  first := hfirst
  later := by
    intro ls₁ now ls₂ q heq _ _
    apply hlater
    rw [heq]
    apply List.mem_append_right _ List.mem_cons_self

theorem SumsFit.of_concat {ls : List (Label κ)} {l : Label κ} (h : SumsFit (ls ++ [l]) id t0 d)
    : SumsFit ls id t0 d where
  first := h.first
  later := by
    intro ls₁ now ls₂ q heq
    apply h.later ls₁ now (ls₂ ++ [l]) q
    rw [heq]
    simp

-- `last` is when the timer was executed last, or when it was added.
structure Spaced (q : TimeoutQueue κ) (id d last : Int) : Prop where
  bound : ∀ e ∈ q.bound, e.id = id → last + d ≤ e.expiration
  timeouts : ∀ e ∈ q.timeouts, e.id = id → last + d ≤ e.expiration
  rest : ∀ now, RunningAt now q → ∀ r ∈ q.rest, r.id = id →
    last + d ≤ now ∧ ∀ e ∈ q.timeouts, e.id = id → now + d ≤ e.expiration

theorem spaced_of_addRepeating (hinv : Inv q) (hfits : -2 ^ 63 ≤ t0 + d ∧ t0 + d < 2 ^ 63)
    (h : step q (.addRepeating id t0 d callback) = some q') : Spaced q' id d t0 := by
  have ⟨hid, heq⟩ := step_addRepeating h
  have hevent {e : Event κ} (he : e ∈ q'.events) (heid : e.id = id) : t0 + d ≤ e.expiration := by
    rw [heq] at he
    rw [hid] at heid
    rw [eq_of_addEvent hinv he heid, int64_of_range hfits.1 hfits.2]
  have hrest {r : Event κ} (hr : r ∈ q'.rest) (hrid : r.id = id) : False := by
    rw [heq] at hr
    have : r.id < q.next := hinv.rest hr
    omega
  constructor
  . intro e he
    apply hevent
    rw [mem_events]
    apply Or.inl he
  . intro e he
    apply hevent
    rw [mem_events]
    apply Or.inr (Or.inl he)
  . intro now hrunning r hr hrid
    cases hrest hr hrid

theorem spaced_of_runStart {last now : Int} (hinv : Inv q)
    (hregistered : Registered q id d callback) (hd : 0 ≤ d) (hspaced : Spaced q id d last)
    (hfits : Due q id now → -2 ^ 63 ≤ now + d ∧ now + d < 2 ^ 63)
    (h : step q (.runStart now) = some q') : Spaced q' id d last := by
  have hinv' := inv_step hinv h
  have hreinserted {e₀ : Event κ} (he₀ : e₀ ∈ q.timeouts) (hid : e₀.id = id)
      (hle : e₀.expiration ≤ now) : (e₀.reschedule now).expiration = now + d := by
    have hfits := hfits ⟨e₀, he₀, hid, hle⟩
    have hrepeat := hregistered.timeouts he₀ hid
    rw [Event.reschedule_expiration (by omega), hrepeat, int64_of_range hfits.1 hfits.2]
  have htimeouts {e : Event κ} (he : e ∈ q'.timeouts) (hid : e.id = id)
      : (e ∈ q.timeouts ∧ now < e.expiration) ∨ (Due q id now ∧ e.expiration = now + d) := by
    cases timeouts_of_step h he with
    | inl hold => apply Or.inl ⟨hold.1, hold.2 now rfl⟩
    | inr hnew =>
      cases hnew with
      | inl hbound =>
        have ⟨_, clock, hlabel⟩ := hbound
        contradiction
      | inr hreinsert =>
        have ⟨now', e₀, hlabel, he₀, hle, _, heq⟩ := hreinsert
        injection hlabel with hlabel
        rw [heq, Event.reschedule_id] at hid
        rw [← hlabel] at hle heq
        refine Or.inr ⟨⟨e₀, he₀, hid, hle⟩, ?_⟩
        rw [heq, hreinserted he₀ hid hle]
  have hdue (hdue : Due q id now) : last + d ≤ now := by
    have ⟨e, he, hid, hle⟩ := hdue
    have := hspaced.timeouts e he hid
    omega
  constructor
  . intro e he
    rw [(step_runStart h).2] at he
    apply hspaced.bound e he
  . intro e he hid
    cases htimeouts he hid with
    | inl hold => apply hspaced.timeouts e hold.1 hid
    | inr hnew =>
      have := hdue hnew.1
      omega
  . intro now' hrunning r hr hrid
    have ⟨current, rest, hphase⟩ := hrunning
    rw [(step_runStart h).2] at hphase
    simp only [runStart, Phase.running.injEq] at hphase
    rw [← hphase.1]
    have hfound : Due q id now := by
      rw [← mem_rest_runStart_iff, ← hrid, ← (step_runStart h).2]
      apply List.mem_map_of_mem hr
    refine ⟨hdue hfound, ?_⟩
    intro e he hid
    cases htimeouts he hid with
    | inl hold =>
      have ⟨e₀, he₀, hid₀, hle⟩ := hfound
      have heq := OrderedSet.eq_of_key_eq hold.1 he₀ (hid.trans hid₀.symm)
      rw [← heq] at hle
      omega
    | inr hnew => omega

theorem runningAt_of_step {l : Label κ} {now : Int} (hl : ∀ now, l ≠ .runStart now)
    (hrunning : RunningAt now q') (h : step q l = some q')
    : RunningAt now q ∧ q'.rest ⊆ q.rest := by
  have hphase := phase_of_step h
  cases l with
  | runStart now' => apply absurd rfl (hl now')
  | runEnd clock =>
    have ⟨current, rest, heq⟩ := hrunning
    rw [hphase.2] at heq
    contradiction
  | execute id =>
    have ⟨now', current, event, rest, hq, _, heq⟩ := step_execute h
    have ⟨event', hrest, _⟩ := hphase
    have ⟨current', rest', hrunning⟩ := hrunning
    rw [heq, Phase.running.injEq] at hrunning
    rw [← hrunning.1, hrest]
    apply And.intro ⟨current, _, hq⟩ (List.subset_cons_self _ _)
  | _ =>
    dsimp only [PhaseAfter] at hphase
    unfold RunningAt at hrunning ⊢
    rw [rest_of_phase hphase, ← hphase]
    apply And.intro hrunning (List.Subset.refl _)

theorem spaced_of_step {last : Int} {l : Label κ} (hinv : Inv q)
    (hregistered : Registered q id d callback) (hspaced : Spaced q id d last)
    (hl : ∀ now, l ≠ .runStart now) (h : step q l = some q') : Spaced q' id d last := by
  have htimeouts {e : Event κ} (he : e ∈ q'.timeouts) : e ∈ q.timeouts ∨ e ∈ q.bound := by
    cases timeouts_of_step h he with
    | inl hold => apply Or.inl hold.1
    | inr hnew =>
      cases hnew with
      | inl hbound => apply Or.inr hbound.1
      | inr hreinsert =>
        have ⟨now, _, hlabel, _⟩ := hreinsert
        apply absurd hlabel (hl now)
  constructor
  . intro e he hid
    cases mem_bound_of_step h he with
    | inl hold => apply hspaced.bound e hold.1 hid
    | inr hnew =>
      have hnext := next_of_step h
      rw [hnew] at hnext
      have := hregistered.1
      omega
  . intro e he hid
    cases htimeouts he with
    | inl hold => apply hspaced.timeouts e hold hid
    | inr hbound => apply hspaced.bound e hbound hid
  . intro now hrunning r hr hrid
    have ⟨hrunning, hsubset⟩ := runningAt_of_step hl hrunning h
    have ⟨hlast, hnow⟩ := hspaced.rest now hrunning r (hsubset hr) hrid
    refine ⟨hlast, ?_⟩
    intro e he hid
    cases htimeouts he with
    | inl hold => apply hnow e hold hid
    | inr hbound =>
      apply absurd (hrid.trans hid.symm) (hinv.bound_rest e hbound r (hsubset hr))

theorem spaced_of_execute {last now : Int} (hinv : Inv q) (hspaced : Spaced q id d last)
    (hrunning : RunningAt now q) (h : step q (.execute id) = some q')
    : last + d ≤ now ∧ Spaced q' id d now := by
  obtain ⟨now', current, event, rest, hphase, hid, heq⟩ := step_execute h
  have hrest : q.rest = event :: rest := by simp [TimeoutQueue.rest, hphase]
  have hevent : event ∈ q.rest := by simp [hrest]
  obtain ⟨hlast, hnow⟩ := hspaced.rest now hrunning event hevent hid
  refine ⟨hlast, ?_, ?_, ?_⟩
  . intro e he heid
    rw [heq] at he
    apply absurd (hid.trans heid.symm) (hinv.bound_rest e he event hevent)
  . intro e he heid
    rw [heq] at he
    apply hnow e he heid
  . intro _ _ r hr hrid
    have hnodup := hinv.rest_nodup
    rw [hrest, List.map_cons, List.nodup_cons] at hnodup
    rw [heq] at hr
    have hr : r ∈ rest := hr
    have hmem : r.id ∈ rest.map Event.id := List.mem_map_of_mem hr
    rw [hrid, ← hid] at hmem
    apply absurd hmem hnodup.1

theorem spaced_of_run {ls : List (Label κ)} (hd : 0 ≤ d) (h : run init ls = some q)
    : SumsFit ls id t0 d → .addRepeating id t0 d callback ∈ ls →
        ∃ last, (t0 :: executionTimes id 0 ls).getLast? = some last ∧ Spaced q id d last ∧
          List.IsChain (fun t t' => t + d ≤ t') (t0 :: executionTimes id 0 ls) := by
  apply Machine.run_induction (P := fun ls q => SumsFit ls id t0 d →
    .addRepeating id t0 d callback ∈ ls →
      ∃ last, (t0 :: executionTimes id 0 ls).getLast? = some last ∧ Spaced q id d last ∧
        List.IsChain (fun t t' => t + d ≤ t') (t0 :: executionTimes id 0 ls)) _ _ h
  . intro _ hadd
    contradiction
  . intro ls m l m' hrun ih hstep hfits hadd
    have hinv := inv_run inv_init hrun
    rw [List.mem_append, List.mem_singleton] at hadd
    cases hadd with
    | inr hadd =>
      rw [← hadd] at hstep ⊢
      have hid := (step_addRepeating hstep).1
      have hnot : id ∉ executions ls := by
        intro hmem
        have := executions_lt_next hrun id hmem
        omega
      rw [executionTimes_concat, executionTimes_eq_nil hnot]
      refine ⟨t0, rfl, spaced_of_addRepeating hinv hfits.first hstep, ?_⟩
      apply List.IsChain.singleton
    | inl hadd =>
      obtain ⟨last, hlast, hspaced, hchain⟩ := ih hfits.of_concat hadd
      have hregistered := registered_of_mem hrun hadd
      rw [executionTimes_concat]
      by_cases hexecuted : l.executed = some id
      . have hl : l = .execute id := by
          cases l <;> simp_all [Label.executed]
        rw [hl] at hstep
        obtain ⟨now, current, event, rest, hphase, _⟩ := step_execute hstep
        have hrunning : RunningAt now m := ⟨current, _, hphase⟩
        obtain ⟨hle, hspaced⟩ := spaced_of_execute hinv hspaced hrunning hstep
        rw [if_pos hexecuted, lastRun_of_run hrun now hrunning, ← List.cons_append]
        refine ⟨now, List.getLast?_concat, hspaced, ?_⟩
        rw [List.isChain_append]
        refine ⟨hchain, List.isChain_singleton now, ?_⟩
        rw [hlast]
        simp [hle]
      . rw [if_neg hexecuted, List.append_nil]
        refine ⟨last, hlast, ?_, hchain⟩
        by_cases hl : ∃ now, l = .runStart now
        . obtain ⟨now, hl⟩ := hl
          rw [hl] at hstep hfits
          apply spaced_of_runStart hinv hregistered hd hspaced _ hstep
          apply hfits.later ls now [] m rfl hrun
        . apply spaced_of_step hinv hregistered hspaced _ hstep
          intro now heq
          apply hl ⟨now, heq⟩

structure RepeatingTimerFires (ls : List (Label κ)) (id t0 d : Int) (callback : κ) : Prop where
  one_entry : ∀ (ls₁ : List (Label κ)) (clock : Int) (ls₂ ls₃ : List (Label κ)) (q : TimeoutQueue κ),
    ls = ls₁ ++ .addInLoop id clock :: ls₂ ++ ls₃ →
    .cancelInLoop id ∉ ls₂ → run init (ls₁ ++ .addInLoop id clock :: ls₂) = some q →
    q.timeouts.keys.count id = 1
  executed_once_when_due : ∀ (ls₁ : List (Label κ)) (now : Int) (ls₂ : List (Label κ)) (clock : Int)
    (ls₃ : List (Label κ)) (q : TimeoutQueue κ),
    ls = ls₁ ++ .runStart now :: ls₂ ++ .runEnd clock :: ls₃ → (∀ c, .runEnd c ∉ ls₂) →
    run init ls₁ = some q → Due q id now → (executions ls₂).count id = 1
  executed_only_when_due : ∀ (ls₁ : List (Label κ)) (now : Int) (ls₂ ls₃ : List (Label κ))
    (q : TimeoutQueue κ),
    ls = ls₁ ++ .runStart now :: ls₂ ++ ls₃ → (∀ c, .runEnd c ∉ ls₂) →
    run init ls₁ = some q → id ∈ executions ls₂ → Due q id now
  executes_callback : ∀ ls₁ ls₂ : List (Label κ), ls = ls₁ ++ .execute id :: ls₂ →
    ∃ q event, run init (ls₁ ++ [Label.execute id]) = some q ∧ q.current = some event ∧
      event.callback = callback
  spaced : List.IsChain (fun t t' => t + d ≤ t') (t0 :: executionTimes id 0 ls)

theorem count_executions_le {ls : List (Label κ)} {m : TimeoutQueue κ} {now : Int} (hinv : Inv q)
    (hstart : step q (.runStart now) = some m) (hls : ∀ clock, .runEnd clock ∉ ls)
    (h : run m ls = some q') : (executions ls).count id ≤ 1 := by
  have hnodup := (inv_step hinv hstart).rest_nodup
  rw [(step_runStart hstart).2, batch_of_run hstart hls h, List.nodup_append] at hnodup
  apply List.nodup_iff_count_le_one.mp hnodup.1

theorem one_entry_of_run {ls₁ ls₂ ls₃ : List (Label κ)} {clock : Int} (hd : 0 ≤ d)
    (h : run init (ls₁ ++ ls₃) = some q')
    (hadd : .addRepeating id t0 d callback ∈ ls₁ ++ ls₃)
    (hq : run init (ls₁ ++ .addInLoop id clock :: ls₂) = some q)
    (hcancel : .cancelInLoop id ∉ ls₂) : q.timeouts.keys.count id = 1 := by
  rw [run, Machine.run_append_cons_eq_some] at hq
  obtain ⟨q₁, q₂, hq₁, hinsert, hrun⟩ := hq
  have hinv := inv_run inv_init hq₁
  have hlt : id < q₁.next := by
    obtain ⟨event, hfind, _⟩ := step_addInLoop hinsert
    have hid : event.id = id := by simpa using List.find?_some hfind
    rw [← hid]
    apply hinv.bound (List.mem_of_find?_eq_some hfind)
  have hregistered := registered_of_mem hq₁ (mem_left_of_handedOut rfl h hq₁ hadd hlt)
  apply count_keys_eq_one
  have hkept : Registered q id d callback ∧ id ∈ q.timeouts.keys := by
    apply Machine.run_invariant_of
      (P := fun q => Registered q id d callback ∧ id ∈ q.timeouts.keys)
      (L := fun l => l ≠ .cancelInLoop id) _ _ _ hrun
    . intro m l m' hl hm hstep
      apply And.intro (registered_step hm.1 hstep) (key_mem_step hm.1 hd hm.2 hl hstep)
    . intro l hl heq
      rw [heq] at hl
      apply hcancel hl
    . apply And.intro (registered_step hregistered hinsert) (key_mem_of_addInLoop hinv hinsert)
  apply hkept.2

theorem executes_callback_of_run {ls₁ ls₂ : List (Label κ)}
    (h : run init (ls₁ ++ .execute id :: ls₂) = some q)
    (hadd : .addRepeating id t0 d callback ∈ ls₁ ++ .execute id :: ls₂)
    : ∃ q event, run init (ls₁ ++ [Label.execute id]) = some q ∧ q.current = some event ∧
        event.callback = callback := by
  have hsplit := h
  rw [run, Machine.run_append_cons_eq_some] at hsplit
  obtain ⟨m, m', hm, hstep, _⟩ := hsplit
  have hlt := execute_lt_next (inv_run inv_init hm) hstep
  have hregistered := registered_of_mem hm (mem_left_of_handedOut rfl h hm hadd hlt)
  obtain ⟨event, hrest, hid, hcurrent, _⟩ := phase_of_step hstep
  refine ⟨m', event, ?_, hcurrent, ?_⟩
  . rw [run, Machine.run_concat_eq_some]
    apply Exists.intro m ⟨hm, hstep⟩
  . apply (hregistered.2 event _ hid).2
    rw [mem_events, hrest]
    apply Or.inr (Or.inr List.mem_cons_self)

theorem repeatingTimerFires {ls : List (Label κ)} (hd : 0 ≤ d) (hfits : SumsFit ls id t0 d)
    (h : run init ls = some q) (hadd : .addRepeating id t0 d callback ∈ ls)
    : RepeatingTimerFires ls id t0 d callback where
  one_entry := by
    intro ls₁ clock ls₂ ls₃ m heq hcancel hm
    rw [heq, List.append_assoc] at h hadd
    apply one_entry_of_run hd h hadd hm hcancel
  executed_once_when_due := by
    intro ls₁ now ls₂ clock ls₃ m heq hls₂ hm hdue
    rw [heq, List.append_assoc, List.cons_append, run, Machine.run_append_cons_eq_some] at h
    obtain ⟨q₁, q₂, hq₁, hstart, hrun⟩ := h
    rw [run, hq₁, Option.some.injEq] at hm
    rw [hm] at hq₁ hstart
    rw [Machine.run_append_cons_eq_some] at hrun
    obtain ⟨q₃, q₄, hq₃, hend, _⟩ := hrun
    have hbatch := batch_of_run hstart hls₂ hq₃
    rw [(phase_of_step hend).1, List.map_nil, List.append_nil] at hbatch
    have hle : (executions ls₂).count id ≤ 1 :=
      count_executions_le (inv_run inv_init hq₁) hstart hls₂ hq₃
    rw [← mem_rest_runStart_iff, hbatch] at hdue
    have := List.count_pos_iff.mpr hdue
    omega
  executed_only_when_due := by
    intro ls₁ now ls₂ ls₃ m heq hls₂ hm hexecuted
    rw [heq, List.append_assoc, List.cons_append, run, Machine.run_append_cons_eq_some] at h
    obtain ⟨q₁, q₂, hq₁, hstart, hrun⟩ := h
    rw [run, hq₁, Option.some.injEq] at hm
    rw [hm] at hstart
    rw [Machine.run_append_eq_some] at hrun
    obtain ⟨q₃, hq₃, _⟩ := hrun
    rw [← mem_rest_runStart_iff, batch_of_run hstart hls₂ hq₃]
    apply List.mem_append_left _ hexecuted
  executes_callback := by
    intro ls₁ ls₂ heq
    rw [heq] at h hadd
    apply executes_callback_of_run h hadd
  spaced := by
    obtain ⟨last, _, _, hchain⟩ := spaced_of_run hd h hfits hadd
    apply hchain

theorem repeatingTimerFires_twice
    : RepeatingTimerFires
        [.addRepeating 1 0 5 (), .addInLoop 1 0, .runStart 4, .runEnd 4, .runStart 7, .execute 1,
          .runEnd 8, .runStart 12, .execute 1, .runEnd 12]
        1 0 5 () := by
  apply repeatingTimerFires (by decide) _ (show run init _ = some _ from rfl) List.mem_cons_self
  apply SumsFit.of_forall (by decide)
  intro now hnow
  simp at hnow
  omega

end TimeoutQueue
end Claire
