import ClaireCommon.Events.Impl.TimeoutQueue

namespace Claire

universe u

variable {κ : Type u}

@[simp]
theorem Event.reschedule_id (now : Int) (event : Event κ) : (event.reschedule now).id = event.id := by
  unfold reschedule
  split <;> rfl

@[simp]
theorem Event.reschedule_repeatInterval (now : Int) (event : Event κ)
    : (event.reschedule now).repeatInterval = event.repeatInterval := by
  unfold reschedule
  split <;> rfl

theorem Event.reschedule_oneShot {now : Int} {event : Event κ} (h : event.repeatInterval < 0)
    : event.reschedule now = event := by
  unfold reschedule
  split
  . omega
  . rfl

namespace TimeoutQueue

def rest (q : TimeoutQueue κ) : List (Event κ) :=
  match q.phase with
  | .idle => []
  | .running _ _ rest => rest

def events (q : TimeoutQueue κ) : List (Event κ) := q.bound ++ q.timeouts.elems ++ q.rest

theorem mem_events {q : TimeoutQueue κ} {e : Event κ}
    : e ∈ q.events ↔ e ∈ q.bound ∨ e ∈ q.timeouts ∨ e ∈ q.rest := by
  simp [events, OrderedSet.mem_def]

theorem step_add {q q' : TimeoutQueue κ} {id expiration : Int} {callback : κ}
    (h : step q (.add id expiration callback) = some q')
    : id = q.next ∧ q' = (q.add expiration callback).2 := by
  dsimp only [step] at h
  split at h
  . next hid => exact ⟨hid.symm, (Option.some.inj h).symm⟩
  . contradiction

theorem step_addRepeating {q q' : TimeoutQueue κ} {id now interval : Int} {callback : κ}
    (h : step q (.addRepeating id now interval callback) = some q')
    : id = q.next ∧ q' = (q.addRepeating now interval callback).2 := by
  dsimp only [step] at h
  split at h
  . next hid => exact ⟨hid.symm, (Option.some.inj h).symm⟩
  . contradiction

theorem step_addInLoop {q q' : TimeoutQueue κ} {id clock : Int}
    (h : step q (.addInLoop id clock) = some q')
    : ∃ event, q.bound.find? (·.id = id) = some event
        ∧ q' = ({ q with bound := q.bound.filter (·.id ≠ id) }).addInLoop event clock := by
  dsimp only [step] at h
  split at h
  . next event hfind =>
    split at h
    . exact ⟨event, hfind, (Option.some.inj h).symm⟩
    . contradiction
  . contradiction

theorem step_cancelInLoop {q q' : TimeoutQueue κ} {id : Int}
    (h : step q (.cancelInLoop id) = some q') : q' = q.cancelInLoop id := by
  dsimp only [step] at h
  split at h
  . exact (Option.some.inj h).symm
  . contradiction

theorem step_expire {q q' : TimeoutQueue κ} (h : step q .expire = some q')
    : ∃ arming, q.timerFd = .armed arming ∧ q' = { q with timerFd := .expired arming } := by
  dsimp only [step] at h
  split at h
  . next arming hfd => exact ⟨arming, hfd, (Option.some.inj h).symm⟩
  . contradiction

theorem step_runStart {q q' : TimeoutQueue κ} {now : Int} (h : step q (.runStart now) = some q')
    : q.phase = .idle ∧ q' = q.runStart now := by
  dsimp only [step] at h
  split at h
  . next hphase => exact ⟨hphase, (Option.some.inj h).symm⟩
  . contradiction

theorem step_execute {q q' : TimeoutQueue κ} {id : Int} (h : step q (.execute id) = some q')
    : ∃ now current event rest, q.phase = .running now current (event :: rest) ∧ event.id = id
        ∧ q' = { q with phase := .running now (some event) rest } := by
  dsimp only [step] at h
  split at h
  . next now current event rest hphase =>
    split at h
    . next hid => exact ⟨now, current, event, rest, hphase, hid, (Option.some.inj h).symm⟩
    . contradiction
  . contradiction

theorem step_runEnd {q q' : TimeoutQueue κ} {clock : Int} (h : step q (.runEnd clock) = some q')
    : ∃ now current, q.phase = .running now current [] ∧ q' = q.runEnd clock := by
  dsimp only [step] at h
  split at h
  . next now current hphase => exact ⟨now, current, hphase, (Option.some.inj h).symm⟩
  . contradiction

section Projections

variable (q : TimeoutQueue κ) (event : Event κ) (clock : Int)

@[simp]
theorem addInLoop_timeouts : (q.addInLoop event clock).timeouts = (q.timeouts.insert event).1 := by
  unfold addInLoop
  dsimp only
  split <;> rfl

@[simp]
theorem addInLoop_next : (q.addInLoop event clock).next = q.next := by
  unfold addInLoop
  dsimp only
  split <;> rfl

@[simp]
theorem addInLoop_bound : (q.addInLoop event clock).bound = q.bound := by
  unfold addInLoop
  dsimp only
  split <;> rfl

@[simp]
theorem addInLoop_phase : (q.addInLoop event clock).phase = q.phase := by
  unfold addInLoop
  dsimp only
  split <;> rfl

theorem addInLoop_rest : (q.addInLoop event clock).rest = q.rest := by
  simp [rest]

end Projections

theorem mem_foldl_reinsert {now : Int} {timeouts : TimeoutSet κ} {expired : List (Event κ)}
    {e : Event κ} (h : e ∈ expired.foldl (reinsert now) timeouts)
    : e ∈ timeouts ∨ ∃ e₀ ∈ expired, e₀.repeatInterval ≥ 0 ∧ e = e₀.reschedule now := by
  induction expired generalizing timeouts with
  | nil => exact Or.inl h
  | cons e₁ expired ih =>
    cases ih h with
    | inl h =>
      unfold reinsert at h
      split at h
      . next hrepeat =>
        cases OrderedSet.eq_or_mem_of_mem_insert h with
        | inl heq => exact Or.inr ⟨e₁, List.mem_cons_self, hrepeat, heq⟩
        | inr h => exact Or.inl h
      . exact Or.inl h
    | inr h =>
      have ⟨e₀, hmem, he₀⟩ := h
      exact Or.inr ⟨e₀, List.mem_cons_of_mem _ hmem, he₀⟩

theorem mem_foldl_reinsert_of_mem {now : Int} {timeouts : TimeoutSet κ} {expired : List (Event κ)}
    {e : Event κ} (h : e ∈ timeouts) : e ∈ expired.foldl (reinsert now) timeouts := by
  induction expired generalizing timeouts with
  | nil => exact h
  | cons e₁ expired ih =>
    apply ih
    unfold reinsert
    split
    . exact OrderedSet.mem_insert_of_mem h
    . exact h

/--
The events after a step are events from before the step, up to rescheduling, and the one that is
handed out by the step.
-/
theorem mem_events_of_step {q q' : TimeoutQueue κ} {l : Label κ} (h : step q l = some q')
    : ∀ e ∈ q'.events,
        (∃ e₀ ∈ q.events, e = e₀ ∨ ∃ now, e = e₀.reschedule now)
          ∨
        (e.id = q.next ∧ q'.next = q.next + 1) := by
  intro e he
  rw [mem_events] at he
  cases l with
  | add id expiration callback =>
    obtain ⟨-, rfl⟩ := step_add h
    simp only [add, rest, List.mem_append, List.mem_singleton] at he
    rcases he with (he | rfl) | he | he
    . exact Or.inl ⟨e, mem_events.mpr (Or.inl he), Or.inl rfl⟩
    . exact Or.inr ⟨rfl, rfl⟩
    . exact Or.inl ⟨e, mem_events.mpr (Or.inr (Or.inl he)), Or.inl rfl⟩
    . exact Or.inl ⟨e, mem_events.mpr (Or.inr (Or.inr he)), Or.inl rfl⟩
  | addRepeating id now interval callback =>
    obtain ⟨-, rfl⟩ := step_addRepeating h
    simp only [addRepeating, rest, List.mem_append, List.mem_singleton] at he
    rcases he with (he | rfl) | he | he
    . exact Or.inl ⟨e, mem_events.mpr (Or.inl he), Or.inl rfl⟩
    . exact Or.inr ⟨rfl, rfl⟩
    . exact Or.inl ⟨e, mem_events.mpr (Or.inr (Or.inl he)), Or.inl rfl⟩
    . exact Or.inl ⟨e, mem_events.mpr (Or.inr (Or.inr he)), Or.inl rfl⟩
  | addInLoop id clock =>
    obtain ⟨event, hfind, rfl⟩ := step_addInLoop h
    have hbound : event ∈ q.bound := List.mem_of_find?_eq_some hfind
    simp only [addInLoop_bound, addInLoop_timeouts, addInLoop_rest, List.mem_filter] at he
    rcases he with he | he | he
    . exact Or.inl ⟨e, mem_events.mpr (Or.inl he.1), Or.inl rfl⟩
    . cases OrderedSet.eq_or_mem_of_mem_insert he with
      | inl heq => exact Or.inl ⟨event, mem_events.mpr (Or.inl hbound), Or.inl heq⟩
      | inr he => exact Or.inl ⟨e, mem_events.mpr (Or.inr (Or.inl he)), Or.inl rfl⟩
    . exact Or.inl ⟨e, mem_events.mpr (Or.inr (Or.inr he)), Or.inl rfl⟩
  | cancelInLoop id =>
    obtain rfl := step_cancelInLoop h
    simp only [cancelInLoop, rest, OrderedSet.mem_erase] at he
    refine Or.inl ⟨e, mem_events.mpr ?_, Or.inl rfl⟩
    exact he.imp_right (Or.imp_left And.left)
  | expire =>
    obtain ⟨_, _, rfl⟩ := step_expire h
    exact Or.inl ⟨e, mem_events.mpr he, Or.inl rfl⟩
  | runStart now =>
    obtain ⟨_, rfl⟩ := step_runStart h
    simp only [runStart, rest, List.mem_map] at he
    rcases he with he | he | ⟨e₀, he₀, rfl⟩
    . exact Or.inl ⟨e, mem_events.mpr (Or.inl he), Or.inl rfl⟩
    . cases mem_foldl_reinsert he with
      | inl he =>
        exact Or.inl ⟨e, mem_events.mpr (Or.inr (Or.inl (OrderedSet.mem_eraseUpTo.mp he).1)), Or.inl rfl⟩
      | inr he =>
        obtain ⟨e₀, he₀, _, rfl⟩ := he
        exact Or.inl ⟨e₀, mem_events.mpr (Or.inr (Or.inl (OrderedSet.mem_upTo.mp he₀).1)),
          Or.inr ⟨now, rfl⟩⟩
    . exact Or.inl ⟨e₀, mem_events.mpr (Or.inr (Or.inl (OrderedSet.mem_upTo.mp he₀).1)),
        Or.inr ⟨now, rfl⟩⟩
  | execute id =>
    obtain ⟨now, current, event, rest, hphase, _, rfl⟩ := step_execute h
    refine Or.inl ⟨e, mem_events.mpr ?_, Or.inl rfl⟩
    simp only [TimeoutQueue.rest, hphase] at he ⊢
    exact he.imp_right (Or.imp_right (List.mem_cons_of_mem _))
  | runEnd clock =>
    obtain ⟨now, current, hphase, rfl⟩ := step_runEnd h
    refine Or.inl ⟨e, mem_events.mpr ?_, Or.inl rfl⟩
    simp only [runEnd, TimeoutQueue.rest, hphase] at he ⊢
    exact he

structure Inv (q : TimeoutQueue κ) : Prop where
  id_lt : ∀ e ∈ q.events, e.id < q.next
  bound_nodup : (q.bound.map Event.id).Nodup
  bound_timeouts : ∀ e ∈ q.bound, e.id ∉ q.timeouts.keys
  bound_rest : ∀ e ∈ q.bound, ∀ r ∈ q.rest, r.id ≠ e.id
  rest_nodup : (q.rest.map Event.id).Nodup
  -- `Run` does not put one-shot events back
  rest_timeouts : ∀ r ∈ q.rest, r.repeatInterval < 0 → r.id ∉ q.timeouts.keys

theorem inv_init : Inv (init : TimeoutQueue κ) := by
  constructor <;> simp [init, events, rest]

theorem Inv.bound {q : TimeoutQueue κ} (hinv : Inv q) {e : Event κ} (he : e ∈ q.bound)
    : e.id < q.next := by
  apply hinv.id_lt
  rw [mem_events]
  exact Or.inl he

theorem Inv.timeouts {q : TimeoutQueue κ} (hinv : Inv q) {k : Int} (hk : k ∈ q.timeouts.keys)
    : k < q.next := by
  rw [OrderedSet.mem_keys] at hk
  cases hk with
  | intro e h =>
    rw [← h.2]
    apply hinv.id_lt
    rw [mem_events]
    exact Or.inr (Or.inl h.1)

theorem Inv.rest {q : TimeoutQueue κ} (hinv : Inv q) {e : Event κ} (he : e ∈ q.rest)
    : e.id < q.next := by
  apply hinv.id_lt
  rw [mem_events]
  exact Or.inr (Or.inr he)

theorem keys_foldl_reinsert {now : Int} {q : TimeoutQueue κ} {k : Int}
    (h : k ∈ (q.runStart now).timeouts.keys) : k ∈ q.timeouts.keys := by
  rw [OrderedSet.mem_keys] at h
  obtain ⟨e, he, rfl⟩ := h
  cases mem_foldl_reinsert he with
  | inl he => exact OrderedSet.key_mem_keys (OrderedSet.mem_eraseUpTo.mp he).1
  | inr he =>
    obtain ⟨e₀, he₀, -, rfl⟩ := he
    rw [Event.reschedule_id]
    exact OrderedSet.key_mem_keys (OrderedSet.mem_upTo.mp he₀).1

theorem mem_rest_runStart {now : Int} {q : TimeoutQueue κ} {r : Event κ}
    : r ∈ (q.runStart now).rest
        ↔
      ∃ e ∈ q.timeouts, e.expiration ≤ now ∧ e.reschedule now = r := by
  simp [runStart, rest, OrderedSet.mem_upTo, and_assoc]

theorem rest_runStart_oneShot {now : Int} {q : TimeoutQueue κ} {r : Event κ}
    (hr : r ∈ (q.runStart now).rest) (hrepeat : r.repeatInterval < 0)
    : r.id ∉ (q.runStart now).timeouts.keys := by
  rw [mem_rest_runStart] at hr
  obtain ⟨e, he, hdue, rfl⟩ := hr
  rw [Event.reschedule_repeatInterval] at hrepeat
  rw [Event.reschedule_id, OrderedSet.mem_keys]
  intro h
  have ⟨e₁, he₁, hid⟩ := h
  cases mem_foldl_reinsert he₁ with
  | inl he₁ =>
    rw [OrderedSet.mem_eraseUpTo] at he₁
    have := OrderedSet.eq_of_key_eq he₁.1 he hid
    rw [this] at he₁
    omega
  | inr he₁ =>
    obtain ⟨e₂, he₂, hrepeat₂, rfl⟩ := he₁
    rw [Event.reschedule_id] at hid
    have := OrderedSet.eq_of_key_eq (OrderedSet.mem_upTo.mp he₂).1 he hid
    rw [this] at hrepeat₂
    omega

theorem inv_addEvent {q : TimeoutQueue κ} (hinv : Inv q) (event : Event κ) (hid : event.id = q.next)
    : Inv { q with next := q.next + 1, bound := q.bound ++ [event] } := by
  constructor
  . intro e he
    simp only [mem_events, List.mem_append, List.mem_singleton] at he
    rcases he with (he | he) | he | he
    . have := hinv.bound he
      dsimp only
      omega
    . simp only [he]
      omega
    . have := hinv.timeouts (OrderedSet.key_mem_keys he)
      dsimp only
      omega
    . have := hinv.rest he
      dsimp only
      omega
  . simp only [List.map_append, List.map_cons, List.map_nil]
    rw [List.nodup_append]
    refine ⟨hinv.bound_nodup, List.nodup_singleton _, ?_⟩
    intro k hk k' hk'
    rw [List.mem_map] at hk
    obtain ⟨e, he, rfl⟩ := hk
    have := hinv.bound he
    rw [List.mem_singleton] at hk'
    omega
  . intro e he
    rw [List.mem_append, List.mem_singleton] at he
    cases he with
    | inl he => exact hinv.bound_timeouts e he
    | inr he =>
      intro hk
      have := hinv.timeouts hk
      rw [he] at this
      omega
  . intro e he r hr
    rw [List.mem_append, List.mem_singleton] at he
    cases he with
    | inl he => exact hinv.bound_rest e he r hr
    | inr he =>
      have : r.id < q.next := hinv.rest hr
      rw [he]
      omega
  . exact hinv.rest_nodup
  . exact hinv.rest_timeouts

theorem Inv.of_sublist {q q' : TimeoutQueue κ} (hinv : Inv q) (hnext : q'.next = q.next)
    (hbound : q'.bound = q.bound) (hkeys : ∀ k ∈ q'.timeouts.keys, k ∈ q.timeouts.keys)
    (hrest : q'.rest.Sublist q.rest) : Inv q' := by
  constructor
  . intro e he
    rw [mem_events, hbound] at he
    rw [hnext]
    rcases he with he | he | he
    . exact hinv.bound he
    . exact hinv.timeouts (hkeys e.id (OrderedSet.key_mem_keys he))
    . exact hinv.rest (hrest.subset he)
  . rw [hbound]
    exact hinv.bound_nodup
  . intro e he hk
    rw [hbound] at he
    exact hinv.bound_timeouts e he (hkeys e.id hk)
  . intro e he r hr
    rw [hbound] at he
    exact hinv.bound_rest e he r (hrest.subset hr)
  . exact hinv.rest_nodup.sublist (hrest.map _)
  . intro r hr hrepeat hk
    exact hinv.rest_timeouts r (hrest.subset hr) hrepeat (hkeys r.id hk)

theorem keys_insert {timeouts : TimeoutSet κ} {event : Event κ} {k : Int}
    (h : k ∈ (timeouts.insert event).1.keys) : k = event.id ∨ k ∈ timeouts.keys := by
  rw [OrderedSet.mem_keys] at h
  obtain ⟨e, he, rfl⟩ := h
  cases OrderedSet.eq_or_mem_of_mem_insert he with
  | inl heq =>
    rw [heq]
    exact Or.inl rfl
  | inr he => exact Or.inr (OrderedSet.key_mem_keys he)

theorem inv_addInLoop {q : TimeoutQueue κ} (hinv : Inv q) {event : Event κ} (clock : Int)
    (hmem : event ∈ q.bound)
    : Inv ({ q with bound := q.bound.filter (·.id ≠ event.id) }.addInLoop event clock) := by
  constructor
  . intro e he
    simp only [mem_events, addInLoop_bound, addInLoop_timeouts, addInLoop_rest, addInLoop_next,
      List.mem_filter] at he ⊢
    rcases he with he | he | he
    . exact hinv.bound he.1
    . cases keys_insert (OrderedSet.key_mem_keys he) with
      | inl heq =>
        rw [heq]
        exact hinv.bound hmem
      | inr he => exact hinv.timeouts he
    . exact hinv.rest he
  . rw [addInLoop_bound]
    exact hinv.bound_nodup.sublist (List.filter_sublist.map _)
  . intro e he hk
    rw [addInLoop_bound, List.mem_filter] at he
    rw [addInLoop_timeouts] at hk
    cases keys_insert hk with
    | inl heq => simp [heq] at he
    | inr hk => exact hinv.bound_timeouts e he.1 hk
  . intro e he r hr
    rw [addInLoop_bound, List.mem_filter] at he
    rw [addInLoop_rest] at hr
    exact hinv.bound_rest e he.1 r hr
  . rw [addInLoop_rest]
    exact hinv.rest_nodup
  . intro r hr hrepeat hk
    rw [addInLoop_rest] at hr
    rw [addInLoop_timeouts] at hk
    cases keys_insert hk with
    | inl heq => exact hinv.bound_rest event hmem r hr heq
    | inr hk => exact hinv.rest_timeouts r hr hrepeat hk

theorem inv_runStart {q : TimeoutQueue κ} (hinv : Inv q) (now : Int) : Inv (q.runStart now) := by
  constructor
  . intro e he
    rw [mem_events] at he
    rcases he with he | he | he
    . exact hinv.bound he
    . exact hinv.timeouts (keys_foldl_reinsert (OrderedSet.key_mem_keys he))
    . rw [mem_rest_runStart] at he
      obtain ⟨e₀, he₀, -, rfl⟩ := he
      rw [Event.reschedule_id]
      exact hinv.timeouts (OrderedSet.key_mem_keys he₀)
  . exact hinv.bound_nodup
  . intro e he hk
    exact hinv.bound_timeouts e he (keys_foldl_reinsert hk)
  . intro e he r hr heq
    rw [mem_rest_runStart] at hr
    obtain ⟨e₀, he₀, -, rfl⟩ := hr
    rw [Event.reschedule_id] at heq
    apply hinv.bound_timeouts e he
    rw [← heq]
    exact OrderedSet.key_mem_keys he₀
  . have : (q.runStart now).rest.map Event.id = (q.timeouts.upTo now).map Event.id := by
      simp [runStart, rest]
    rw [this]
    exact (List.nodup_append.mp (q.timeouts.nodup_upTo_above now)).1
  . intro r hr hrepeat
    exact rest_runStart_oneShot hr hrepeat

theorem inv_step {q q' : TimeoutQueue κ} {l : Label κ} (hinv : Inv q) (h : step q l = some q')
    : Inv q' := by
  cases l with
  | add id expiration callback =>
    obtain ⟨-, rfl⟩ := step_add h
    apply inv_addEvent hinv
    rfl
  | addRepeating id now interval callback =>
    obtain ⟨-, rfl⟩ := step_addRepeating h
    apply inv_addEvent hinv
    rfl
  | addInLoop id clock =>
    obtain ⟨event, hfind, rfl⟩ := step_addInLoop h
    have hid : event.id = id := by simpa using List.find?_some hfind
    rw [← hid]
    exact inv_addInLoop hinv clock (List.mem_of_find?_eq_some hfind)
  | cancelInLoop id =>
    obtain rfl := step_cancelInLoop h
    apply hinv.of_sublist
    . rfl
    . rfl
    . intro k hk
      rw [OrderedSet.mem_keys] at hk
      obtain ⟨e, he, rfl⟩ := hk
      exact OrderedSet.key_mem_keys (OrderedSet.mem_erase.mp he).1
    . exact List.Sublist.refl _
  | expire =>
    obtain ⟨_, _, rfl⟩ := step_expire h
    exact hinv.of_sublist rfl rfl (fun _ hk => hk) (List.Sublist.refl _)
  | runStart now =>
    obtain ⟨-, rfl⟩ := step_runStart h
    exact inv_runStart hinv now
  | execute id =>
    obtain ⟨now, current, event, rest, hphase, -, rfl⟩ := step_execute h
    apply hinv.of_sublist
    . rfl
    . rfl
    . exact fun _ hk => hk
    . have hrest : q.rest = event :: rest := by simp [TimeoutQueue.rest, hphase]
      rw [hrest]
      exact List.sublist_cons_self _ _
  | runEnd clock =>
    obtain ⟨now, current, hphase, rfl⟩ := step_runEnd h
    exact hinv.of_sublist rfl rfl (fun _ hk => hk) (List.nil_sublist _)

theorem inv_run {q q' : TimeoutQueue κ} {ls : List (Label κ)} (hinv : Inv q)
    (h : run q ls = some q') : Inv q' := by
  apply Machine.run_invariant _ hinv h
  intro q l q' hinv h
  exact inv_step hinv h

end TimeoutQueue
end Claire
