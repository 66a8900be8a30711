import ClaireCommon.Threading.Impl.Monitor
import ClaireCommon.Threading.Lemmas.ThreadPool

/-!
This module contains what the signals of the thread pool reach: neither tasks nor free places in the
queue are left to threads that nobody wakes, and no worker sleeps through `Stop`.
-/

namespace Claire
namespace ThreadPool
namespace Monitor

universe u v

variable {τ : Type u} {ι : Type v}

structure WorkerInv (c : Condition Nat) (lock : Option Nat) (i : Nat) (worker : Option (Worker τ))
    : Prop where
  waiting : i ∈ c.waiting → worker = some .waitingNotEmpty
  signalled : i ∈ c.signalled → worker = some .waitingNotEmpty ∨ worker = some .taking
  known : worker = some .waitingNotEmpty → c.Knows i ∨ lock = some i
  locked : lock = some i → worker = some .waitingNotEmpty

variable {c c' : Condition Nat} {lock lock' : Option Nat} {i : Nat} {worker worker' : Option (Worker τ)}

theorem WorkerInv.congr (h : WorkerInv c lock i worker) (hwaiting : i ∈ c'.waiting ↔ i ∈ c.waiting)
    (hsignalled : i ∈ c'.signalled ↔ i ∈ c.signalled) (hlock : lock' = some i ↔ lock = some i)
    : WorkerInv c' lock' i worker where
  waiting := by
    rw [hwaiting]
    exact h.waiting
  signalled := by
    rw [hsignalled]
    exact h.signalled
  known := by
    unfold Condition.Knows
    rw [hwaiting, hsignalled, hlock]
    exact h.known
  locked := by
    rw [hlock]
    exact h.locked

theorem WorkerInv.notify {i : Nat} {v : Option Nat} (h : WorkerInv c lock i worker)
    (hnotify : c.notify v = some c') : WorkerInv c' lock i worker := by
  have ⟨hknows, hwaiting, _⟩ := Condition.knows_of_notify hnotify
  constructor
  . intro hi
    exact h.waiting (hwaiting hi)
  . intro hi
    cases (hknows i).mp (Or.inr hi) with
    | inl hwaits => exact Or.inl (h.waiting hwaits)
    | inr hsignal => exact h.signalled hsignal
  . intro heq
    rw [hknows]
    exact h.known heq
  . exact h.locked

theorem WorkerInv.of_outside (h : WorkerInv c lock i worker)
    (hwaiting : worker ≠ some .waitingNotEmpty) (htaking : worker ≠ some .taking)
    (hwaiting' : worker' ≠ some .waitingNotEmpty) : WorkerInv c lock i worker' where
  waiting := by
    intro hi
    exact absurd (h.waiting hi) hwaiting
  signalled := by
    intro hi
    cases h.signalled hi with
    | inl heq => exact absurd heq hwaiting
    | inr heq => exact absurd heq htaking
  known := by
    intro heq
    exact absurd heq hwaiting'
  locked := by
    intro hi
    exact absurd (h.locked hi) hwaiting

structure CallerInv (c : Condition (Thread ι)) (t : Thread ι) (call : Call τ) : Prop where
  waiting : t ∈ c.waiting → ∃ context task, call = .waitingNotFull context task
  signalled : t ∈ c.signalled →
    ∃ context task, call = .waitingNotFull context task ∨ call = .locking context task
  known : ∀ context task, call = .waitingNotFull context task → c.Knows t

section Callers

variable {c c' : Condition (Thread ι)} {t : Thread ι} {call call' : Call τ}

theorem CallerInv.congr (h : CallerInv c t call) (hwaiting : t ∈ c'.waiting ↔ t ∈ c.waiting)
    (hsignalled : t ∈ c'.signalled ↔ t ∈ c.signalled) : CallerInv c' t call where
  waiting := by
    rw [hwaiting]
    exact h.waiting
  signalled := by
    rw [hsignalled]
    exact h.signalled
  known := by
    unfold Condition.Knows
    rw [hwaiting, hsignalled]
    exact h.known

theorem CallerInv.not_waiting {context : TraceContext} {task : Option τ}
    (h : CallerInv c t (.locking context task)) : t ∉ c.waiting := by
  intro ht
  have ⟨_, _, heq⟩ := h.waiting ht
  contradiction

theorem CallerInv.notify [DecidableEq ι] {v : Option (Thread ι)} (h : CallerInv c t call)
    (hnotify : c.notify v = some c') : CallerInv c' t call := by
  have ⟨hknows, hwaiting, _⟩ := Condition.knows_of_notify hnotify
  constructor
  . intro ht
    exact h.waiting (hwaiting ht)
  . intro ht
    cases (hknows t).mp (Or.inr ht) with
    | inl hwaits =>
      have ⟨context, task, heq⟩ := h.waiting hwaits
      exact ⟨context, task, Or.inl heq⟩
    | inr hsignal => exact h.signalled hsignal
  . intro context task heq
    rw [hknows]
    exact h.known context task heq

theorem CallerInv.of_idle (h : CallerInv c t call) (hidle : call = .idle)
    (hcall' : ∀ context task, call' ≠ .waitingNotFull context task) : CallerInv c t call' where
  waiting := by
    intro ht
    have ⟨_, _, heq⟩ := h.waiting ht
    rw [hidle] at heq
    contradiction
  signalled := by
    intro ht
    have ⟨_, _, heq⟩ := h.signalled ht
    rw [hidle] at heq
    simp at heq
  known := by
    intro context task heq
    exact absurd heq (hcall' context task)

end Callers

structure Inv (s : Monitor τ ι) : Prop where
  worker : ∀ i, WorkerInv s.notEmpty s.lock i s.pool.threads[i]?
  locked : s.lock ≠ none → s.pool.queue = []
  tasks : s.notEmpty.Covers s.pool.queue.length
  caller : ∀ t, CallerInv s.notFull t (s.pool.calls t)
  bounded : s.notFull.waiting.Nonempty → 0 < s.pool.maxQueueSize
  slots : s.notFull.Covers (s.pool.maxQueueSize - s.pool.queue.length)

theorem inv_create (maxQueueSize : Nat) : Inv (create maxQueueSize : Monitor τ ι) where
  worker := by
    intro i
    constructor <;> simp [create, init, Condition.empty]
  locked := by
    intro h
    contradiction
  tasks := Condition.covers_empty _
  caller := by
    intro t
    constructor <;> simp [create, init, Condition.empty]
  bounded := by
    intro h
    simp [create, Condition.empty] at h
  slots := Condition.covers_empty _

structure Kept (p p' : ThreadPool τ ι) : Prop where
  threads : ∀ i : Nat, p'.threads[i]? = p.threads[i]?
    ∨ p.threads[i]? ≠ some .waitingNotEmpty ∧ p.threads[i]? ≠ some .taking
      ∧ p'.threads[i]? ≠ some .waitingNotEmpty
  calls : ∀ t : Thread ι, p'.calls t = p.calls t
    ∨ p.calls t = .idle ∧ ∀ context task, p'.calls t ≠ .waitingNotFull context task
  queue : p'.queue = p.queue
  maxQueueSize : p'.maxQueueSize = p.maxQueueSize

variable {s s' : Monitor τ ι}

theorem Inv.kept (hinv : Inv s) {pool : ThreadPool τ ι} (h : Kept s.pool pool)
    : Inv { s with pool := pool } where
  worker := by
    intro i
    cases h.threads i with
    | inl heq =>
      rw [heq]
      exact hinv.worker i
    | inr hne => exact (hinv.worker i).of_outside hne.1 hne.2.1 hne.2.2
  locked := by
    rw [h.queue]
    exact hinv.locked
  tasks := by
    rw [h.queue]
    exact hinv.tasks
  caller := by
    intro t
    cases h.calls t with
    | inl heq =>
      rw [heq]
      exact hinv.caller t
    | inr hidle => exact (hinv.caller t).of_idle hidle.1 hidle.2
  bounded := by
    rw [h.maxQueueSize]
    exact hinv.bounded
  slots := by
    rw [h.maxQueueSize, h.queue]
    exact hinv.slots

variable {p p' : ThreadPool τ ι} {label : ThreadPool.Label τ ι}

def Waits : ThreadPool.Label τ ι → Prop
  | .push _ _ _ | .waitNotFull _ | .wakeNotFull _ => True
  | .take _ _ | .takeNothing _ | .waitNotEmpty _ | .wakeNotEmpty _ => True
  | _ => False

theorem kept_of_threads (hthreads : ∀ i : Nat, p'.threads[i]? = p.threads[i]?
      ∨ p.threads[i]? ≠ some .waitingNotEmpty ∧ p.threads[i]? ≠ some .taking
        ∧ p'.threads[i]? ≠ some .waitingNotEmpty)
    (hcalls : p'.calls = p.calls) (hqueue : p'.queue = p.queue)
    (hmaxQueueSize : p'.maxQueueSize = p.maxQueueSize) : Kept p p' where
  threads := hthreads
  calls := by
    intro t
    exact Or.inl (by rw [hcalls])
  queue := hqueue
  maxQueueSize := hmaxQueueSize

theorem kept_of_setWorker {i : Nat} {worker worker' : Worker τ}
    (hworker : p.threads[i]? = some worker)
    (hwaiting : worker ≠ .waitingNotEmpty) (htaking : worker ≠ .taking)
    (hwaiting' : worker' ≠ .waitingNotEmpty) : Kept p (p.setWorker i worker') := by
  refine kept_of_threads ?_ rfl rfl rfl
  intro j
  dsimp only [ThreadPool.setWorker]
  by_cases heq : i = j
  . apply Or.inr
    rw [← heq, hworker, List.getElem?_set]
    grind
  . apply Or.inl
    rw [List.getElem?_set_ne heq]

theorem kept_of_spawn {i : Nat} {controls : List Control}
    : Kept p { p.spawn i with controls := controls } := by
  refine kept_of_threads ?_ rfl rfl rfl
  intro j
  by_cases hne : p.threads[j]? = none ∨ p.threads[j]? = some .created
  . apply Or.inr
    refine ⟨by grind, by grind, ?_⟩
    dsimp only [spawn, startThread]
    grind
  . apply Or.inl
    cases hworker : p.threads[j]? with
    | none => exact absurd (Or.inl hworker) hne
    | some worker =>
      apply spawn_threads hworker
      intro heq
      rw [heq] at hworker
      exact hne (Or.inr hworker)

section Stepped

variable [DecidableEq ι] [DecidableEq τ]

theorem kept_of_stepped (hstep : Stepped p label p') (hwaits : ¬ Waits label) : Kept p p' := by
  cases hstep with
  | setTraceContext hcall => exact kept_of_threads (fun _ => Or.inl rfl) rfl rfl rfl
  | @run t task hcall =>
    have hidle : p.calls t = .idle := by
      simp [mayCall] at hcall
      exact hcall.1
    unfold callRun
    split
    . exact kept_of_threads (fun _ => Or.inl rfl) rfl rfl rfl
    . constructor
      . intro i
        exact Or.inl rfl
      . intro t'
        dsimp only [ThreadPool.setCall]
        by_cases heq : t' = t
        . apply Or.inr
          rw [heq, Function.update_self]
          simp [hidle]
        . apply Or.inl
          rw [Function.update_of_ne heq]
      . rfl
      . rfl
  | iterate hworker =>
    unfold nextIteration
    split
    . exact kept_of_setWorker hworker (by simp) (by simp) (by simp)
    . exact kept_of_setWorker hworker (by simp) (by simp) (by simp)
  | @execute i context task hworker =>
    have hkept : Kept p (p.setWorker i .executing) :=
      kept_of_setWorker hworker (by simp) (by simp) (by simp)
    exact kept_of_threads hkept.threads rfl rfl rfl
  | skip hworker => exact kept_of_setWorker hworker (by simp) (by simp) (by simp)
  | @endTask i hworker hcall =>
    have hkept : Kept p (p.setWorker i .looping) :=
      kept_of_setWorker hworker (by simp) (by simp) (by simp)
    exact kept_of_threads hkept.threads rfl rfl rfl
  | spawn => exact kept_of_spawn
  | start => exact kept_of_threads (fun _ => Or.inl rfl) rfl rfl rfl
  | stop => exact kept_of_threads (fun _ => Or.inl rfl) rfl rfl rfl
  | control => exact kept_of_threads (fun _ => Or.inl rfl) rfl rfl rfl
  | _ => exact absurd trivial hwaits

end Stepped

theorem workers_set {threads : List (Worker τ)} {old worker : Worker τ}
    (h : ∀ j : Nat, WorkerInv c lock j threads[j]?) (hold : threads[i]? = some old)
    (hother : ∀ j, j ≠ i → (j ∈ c'.waiting ↔ j ∈ c.waiting) ∧ (j ∈ c'.signalled ↔ j ∈ c.signalled)
      ∧ (lock' = some j ↔ lock = some j))
    (hself : WorkerInv c' lock' i (some worker))
    : ∀ j : Nat, WorkerInv c' lock' j (threads.set i worker)[j]? := by
  intro j
  by_cases heq : i = j
  . rw [← heq, List.getElem?_set, if_pos rfl, if_pos]
    . exact hself
    . exact (List.getElem?_eq_some_iff.mp hold).1
  . rw [List.getElem?_set_ne heq]
    have ⟨hwaiting, hsignalled, hlock⟩ := hother j (Ne.symm heq)
    exact (h j).congr hwaiting hsignalled hlock

theorem WorkerInv.not_waiting (h : WorkerInv c lock i (some (Worker.taking : Worker τ)))
    : i ∉ c.waiting := by
  intro hi
  have := h.waiting hi
  simp at this

theorem Inv.leaveTake (hinv : Inv s) {i : Nat} (hlock : s.lock = none)
    (hworker : s.pool.threads[i]? = some .taking) {entry : Entry τ} {queue : List (Entry τ)}
    {notFull : Condition (Thread ι)} (hqueue : queue.length = s.pool.queue.length - 1)
    (hcaller : ∀ t, CallerInv notFull t (s.pool.calls t))
    (hbounded : notFull.waiting.Nonempty → 0 < s.pool.maxQueueSize)
    (hslots : notFull.Covers (s.pool.maxQueueSize - queue.length))
    : Inv {
        pool := { s.pool with queue := queue, threads := s.pool.threads.set i (.taken entry) }
        lock := s.lock
        notEmpty := s.notEmpty.back i
        notFull := notFull
      } where
  worker := by
    have htaking := hinv.worker i
    rw [hworker] at htaking
    apply workers_set hinv.worker hworker
    . intro j hne
      simp [hne]
    . have hnot := htaking.not_waiting
      constructor <;> simp [hnot, hlock, Condition.Knows]
  locked := by
    intro h
    exact absurd hlock h
  tasks := by
    dsimp only
    rw [hqueue]
    exact hinv.tasks.back i
  caller := hcaller
  bounded := hbounded
  slots := hslots

theorem Inv.waitNotEmpty (hinv : Inv s) {i : Nat} (hlock : s.lock = none)
    (hworker : s.pool.threads[i]? = some .taking) (hqueue : s.pool.queue = [])
    : Inv { s with
        pool := s.pool.setWorker i .waitingNotEmpty
        lock := some i
        notEmpty := s.notEmpty.back i } where
  worker := by
    have htaking := hinv.worker i
    rw [hworker] at htaking
    apply workers_set hinv.worker hworker
    . intro j hne
      simp [hne, Ne.symm hne, hlock]
    . constructor <;> simp
  locked := by
    intro _
    exact hqueue
  tasks := by
    dsimp only [ThreadPool.setWorker]
    rw [hqueue]
    exact Condition.covers_zero _
  caller := hinv.caller
  bounded := hinv.bounded
  slots := hinv.slots

theorem Inv.block (hinv : Inv s) {i : Nat} (hlock : s.lock = some i)
    : Inv { s with lock := none, notEmpty := s.notEmpty.wait i } where
  worker := by
    intro j
    have hj := hinv.worker j
    dsimp only
    by_cases heq : j = i
    . rw [heq] at hj ⊢
      have hworker := hj.locked hlock
      constructor <;> simp [hworker, Condition.Knows]
    . apply hj.congr
      . simp [heq]
      . simp [heq]
      . simp [hlock, Ne.symm heq]
  locked := by
    intro h
    contradiction
  tasks := by
    have hqueue := hinv.locked (by simp [hlock])
    dsimp only
    rw [hqueue]
    exact Condition.covers_zero _
  caller := hinv.caller
  bounded := hinv.bounded
  slots := hinv.slots

theorem Inv.wakeNotEmpty (hinv : Inv s) {i : Nat} (hlock : s.lock ≠ some i)
    (hworker : s.pool.threads[i]? = some .waitingNotEmpty)
    : Inv { s with pool := s.pool.setWorker i .taking, notEmpty := s.notEmpty.wake i } where
  worker := by
    apply workers_set hinv.worker hworker
    . intro j hne
      simp [hne]
    . constructor <;> simp [hlock]
  locked := hinv.locked
  tasks := hinv.tasks.wake i
  caller := hinv.caller
  bounded := hinv.bounded
  slots := hinv.slots

theorem Inv.notifyAll (hinv : Inv s) (hlock : s.lock = none)
    : Inv { s with notEmpty := s.notEmpty.notifyAll } where
  worker := by
    intro i
    have hi := hinv.worker i
    constructor
    . intro hmem
      simp at hmem
    . intro hmem
      rw [Condition.mem_signalled_notifyAll] at hmem
      cases hmem with
      | inl hwaiting => exact Or.inl (hi.waiting hwaiting)
      | inr hsignalled => exact hi.signalled hsignalled
    . intro heq
      have hknown := (hi.known heq).resolve_right (by simp [hlock])
      apply Or.inl
      apply Or.inr
      rw [Condition.mem_signalled_notifyAll]
      exact hknown
    . exact hi.locked
  locked := hinv.locked
  tasks := Condition.covers_notifyAll _ _
  caller := hinv.caller
  bounded := hinv.bounded
  slots := hinv.slots

variable [DecidableEq ι]

section Callers

variable {c c' : Condition (Thread ι)} {t : Thread ι} {call : Call τ}

theorem callers_update {calls : Thread ι → Call τ} (h : ∀ t, CallerInv c t (calls t))
    (hother : ∀ t', t' ≠ t → (t' ∈ c'.waiting ↔ t' ∈ c.waiting) ∧ (t' ∈ c'.signalled ↔ t' ∈ c.signalled))
    (hself : CallerInv c' t call) : ∀ t', CallerInv c' t' (Function.update calls t call t') := by
  intro t'
  by_cases heq : t' = t
  . rw [heq, Function.update_self]
    exact hself
  . rw [Function.update_of_ne heq]
    have ⟨hwaiting, hsignalled⟩ := hother t' heq
    exact (h t').congr hwaiting hsignalled

end Callers

theorem Inv.push (hinv : Inv s) {t : Thread ι} {context : TraceContext} {task : Option τ}
    {worker : Option Nat} {notEmpty : Condition Nat} (hlock : s.lock = none)
    (hcall : s.pool.calls t = .locking context task) (hnotify : s.notEmpty.notify worker = some notEmpty)
    : Inv { s with
        pool := s.pool.push t task
        notEmpty := notEmpty
        notFull := s.notFull.back t } where
  worker := by
    intro i
    exact (hinv.worker i).notify hnotify
  locked := by
    intro h
    exact absurd hlock h
  tasks := by
    dsimp only [ThreadPool.push, ThreadPool.setCall]
    rw [List.length_append, List.length_singleton]
    exact hinv.tasks.notify hnotify
  caller := by
    have hlocking := hinv.caller t
    rw [hcall] at hlocking
    have hnot := hlocking.not_waiting
    apply callers_update hinv.caller
    . intro t' hne
      simp [hne]
    . constructor <;> simp [hnot]
  bounded := hinv.bounded
  slots := by
    dsimp only [ThreadPool.push, ThreadPool.setCall]
    rw [List.length_append, List.length_singleton]
    exact hinv.slots.back t

theorem Inv.waitNotFull (hinv : Inv s) {t : Thread ι} {context : TraceContext} {task : Option τ}
    (hfull : s.pool.isFull)
    : Inv { s with
        pool := s.pool.setCall t (.waitingNotFull context task)
        notFull := s.notFull.wait t } where
  worker := hinv.worker
  locked := hinv.locked
  tasks := hinv.tasks
  caller := by
    apply callers_update hinv.caller
    . intro t' hne
      simp [hne]
    . constructor <;> simp [Condition.Knows]
  bounded := by
    intro _
    simp [ThreadPool.isFull] at hfull
    exact hfull.1
  slots := by
    simp [ThreadPool.isFull] at hfull
    have hfree : s.pool.maxQueueSize - s.pool.queue.length = 0 := by omega
    dsimp only [ThreadPool.setCall]
    rw [hfree]
    exact Condition.covers_zero _

theorem Inv.wakeNotFull (hinv : Inv s) {t : Thread ι} {context : TraceContext} {task : Option τ}
    : Inv { s with
        pool := s.pool.setCall t (.locking context task)
        notFull := s.notFull.wake t } where
  worker := hinv.worker
  locked := hinv.locked
  tasks := hinv.tasks
  caller := by
    apply callers_update hinv.caller
    . intro t' hne
      simp [hne]
    . constructor <;> simp
  bounded := by
    intro h
    exact hinv.bounded (h.mono (Finset.erase_subset t _))
  slots := hinv.slots.wake t

theorem Inv.notifyNotFull (hinv : Inv s) {t : Option (Thread ι)} {notFull : Condition (Thread ι)}
    (hnotify : s.notFull.notify t = some notFull)
    : (∀ t, CallerInv notFull t (s.pool.calls t))
        ∧ (notFull.waiting.Nonempty → 0 < s.pool.maxQueueSize) := by
  constructor
  . intro t'
    exact (hinv.caller t').notify hnotify
  . intro h
    have ⟨_, hwaiting, _⟩ := Condition.knows_of_notify hnotify
    exact hinv.bounded (h.mono hwaiting)

variable [DecidableEq τ]

theorem waitNotEmpty_guard {i : Nat} (h : p.step (.waitNotEmpty i) = some p')
    : p.queue = [] ∧ p.running := by
  dsimp only [ThreadPool.step] at h
  split at h
  . next hguard => exact hguard.2
  . contradiction

theorem waitNotFull_guard {t : Thread ι} (h : p.step (.waitNotFull t) = some p') : p.isFull := by
  dsimp only [ThreadPool.step] at h
  split at h
  . split at h
    . next hfull => exact hfull
    . contradiction
  . contradiction

theorem takeNothing_guard {i : Nat} (h : p.step (.takeNothing i) = some p') : p.queue = [] := by
  dsimp only [ThreadPool.step] at h
  split at h
  . next hguard => exact hguard.2.1
  . contradiction

inductive Moved (s : Monitor τ ι) : Label τ ι → Monitor τ ι → Prop
  | silent {label : ThreadPool.Label τ ι} {pool : ThreadPool τ ι}
      (hpool : s.pool.step label = some pool) (hwaits : ¬ Waits label)
      : Moved s (.pool label) { s with pool := pool }
  | waitNotFull {t : Thread ι} {pool : ThreadPool τ ι}
      (hpool : s.pool.step (.waitNotFull t) = some pool)
      : Moved s (.pool (.waitNotFull t)) { s with pool := pool, notFull := s.notFull.wait t }
  | wakeNotFull {t : Thread ι} {pool : ThreadPool τ ι}
      (hpool : s.pool.step (.wakeNotFull t) = some pool)
      : Moved s (.pool (.wakeNotFull t)) { s with pool := pool, notFull := s.notFull.wake t }
  | takeNothing {i : Nat} {pool : ThreadPool τ ι} (hpool : s.pool.step (.takeNothing i) = some pool)
      (hlock : s.lock = none)
      : Moved s (.pool (.takeNothing i)) { s with pool := pool, notEmpty := s.notEmpty.back i }
  | waitNotEmpty {i : Nat} {pool : ThreadPool τ ι} (hpool : s.pool.step (.waitNotEmpty i) = some pool)
      (hlock : s.lock = none) : Moved s (.pool (.waitNotEmpty i))
        { s with pool := pool, lock := some i, notEmpty := s.notEmpty.back i }
  | wakeNotEmpty {i : Nat} {pool : ThreadPool τ ι} (hpool : s.pool.step (.wakeNotEmpty i) = some pool)
      (hlock : s.lock ≠ some i)
      : Moved s (.pool (.wakeNotEmpty i)) { s with pool := pool, notEmpty := s.notEmpty.wake i }
  | push {t : Thread ι} {context : TraceContext} {task : Option τ} {worker : Option Nat}
      {pool : ThreadPool τ ι} {notEmpty : Condition Nat}
      (hpool : s.pool.step (.push t context task) = some pool)
      (hnotify : s.notEmpty.notify worker = some notEmpty) (hlock : s.lock = none)
      : Moved s (.push t context task worker)
        { s with pool := pool, notEmpty := notEmpty, notFull := s.notFull.back t }
  | take {i : Nat} {entry : Entry τ} {caller : Option (Thread ι)} {pool : ThreadPool τ ι}
      {notFull : Condition (Thread ι)} (hpool : s.pool.step (.take i entry) = some pool)
      (hnotify : s.notFull.notify caller = some notFull) (hlock : s.lock = none)
      : Moved s (.take i entry caller)
        { s with pool := pool, notEmpty := s.notEmpty.back i, notFull := notFull }
  | takeUnbounded {i : Nat} {entry : Entry τ} {caller : Option (Thread ι)} {pool : ThreadPool τ ι}
      (hpool : s.pool.step (.take i entry) = some pool) (hbound : pool.maxQueueSize = 0)
      (hlock : s.lock = none)
      : Moved s (.take i entry caller) { s with pool := pool, notEmpty := s.notEmpty.back i }
  | block {i : Nat} (hlock : s.lock = some i)
      : Moved s (.block i) { s with lock := none, notEmpty := s.notEmpty.wait i }
  | notifyAll {k : Nat} {pool : ThreadPool τ ι} (hpool : s.pool.step (.control k) = some pool)
      (hlock : s.lock = none)
      : Moved s (.notifyAll k) { s with pool := pool, notEmpty := s.notEmpty.notifyAll }

theorem moved_of_goOn {pool : ThreadPool τ ι} {label : ThreadPool.Label τ ι}
    (hpool : s.pool.step label = some pool) (h : s.goOn pool label = some s')
    : Moved s (.pool label) s' := by
  cases label with
  | push t context task => contradiction
  | take i entry => contradiction
  | control k =>
    dsimp only [Monitor.goOn] at h
    split at h
    . contradiction
    . injection h with h
      rw [← h]
      exact .silent hpool id
  | waitNotFull t =>
    dsimp only [Monitor.goOn] at h
    split at h
    . injection h with h
      rw [← h]
      exact .waitNotFull hpool
    . contradiction
  | wakeNotFull t =>
    injection h with h
    rw [← h]
    exact .wakeNotFull hpool
  | takeNothing i =>
    dsimp only [Monitor.goOn] at h
    split at h
    . next hlock =>
      injection h with h
      rw [← h]
      exact .takeNothing hpool hlock
    . contradiction
  | waitNotEmpty i =>
    dsimp only [Monitor.goOn] at h
    split at h
    . next hlock =>
      injection h with h
      rw [← h]
      exact .waitNotEmpty hpool hlock
    . contradiction
  | wakeNotEmpty i =>
    dsimp only [Monitor.goOn] at h
    split at h
    . contradiction
    . next hlock =>
      injection h with h
      rw [← h]
      exact .wakeNotEmpty hpool hlock
  | _ =>
    injection h with h
    rw [← h]
    exact .silent hpool id

theorem moved_of_push {t : Thread ι} {context : TraceContext} {task : Option τ} {worker : Option Nat}
    (hlock : s.lock = none) (h : s.push t context task worker = some s')
    : Moved s (.push t context task worker) s' := by
  unfold Monitor.push at h
  split at h
  . next pool notEmpty hpool hnotify =>
    injection h with h
    rw [← h]
    exact .push hpool hnotify hlock
  . contradiction

theorem moved_of_take {i : Nat} {entry : Entry τ} {caller : Option (Thread ι)} (hlock : s.lock = none)
    (h : s.take i entry caller = some s') : Moved s (.take i entry caller) s' := by
  unfold Monitor.take at h
  split at h
  . next pool hpool =>
    dsimp only at h
    split at h
    . split at h
      . next notFull hnotify =>
        injection h with h
        rw [← h]
        exact .take hpool hnotify hlock
      . contradiction
    . next hzero =>
      injection h with h
      rw [← h]
      exact .takeUnbounded hpool (Nat.eq_zero_of_not_pos hzero) hlock
  . contradiction

theorem moved_of_step {a : Label τ ι} (h : s.step a = some s') : Moved s a s' := by
  cases a with
  | pool label =>
    dsimp only [Monitor.step] at h
    split at h
    . next pool hpool => exact moved_of_goOn hpool h
    . contradiction
  | push t context task worker =>
    dsimp only [Monitor.step] at h
    split at h
    . next hlock => exact moved_of_push hlock h
    . contradiction
  | take i entry caller =>
    dsimp only [Monitor.step] at h
    split at h
    . next hlock => exact moved_of_take hlock h
    . contradiction
  | block i =>
    dsimp only [Monitor.step] at h
    split at h
    . next hlock =>
      injection h with h
      rw [← h]
      exact .block hlock
    . contradiction
  | notifyAll k =>
    dsimp only [Monitor.step] at h
    split at h
    . next hguard =>
      unfold Monitor.notifyAll at h
      split at h
      . next pool hpool =>
        injection h with h
        rw [← h]
        exact .notifyAll hpool hguard.1
      . contradiction
    . contradiction

theorem inv_step {a : Label τ ι} (hinv : Inv s) (h : s.step a = some s') : Inv s' := by
  cases moved_of_step h with
  | silent hpool hwaits => exact hinv.kept (kept_of_stepped (stepped_of_step hpool) hwaits)
  | waitNotFull hpool =>
    have hfull := waitNotFull_guard hpool
    cases stepped_of_step hpool with
    | waitNotFull hcall => exact hinv.waitNotFull hfull
  | wakeNotFull hpool =>
    cases stepped_of_step hpool with
    | wakeNotFull hcall => exact hinv.wakeNotFull
  | takeNothing hpool hlock =>
    have hqueue := takeNothing_guard hpool
    cases stepped_of_step hpool with
    | takeNothing hworker =>
      have hlength : s.pool.queue.length = s.pool.queue.length - 1 := by
        rw [hqueue]
        rfl
      exact hinv.leaveTake hlock hworker hlength hinv.caller hinv.bounded hinv.slots
  | waitNotEmpty hpool hlock =>
    have hqueue := (waitNotEmpty_guard hpool).1
    cases stepped_of_step hpool with
    | waitNotEmpty hworker => exact hinv.waitNotEmpty hlock hworker hqueue
  | wakeNotEmpty hpool hlock =>
    cases stepped_of_step hpool with
    | wakeNotEmpty hworker => exact hinv.wakeNotEmpty hlock hworker
  | push hpool hnotify hlock =>
    cases stepped_of_step hpool with
    | push hcall hfull => exact hinv.push hlock hcall hnotify
  | take hpool hnotify hlock =>
    cases stepped_of_step hpool with
    | @take _ _ rest hworker hqueue =>
      have hlength : rest.length = s.pool.queue.length - 1 := by
        rw [hqueue]
        simp
      have ⟨hcaller, hbounded⟩ := hinv.notifyNotFull hnotify
      apply hinv.leaveTake hlock hworker hlength hcaller hbounded
      apply (hinv.slots.notify hnotify).mono
      omega
  | takeUnbounded hpool hbound hlock =>
    cases stepped_of_step hpool with
    | @take _ _ rest hworker hqueue =>
      have hlength : rest.length = s.pool.queue.length - 1 := by
        rw [hqueue]
        simp
      apply hinv.leaveTake hlock hworker hlength hinv.caller hinv.bounded
      have hmax : s.pool.maxQueueSize = 0 := hbound
      rw [hmax, Nat.zero_sub]
      exact Condition.covers_zero _
  | block hlock => exact hinv.block hlock
  | notifyAll hpool hlock =>
    exact (hinv.kept (kept_of_stepped (stepped_of_step hpool) id)).notifyAll hlock

theorem inv_run {maxQueueSize : Nat} {as : List (Label τ ι)}
    (h : run (create maxQueueSize) as = some s) : Inv s := by
  apply Machine.run_invariant _ (inv_create maxQueueSize) h
  intro m a m' hm hstep
  exact inv_step hm hstep

def Label.toPool : Label τ ι → Option (ThreadPool.Label τ ι)
  | .pool label => some label
  | .push t context task _ => some (.push t context task)
  | .take i entry _ => some (.take i entry)
  | .block _ => none
  | .notifyAll k => some (.control k)

theorem pool_step {a : Label τ ι} (h : s.step a = some s')
    : ThreadPool.run s.pool a.toPool.toList = some s'.pool := by
  cases moved_of_step h with
  | block hlock => rfl
  | silent hpool | waitNotFull hpool | wakeNotFull hpool | takeNothing hpool | waitNotEmpty hpool
  | wakeNotEmpty hpool | push hpool | take hpool | takeUnbounded hpool | notifyAll hpool =>
    simp [Label.toPool, hpool]

theorem pool_run {maxQueueSize : Nat} {as : List (Label τ ι)}
    (h : run (create maxQueueSize) as = some s)
    : ThreadPool.run (init maxQueueSize) (as.filterMap Label.toPool) = some s.pool := by
  apply Machine.run_simulates Label.toPool Monitor.pool _ h
  intro m a m' hstep
  exact pool_step hstep

def NobodyWaits (s : Monitor τ ι) : Prop := s.lock = none ∧ s.notEmpty.waiting = ∅

theorem nobodyWaits_step {a : Label τ ι} (h : NobodyWaits s) (hrunning : s.pool.running = false)
    (hstep : s.step a = some s') : NobodyWaits s' := by
  have ⟨hlock, hwaiting⟩ := h
  cases moved_of_step hstep with
  | waitNotEmpty hpool =>
    have hguard := (waitNotEmpty_guard hpool).2
    rw [hrunning] at hguard
    contradiction
  | wakeNotEmpty hpool =>
    refine ⟨hlock, ?_⟩
    dsimp only [Condition.wake]
    rw [hwaiting, Finset.erase_empty]
  | push hpool hnotify =>
    have ⟨_, hsubset, _⟩ := Condition.knows_of_notify hnotify
    rw [hwaiting] at hsubset
    exact ⟨hlock, Finset.subset_empty.mp hsubset⟩
  | block hblock =>
    rw [hlock] at hblock
    contradiction
  | notifyAll hpool => exact ⟨hlock, rfl⟩
  | silent | waitNotFull | wakeNotFull | takeNothing | take | takeUnbounded => exact h

theorem nobodyWaits_of_notifyAll {k : Nat} (hstep : s.step (.notifyAll k) = some s')
    : NobodyWaits s' := by
  cases moved_of_step hstep with
  | notifyAll hpool hlock => exact ⟨hlock, rfl⟩

def Stopped (maxQueueSize : Nat) (as : List (Label τ ι)) : Prop :=
  ∃ (bs : List (Label τ ι)) (k : Nat) (cs : List (Label τ ι)), as = bs ++ .notifyAll k :: cs ∧
    ∀ ds es m, cs = ds ++ es →
    run (create maxQueueSize) (bs ++ .notifyAll k :: ds) = some m → m.pool.running = false

theorem nobodyWaits_run {maxQueueSize : Nat} {as : List (Label τ ι)}
    (h : run (create maxQueueSize) as = some s) (hstopped : Stopped maxQueueSize as)
    : NobodyWaits s := by
  have ⟨bs, k, cs, heq, hrunning⟩ := hstopped
  rw [heq, run, Machine.run_append_cons_eq_some] at h
  have ⟨m, m', hm, hnotify, hrun⟩ := h
  have hfalse : ∀ ds es n, cs = ds ++ es → run m' ds = some n → n.pool.running = false := by
    intro ds es n hcs hn
    apply hrunning ds es n hcs
    rw [run, Machine.run_append_cons_eq_some]
    exact ⟨m, m', hm, hnotify, hn⟩
  suffices hall : ∀ es, cs = cs ++ es → NobodyWaits s from hall [] (List.append_nil _).symm
  apply Machine.run_induction (P := fun ds n => ∀ es, cs = ds ++ es → NobodyWaits n) _ _ hrun
  . intro es _
    exact nobodyWaits_of_notifyAll hnotify
  . intro ds n a n' hn hnobody hstep es hcs
    rw [List.append_assoc] at hcs
    exact nobodyWaits_step (hnobody _ hcs) (hfalse ds _ n hcs hn) hstep

structure NoStuckThreads (maxQueueSize : Nat) (as : List (Label τ ι)) (s : Monitor τ ι) : Prop where
  signalled_workers : ∀ i ∈ s.notEmpty.signalled,
    s.pool.threads[i]? = some .waitingNotEmpty ∨ s.pool.threads[i]? = some .taking
  signalled_callers : ∀ t ∈ s.notFull.signalled, ∃ context task,
    s.pool.calls t = .waitingNotFull context task ∨ s.pool.calls t = .locking context task
  tasks : ∀ i : Nat, s.pool.threads[i]? = some .waitingNotEmpty → i ∉ s.notEmpty.signalled →
    s.pool.queue.length ≤ s.notEmpty.signalled.card
  slots : ∀ t context task, s.pool.calls t = .waitingNotFull context task →
    t ∉ s.notFull.signalled → maxQueueSize - s.pool.queue.length ≤ s.notFull.signalled.card
  stopped : Stopped maxQueueSize as → ∀ i : Nat, s.pool.threads[i]? = some .waitingNotEmpty →
    i ∈ s.notEmpty.signalled

theorem noStuckThreads {maxQueueSize : Nat} {as : List (Label τ ι)}
    (h : run (create maxQueueSize) as = some s) : NoStuckThreads maxQueueSize as s := by
  have hinv := inv_run h
  have hmax := maxQueueSize_of_run (pool_run h)
  constructor
  . intro i hi
    exact (hinv.worker i).signalled hi
  . intro t ht
    exact (hinv.caller t).signalled ht
  . intro i hworker hnot
    cases (hinv.worker i).known hworker with
    | inl hknown =>
      apply hinv.tasks
      exact ⟨i, hknown.resolve_right hnot⟩
    | inr hlock =>
      rw [hinv.locked (by simp [hlock])]
      apply Nat.zero_le
  . intro t context task hcall hnot
    have hknown := (hinv.caller t).known context task hcall
    rw [← hmax]
    apply hinv.slots
    exact ⟨t, hknown.resolve_right hnot⟩
  . intro hstopped i hworker
    have ⟨hlock, hwaiting⟩ := nobodyWaits_run h hstopped
    have hknown := ((hinv.worker i).known hworker).resolve_right (by simp [hlock])
    apply hknown.resolve_left
    rw [hwaiting]
    exact Finset.notMem_empty i

-- A caller of `Run` waits for room, the worker that has the task that fills the queue is on its way.
theorem noStuckThreads_full
    : ∃ as s, run (create 1 : Monitor Nat Unit) as = some s ∧ NoStuckThreads 1 as s
        ∧ s.notFull.waiting = {.other ()} ∧ s.notEmpty.signalled = {0} := by
  refine ⟨[.pool (.start 1), .pool (.control 0), .pool (.control 0), .pool (.control 0),
    .pool (.iterate 0), .pool (.waitNotEmpty 0), .block 0, .pool (.run (.other ()) (0, 0) (some 1)),
    .push (.other ()) (0, 0) (some 1) (some 0), .pool (.run (.other ()) (0, 0) (some 2)),
    .pool (.waitNotFull (.other ())), .pool .stop, .pool (.control 0), .notifyAll 0], _, rfl, ?_,
    by decide, by decide⟩
  exact noStuckThreads rfl

-- What `Stop` promises without regard to a `Start` that comes after it
def ReleasesWorkers (as : List (Label τ ι)) (s : Monitor τ ι) : Prop :=
  ∀ k, .notifyAll k ∈ as → ∀ i : Nat, s.pool.threads[i]? = some .waitingNotEmpty →
    i ∈ s.notEmpty.signalled

-- While `Stop` joins the worker, `Start(0)` sets `running_` again: the worker waits once more.
theorem not_releasesWorkers
    : ∃ as s, run (create 0 : Monitor Nat Unit) as = some s ∧ ¬ ReleasesWorkers as s := by
  refine ⟨[.pool (.start 1), .pool (.control 0), .pool (.control 0), .pool (.control 0),
    .pool (.iterate 0), .pool (.waitNotEmpty 0), .block 0, .pool .stop, .pool (.control 0), .notifyAll 0,
    .pool (.start 0), .pool (.control 1), .pool (.wakeNotEmpty 0), .pool (.waitNotEmpty 0), .block 0],
    _, rfl, ?_⟩
  intro h
  have := h 0 (by simp) 0 rfl
  contradiction

end Monitor
end ThreadPool
end Claire
