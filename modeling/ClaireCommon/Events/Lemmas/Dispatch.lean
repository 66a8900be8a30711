import Mathlib.Data.List.Induction
import Mathlib.Data.List.Nodup
import ClaireCommon.Lib.Machine
import ClaireCommon.Events.Impl.Dispatch
import ClaireCommon.Events.Lemmas.EPollPoller

/-!
This module contains that every event the kernel reports reaches the callbacks of its channel once, in the
order of the priorities, and that the loop never calls a channel that has been removed.
-/

namespace Claire
namespace EventLoop
namespace Dispatch

open EPollPoller (EPollEvent EventMask KernelReports IsDelivered)

variable {χ : Type} {fd : χ → Nat} {d d' : Dispatch χ} {a : Label χ} {c : χ}

theorem map_fd_of_delivered {p p' : EPollPoller χ} {events : List EPollEvent} {cs : List χ}
    (h : List.Forall₂ (IsDelivered fd p p') events cs) : cs.map fd = events.map EPollEvent.data := by
  induction h with
  | nil => rfl
  | cons hc _ ih => rw [List.map_cons, List.map_cons, ih, hc.fd_eq]

theorem forall_delivered {p p' : EPollPoller χ} {events : List EPollEvent} {cs : List χ}
    (h : List.Forall₂ (IsDelivered fd p p') events cs)
    : ∀ c ∈ cs, ∃ event ∈ events, IsDelivered fd p p' event c := by
  intro c hc
  induction h with
  | nil => contradiction
  | cons hd _ ih =>
    cases hc with
    | head => exact ⟨_, List.mem_cons_self, hd⟩
    | tail _ hc =>
      have ⟨event, hevent, hdelivered⟩ := ih hc
      exact ⟨event, List.mem_cons_of_mem _ hevent, hdelivered⟩

structure Delivered (fd : χ → Nat) (p p' : EPollPoller χ) (events : List EPollEvent) (cs : List χ)
    : Prop where
  polled : EPollPoller.Polled p p'
  map_fd : cs.map fd = events.map EPollEvent.data
  nodup : (events.map EPollEvent.data).Nodup
  delivered : ∀ c ∈ cs, ∃ event ∈ events, IsDelivered fd p p' event c

theorem Delivered.context_ne {p p' : EPollPoller χ} {events : List EPollEvent} {cs : List χ}
    (h : Delivered fd p p' events cs) : ∀ c ∈ cs, (p'.channel c).context ≠ .kNew := by
  intro c hc
  have ⟨event, _, hdelivered⟩ := h.delivered c hc
  rw [h.polled.context_eq, hdelivered.context]
  decide

theorem nextContext_ne_kNew (context : EPollPoller.Channel.Context) (events : EventMask)
    : EPollPoller.nextContext context events ≠ .kNew := by
  unfold EPollPoller.nextContext
  split <;> simp

def updated? : EPollPoller.Label χ → Option χ
  | .enableReading c | .enableWriting c | .disableReading c | .disableWriting c | .disableAll c => some c
  | .remove _ | .poll _ => none

def MayRemove (d : Dispatch χ) (c : χ) : Prop :=
  d.currentActiveChannel = none ∨ d.currentActiveChannel = some c ∨ c ∉ d.activeChannels

theorem ofPoller_eq_next {result : Except EPollPoller.Stop (EPollPoller χ)}
    (h : Outcome.ofPoller d result = .next d')
    : ∃ poller, result = .ok poller ∧ d' = { d with poller := poller } := by
  cases result with
  | ok poller =>
    injection h with h
    exact ⟨poller, rfl, h.symm⟩
  | error reason => contradiction

variable [DecidableEq χ]

inductive Stepped (fd : χ → Nat) (d : Dispatch χ) : Label χ → Dispatch χ → Prop
  | poll {result : Except EPollPoller.Epoll.Errno (List EPollEvent)} {poller : EPollPoller χ}
    {activeChannels sorted : List χ} (hphase : d.phase = .outside)
    (hpoll : d.poller.poll false fd result = .ok (poller, activeChannels))
    (hperm : sorted.Perm activeChannels)
    (hsorted : d.IsSorted sorted)
    : Stepped fd d (.poll result sorted)
        { d with poller := poller, activeChannels := sorted, rest := sorted, phase := .next }
  | visit {c : χ} {guard : Bool} {rest : List χ} (hphase : d.phase = .next) (hrest : d.rest = c :: rest)
    : Stepped fd d (.visit c guard) (d.visit c guard rest)
  | begin_ {c : χ} {callback : Callback} {left : List Callback}
    (hphase : d.phase = .onEvent (callback :: left))
    (hcurrent : d.currentActiveChannel = some c) (htakes : d.takes c callback)
    : Stepped fd d (.begin_ c callback) { d with phase := .inCallback left }
  | skip {callback : Callback} {left : List Callback} (hphase : d.phase = .onEvent (callback :: left))
    (htakes : ∀ c, d.currentActiveChannel = some c → d.takes c callback = false)
    : Stepped fd d .skip { d with phase := .onEvent left }
  | end_ {left : List Callback} (hphase : d.phase = .inCallback left)
    : Stepped fd d .end_ { d with phase := .onEvent left }
  | leave {c : χ} (hphase : d.phase = .onEvent []) (hcurrent : d.currentActiveChannel = some c)
    : Stepped fd d .leave
        { d with phase := .next, eventHandling := Function.update d.eventHandling c false }
  | done (hphase : d.phase = .next) (hrest : d.rest = [])
    : Stepped fd d .done { d with currentActiveChannel := none, phase := .outside }
  | op {label : EPollPoller.Label χ} {c : χ} {poller : EPollPoller χ} (hcall : d.mayCall)
    (hlabel : updated? label = some c) (hstep : d.poller.step false fd label = .ok poller)
    : Stepped fd d (.op label) { d with poller := poller }
  | remove {c : χ} {poller : EPollPoller χ} (hcall : d.mayCall) (hremove : d.MayRemove c)
    (hstep : d.poller.step false fd (.remove c) = .ok poller)
    : Stepped fd d (.remove c) { d with poller := poller }
  | setPriority {c : χ} {priority : Priority} (hcall : d.mayCall)
    : Stepped fd d (.setPriority c priority) { d with priority := Function.update d.priority c priority }
  | setCallback {c : χ} {callback : Callback} {isSet : Bool} (hcall : d.mayCall)
    : Stepped fd d (.setCallback c callback isSet)
        { d with callback := Function.update d.callback c (Function.update (d.callback c) callback isSet) }
  | tie {c : χ} (hcall : d.mayCall)
    : Stepped fd d (.tie c) { d with tied := Function.update d.tied c true }
  | destroy {c : χ} (hcall : d.mayCall) (hhandling : d.eventHandling c = false)
    : Stepped fd d (.destroy c) d

theorem stepped_of_call (hcall : d.mayCall) (h : d.stepCall fd a = .next d') : Stepped fd d a d' := by
  cases a with
  | op label =>
    cases label with
    | remove c => contradiction
    | poll result => contradiction
    | _ =>
      have ⟨poller, hstep, hd'⟩ := ofPoller_eq_next h
      rw [hd']
      exact .op hcall rfl hstep
  | remove c =>
    dsimp only [stepCall, removeChannel] at h
    split at h
    . next hremove =>
      have ⟨poller, hstep, hd'⟩ := ofPoller_eq_next h
      rw [hd']
      exact .remove hcall hremove hstep
    . contradiction
  | setPriority c priority =>
    injection h with h
    rw [← h]
    exact .setPriority hcall
  | setCallback c callback isSet =>
    injection h with h
    rw [← h]
    exact .setCallback hcall
  | tie c =>
    injection h with h
    rw [← h]
    exact .tie hcall
  | destroy c =>
    dsimp only [stepCall] at h
    split at h
    . contradiction
    . next hhandling =>
      injection h with h
      rw [← h]
      exact .destroy hcall (Bool.eq_false_iff.mpr hhandling)
  | _ => contradiction

theorem stepped_of_loop (h : d.stepLoop fd a = .next d') : Stepped fd d a d' := by
  unfold stepLoop at h
  split at h
  . next result sorted hphase =>
    unfold poll at h
    split at h
    . contradiction
    . next poller activeChannels hpoll =>
      split at h
      . next hsorted =>
        injection h with h
        rw [← h]
        exact .poll hphase hpoll hsorted.1 hsorted.2
      . contradiction
  . next c guard hphase =>
    split at h
    . contradiction
    . next c' rest hrest =>
      split at h
      . next heq =>
        injection h with h
        subst heq
        rw [← h]
        exact .visit hphase hrest
      . contradiction
  . next hphase =>
    split at h
    . next hrest =>
      injection h with h
      rw [← h]
      exact .done hphase hrest
    . contradiction
  . next callback left c callback' hphase =>
    split at h
    . next hbegin =>
      obtain ⟨hcurrent, heq, htakes⟩ := hbegin
      subst heq
      injection h with h
      rw [← h]
      exact .begin_ hphase hcurrent htakes
    . contradiction
  . next callback left hphase =>
    split at h
    . next hskip =>
      injection h with h
      rw [← h]
      apply Stepped.skip hphase
      intro c hcurrent
      rw [hcurrent] at hskip
      simpa using hskip
    . contradiction
  . next hphase =>
    split at h
    . next c hcurrent =>
      injection h with h
      rw [← h]
      exact .leave hphase hcurrent
    . contradiction
  . next left hphase =>
    injection h with h
    rw [← h]
    exact .end_ hphase
  . contradiction

theorem stepped_of_step (h : d.step fd a = .next d') : Stepped fd d a d' := by
  unfold step at h
  split at h
  case h_7 => exact stepped_of_loop h
  all_goals
    split at h
    . next hcall => exact stepped_of_call hcall h
    . contradiction

def Label.poller? : Label χ → Option (EPollPoller.Label χ)
  | poll result _ => some (.poll result)
  | op label => some label
  | remove c => some (.remove c)
  | _ => none

def Label.used? : Label χ → Option χ
  | op label => updated? label
  | remove c | setPriority c _ | setCallback c .. | tie c | destroy c => some c
  | _ => none

def Label.calls : Label χ → Bool
  | op _ | remove _ | setPriority .. | setCallback .. | tie _ | destroy _ => true
  | poll .. | visit .. | begin_ .. | skip | end_ | leave | done => false

-- What user code and the kernel promise for a step after the steps `as`, a `Remove` is up to the DCHECKs
structure Permitted (fd : χ → Nat) (as : List (Label χ)) (d : Dispatch χ) (a : Label χ) : Prop where
  poller : ∀ label, a.poller? = some label → (∀ c, label ≠ .remove c) →
      EPollPoller.Permitted fd (as.filterMap Label.poller?) d.poller label
  alive : ∀ c, a.used? = some c → .destroy c ∉ as
  removed : ∀ c, a = .destroy c → (d.poller.channel c).context = .kNew

inductive Runs (fd : χ → Nat) : List (Label χ) → Dispatch χ → Prop
  | init : Runs fd [] init
  | step {as : List (Label χ)} {d d' : Dispatch χ} {a : Label χ} (hrun : Runs fd as d)
      (hpermitted : Permitted fd as d a) (hstep : d.step fd a = .next d') : Runs fd (as ++ [a]) d'

def Phase.inside : Phase → Bool
  | outside | next => false
  | onEvent _ | inCallback _ => true

structure Inv (d : Dispatch χ) : Prop where
  suffix : d.rest <:+ d.activeChannels
  nodup : d.activeChannels.Nodup
  registered : ∀ c ∈ d.rest, (d.poller.channel c).context ≠ .kNew
  outside : d.phase = .outside → d.currentActiveChannel = none ∧ d.rest = []
  inside : d.phase.inside → ∃ c, d.currentActiveChannel = some c
  current : ∀ c, d.currentActiveChannel = some c → c ∈ d.activeChannels ∧ c ∉ d.rest
  handling : ∀ c, d.eventHandling c ↔ d.phase.inside ∧ d.currentActiveChannel = some c

structure RunInv (fd : χ → Nat) (as : List (Label χ)) (d : Dispatch χ) : Prop where
  poller : EPollPoller.RunInv fd (as.filterMap Label.poller?) d.poller
  inv : d.Inv
  destroyed : ∀ c, .destroy c ∈ as →
      (d.poller.channel c).context = .kNew ∧ d.eventHandling c = false

theorem Permitted.of_step {as : List (Label χ)} {label : EPollPoller.Label χ} {poller : EPollPoller χ}
    (h : Permitted fd as d a) (hlabel : a.poller? = some label)
    (hstep : d.poller.step false fd label = .ok poller)
    : EPollPoller.Permitted fd (as.filterMap Label.poller?) d.poller label := by
  cases label with
  | remove c => exact EPollPoller.mayRemove_of_removeChannel hstep
  | _ => exact h.poller _ hlabel (by simp)

omit [DecidableEq χ] in
theorem permitted_of_loop {as : List (Label χ)} (hcalls : a.calls = false) (hpoller : a.poller? = none)
    : Permitted fd as d a where
  poller := by
    intro label hlabel _
    rw [hpoller] at hlabel
    contradiction
  alive := by
    intro c hc
    cases a <;> simp_all [Label.calls, Label.used?]
  removed := by
    intro c ha
    rw [ha] at hcalls
    contradiction

omit [DecidableEq χ] in
theorem permitted_poll {as : List (Label χ)} {sorted : List χ} {event registered : EPollEvent}
    (hepoll : d.poller.epoll event.data = some registered) (hdata : event.data = registered.data)
    (hsize : 0 < d.poller.eventsSize) : Permitted fd as d (.poll (.ok [event]) sorted) where
  poller := by
    intro label hlabel _
    injection hlabel with hlabel
    subst hlabel
    refine ⟨?_, List.nodup_singleton _, hsize⟩
    intro event' hevent'
    rw [List.mem_singleton.mp hevent']
    exact ⟨event.data, registered, hepoll, hdata⟩
  alive := by simp [Label.used?]
  removed := by simp

omit [DecidableEq χ] in
theorem permitted_enableReading (hfits : fd c < 2 * d.poller.channels.length)
    : Permitted fd [] d (.op (.enableReading c)) where
  poller := by
    intro label hlabel _
    injection hlabel with hlabel
    subst hlabel
    exact fun _ => hfits
  alive := fun _ _ => List.not_mem_nil
  removed := by simp

theorem effect_of_update {as : List (EPollPoller.Label χ)} {p p' : EPollPoller χ}
    {label : EPollPoller.Label χ} (h : EPollPoller.RunInv fd as p)
    (hpermitted : EPollPoller.Permitted fd as p label) (hlabel : updated? label = some c)
    (hstep : p.step false fd label = .ok p')
    : ∃ channel, EPollPoller.Effect fd p p' c channel ∧ channel.revents = (p.channel c).revents ∧
        channel.context ≠ .kNew := by
  have hupdate : ∀ events, ((∀ a ∈ as, a.channel? ≠ some c) → fd c < 2 * p.channels.length) →
      p.updateEvents false fd c events = .ok p' →
      ∃ channel, EPollPoller.Effect fd p p' c channel ∧ channel.revents = (p.channel c).revents ∧
        channel.context ≠ .kNew := by
    intro events hfits hok
    have hfits := h.fits_of_permitted hfits
    have ⟨q, hq, _, heffect⟩ := EPollPoller.updateEvents_spec false h.inv (fun _ => hfits) events
    rw [hok] at hq
    injection hq with hq
    rw [hq]
    exact ⟨_, heffect, rfl, nextContext_ne_kNew _ _⟩
  cases label with
  | remove c => contradiction
  | poll result => contradiction
  | _ =>
    injection hlabel with hlabel
    subst hlabel
    exact hupdate _ hpermitted hstep

theorem effect_of_remove {as : List (EPollPoller.Label χ)} {p p' : EPollPoller χ}
    (h : EPollPoller.RunInv fd as p) (hstep : p.step false fd (.remove c) = .ok p')
    : EPollPoller.Effect fd p p' c { p.channel c with context := .kNew } := by
  have hstep : p.removeChannel false fd c = .ok p' := hstep
  have ⟨q, hq, _, heffect⟩ :=
    EPollPoller.removeChannel_spec false h.inv (EPollPoller.mayRemove_of_removeChannel hstep)
  rw [hstep] at hq
  injection hq with hq
  rw [hq]
  exact heffect

def eventsOf : Except EPollPoller.Epoll.Errno (List EPollEvent) → List EPollEvent
  | .ok events => events
  | .error _ => []

theorem delivered_of_poll {as : List (EPollPoller.Label χ)} {p p' : EPollPoller χ}
    {result : Except EPollPoller.Epoll.Errno (List EPollEvent)} {cs : List χ}
    (h : EPollPoller.RunInv fd as p) (hpermitted : EPollPoller.Permitted fd as p (.poll result))
    (hpoll : p.poll false fd result = .ok (p', cs)) : Delivered fd p p' (eventsOf result) cs := by
  cases result with
  | ok events =>
    have ⟨q, qs, hq, hpolled, hdelivered⟩ := EPollPoller.poll_spec false h.inv hpermitted
    rw [hpoll] at hq
    injection hq with hq
    injection hq with hp hcs
    rw [hp, hcs]
    exact ⟨hpolled, map_fd_of_delivered hdelivered, hpermitted.nodup, forall_delivered hdelivered⟩
  | error errno =>
    have heintr : errno = .eintr := hpermitted
    rw [heintr] at hpoll
    injection hpoll with hpoll
    injection hpoll with hp hcs
    rw [← hp, ← hcs]
    exact ⟨.refl p, rfl, List.nodup_nil, fun _ hc => absurd hc List.not_mem_nil⟩

structure Called (d d' : Dispatch χ) : Prop where
  phase_eq : d'.phase = d.phase
  rest_eq : d'.rest = d.rest
  activeChannels_eq : d'.activeChannels = d.activeChannels
  current_eq : d'.currentActiveChannel = d.currentActiveChannel
  handling_eq : d'.eventHandling = d.eventHandling
  revents_eq : ∀ c, (d'.poller.channel c).revents = (d.poller.channel c).revents
  registered : ∀ c ∈ d.rest, (d.poller.channel c).context ≠ .kNew →
      (d'.poller.channel c).context ≠ .kNew

omit [DecidableEq χ] in
theorem Called.refl (d : Dispatch χ) : Called d d := ⟨rfl, rfl, rfl, rfl, rfl, fun _ => rfl, fun _ _ h => h⟩

omit [DecidableEq χ] in
theorem Called.inv (h : Called d d') (hinv : d.Inv) : d'.Inv where
  suffix := by
    rw [h.rest_eq, h.activeChannels_eq]
    exact hinv.suffix
  nodup := by
    rw [h.activeChannels_eq]
    exact hinv.nodup
  registered := by
    intro c hc
    rw [h.rest_eq] at hc
    exact h.registered c hc (hinv.registered c hc)
  outside := by
    rw [h.phase_eq, h.rest_eq, h.current_eq]
    exact hinv.outside
  inside := by
    rw [h.phase_eq, h.current_eq]
    exact hinv.inside
  current := by
    rw [h.current_eq, h.activeChannels_eq, h.rest_eq]
    exact hinv.current
  handling := by
    rw [h.handling_eq, h.phase_eq, h.current_eq]
    exact hinv.handling

theorem called_of_effect {poller : EPollPoller χ} {channel : EPollPoller.Channel}
    (h : EPollPoller.Effect fd d.poller poller c channel)
    (hrevents : channel.revents = (d.poller.channel c).revents)
    (hcontext : c ∈ d.rest → channel.context ≠ .kNew) : Called d { d with poller := poller } where
  phase_eq := rfl
  rest_eq := rfl
  activeChannels_eq := rfl
  current_eq := rfl
  handling_eq := rfl
  revents_eq := by
    intro c'
    rw [h.channel_eq]
    by_cases heq : c' = c
    . rw [heq, Function.update_self, hrevents]
    . rw [Function.update_of_ne heq]
  registered := by
    intro c' hc' hregistered
    rw [h.channel_eq]
    by_cases heq : c' = c
    . subst heq
      rw [Function.update_self]
      exact hcontext hc'
    . rw [Function.update_of_ne heq]
      exact hregistered

omit [DecidableEq χ] in
theorem Inv.not_mem_rest (hinv : d.Inv) (hcall : d.mayCall) (hremove : d.MayRemove c) : c ∉ d.rest := by
  rcases hremove with hnone | hcurrent | hmem
  . have houtside : d.phase = .outside := by
      unfold mayCall at hcall
      split at hcall
      . next hphase => exact hphase
      . next left hphase =>
        have ⟨c', hc'⟩ := hinv.inside (by rw [hphase]; rfl)
        rw [hnone] at hc'
        contradiction
      . contradiction
      . contradiction
    rw [(hinv.outside houtside).2]
    exact List.not_mem_nil
  . exact (hinv.current c hcurrent).2
  . intro hrest
    exact hmem (hinv.suffix.subset hrest)

theorem RunInv.called {as : List (Label χ)} (h : RunInv fd as d) (hpermitted : Permitted fd as d a)
    (hcalls : a.calls) (hstep : Stepped fd d a d') : Called d d' := by
  cases hstep with
  | op hcall hlabel hstep =>
    have ⟨channel, heffect, hrevents, hcontext⟩ :=
      effect_of_update h.poller (hpermitted.of_step rfl hstep) hlabel hstep
    exact called_of_effect heffect hrevents (fun _ => hcontext)
  | remove hcall hremove hstep =>
    have heffect := effect_of_remove h.poller hstep
    exact called_of_effect heffect rfl (fun hc => absurd hc (h.inv.not_mem_rest hcall hremove))
  | setPriority hcall => exact { Called.refl d with }
  | setCallback hcall => exact { Called.refl d with }
  | tie hcall => exact { Called.refl d with }
  | destroy hcall hhandling => exact .refl d
  | _ => contradiction

omit [DecidableEq χ] in
theorem inv_init : (init : Dispatch χ).Inv where
  suffix := List.nil_suffix
  nodup := List.nodup_nil
  registered := fun _ hc => absurd hc List.not_mem_nil
  outside := fun _ => ⟨rfl, rfl⟩
  inside := fun h => absurd h Bool.false_ne_true
  current := fun _ h => absurd h.symm (Option.some_ne_none _)
  handling := by
    intro c
    simp [init]

theorem Inv.visit (hinv : d.Inv) {guard : Bool} {rest : List χ} (hphase : d.phase = .next)
    (hrest : d.rest = c :: rest) : (d.visit c guard rest).Inv := by
  have hsuffix : rest <:+ d.activeChannels := by
    apply List.IsSuffix.trans _ hinv.suffix
    rw [hrest]
    exact List.suffix_cons c rest
  have hmem : c ∈ d.activeChannels := hinv.suffix.subset (hrest ▸ List.mem_cons_self)
  have hnot : c ∉ rest := by
    have hnodup := hinv.nodup.sublist hinv.suffix.sublist
    rw [hrest] at hnodup
    exact (List.nodup_cons.mp hnodup).1
  have hregistered : ∀ c ∈ rest, (d.poller.channel c).context ≠ .kNew := by
    intro c' hc'
    exact hinv.registered c' (hrest ▸ List.mem_cons_of_mem _ hc')
  have hnobody : ∀ c', d.eventHandling c' = false := by
    intro c'
    have := (hinv.handling c').not
    rw [hphase] at this
    simpa [Phase.inside] using this
  have hcurrent : ∀ c', some c = some c' → c' ∈ d.activeChannels ∧ c' ∉ rest := by
    intro c' heq
    injection heq with heq
    exact heq ▸ ⟨hmem, hnot⟩
  dsimp only [Dispatch.visit]
  split
  . refine ⟨hsuffix, hinv.nodup, hregistered, ?_, ?_, hcurrent, ?_⟩
    . intro houtside
      simp [hphase] at houtside
    . intro hinside
      simp [hphase, Phase.inside] at hinside
    . intro c'
      simp [hnobody, hphase, Phase.inside]
  . refine ⟨hsuffix, hinv.nodup, hregistered, ?_, fun _ => ⟨c, rfl⟩, hcurrent, ?_⟩
    . intro houtside
      contradiction
    . intro c'
      by_cases heq : c' = c
      . simp [heq, Phase.inside]
      . simp [Function.update_of_ne heq, hnobody, Ne.symm heq]

theorem Inv.leave (hinv : d.Inv) (hcurrent : d.currentActiveChannel = some c)
    : { d with phase := .next, eventHandling := Function.update d.eventHandling c false }.Inv := by
  refine { hinv with outside := ?_, inside := ?_, handling := ?_ }
  . intro h
    contradiction
  . intro h
    contradiction
  . intro c'
    by_cases heq : c' = c
    . simp [heq, Phase.inside]
    . have := hinv.handling c'
      rw [hcurrent] at this
      simpa [Function.update_of_ne heq, Ne.symm heq, Phase.inside] using this

omit [DecidableEq χ] in
theorem Inv.inside_of_inside (hinv : d.Inv) {phase : Phase} (h : d.phase.inside) (h' : phase.inside)
    : { d with phase := phase }.Inv := by
  refine { hinv with outside := ?_, inside := ?_, handling := ?_ }
  . intro houtside
    have houtside : phase = .outside := houtside
    rw [houtside] at h'
    contradiction
  . intro _
    exact hinv.inside h
  . intro c
    rw [hinv.handling c]
    simp [h, h']

omit [DecidableEq χ] in
theorem Inv.done (hinv : d.Inv) (hphase : d.phase = .next) (hrest : d.rest = [])
    : { d with currentActiveChannel := none, phase := .outside }.Inv where
  suffix := hinv.suffix
  nodup := hinv.nodup
  registered := hinv.registered
  outside := fun _ => ⟨rfl, hrest⟩
  inside := fun h => absurd h Bool.false_ne_true
  current := fun _ h => absurd h.symm (Option.some_ne_none _)
  handling := by
    intro c
    have := hinv.handling c
    rw [hphase] at this
    simpa [Phase.inside] using this

omit [DecidableEq χ] in
theorem Inv.poll (hinv : d.Inv) (hphase : d.phase = .outside) {poller : EPollPoller χ}
    {events : List EPollEvent} {activeChannels sorted : List χ}
    (hdelivered : Delivered fd d.poller poller events activeChannels) (hperm : sorted.Perm activeChannels)
    : { d with poller := poller, activeChannels := sorted, rest := sorted, phase := .next }.Inv where
  suffix := List.suffix_refl _
  nodup := by
    apply hperm.nodup_iff.mpr
    apply List.Nodup.of_map fd
    rw [hdelivered.map_fd]
    exact hdelivered.nodup
  registered := fun c hc => hdelivered.context_ne c (hperm.mem_iff.mp hc)
  outside := fun h => by contradiction
  inside := fun h => absurd h Bool.false_ne_true
  current := by
    intro c hc
    rw [show d.currentActiveChannel = none from (hinv.outside hphase).1] at hc
    contradiction
  handling := by
    intro c
    have := hinv.handling c
    rw [hphase] at this
    simpa [Phase.inside] using this

theorem RunInv.inv_step {as : List (Label χ)} (h : RunInv fd as d) (hpermitted : Permitted fd as d a)
    (hstep : Stepped fd d a d') : d'.Inv := by
  have hcalled (hcalls : a.calls) : Called d d' := h.called hpermitted hcalls hstep
  cases hstep with
  | poll hphase hpoll hperm hsorted =>
    exact h.inv.poll hphase (delivered_of_poll h.poller (hpermitted.poller _ rfl (by simp)) hpoll) hperm
  | visit hphase hrest => exact h.inv.visit hphase hrest
  | begin_ hphase hcurrent htakes => exact h.inv.inside_of_inside (by rw [hphase]; rfl) rfl
  | skip hphase htakes => exact h.inv.inside_of_inside (by rw [hphase]; rfl) rfl
  | end_ hphase => exact h.inv.inside_of_inside (by rw [hphase]; rfl) rfl
  | leave hphase hcurrent => exact h.inv.leave hcurrent
  | done hphase hrest => exact h.inv.done hphase hrest
  | _ => exact (hcalled rfl).inv h.inv

theorem RunInv.poller_step {as : List (Label χ)} (h : RunInv fd as d) (hfd : Function.Injective fd)
    (hpermitted : Permitted fd as d a) (hstep : Stepped fd d a d')
    : EPollPoller.RunInv fd ((as ++ [a]).filterMap Label.poller?) d'.poller := by
  rw [List.filterMap_append]
  have hpoller : ∀ label, a.poller? = some label → d.poller.step false fd label = .ok d'.poller →
      EPollPoller.RunInv fd (as.filterMap Label.poller? ++ [label]) d'.poller := by
    intro label hlabel hok
    have ⟨p', hp', hinv⟩ := h.poller.step false hfd (hpermitted.of_step hlabel hok)
    rw [hok] at hp'
    injection hp' with hp'
    rw [hp']
    exact hinv
  have hother : a.poller? = none → d'.poller = d.poller →
      EPollPoller.RunInv fd (as.filterMap Label.poller? ++ [a].filterMap Label.poller?) d'.poller := by
    intro hnone heq
    rw [List.filterMap_cons_none hnone, List.filterMap_nil, List.append_nil, heq]
    exact h.poller
  cases hstep with
  | @poll result poller activeChannels sorted hphase hpoll hperm hsorted =>
    apply hpoller (.poll result) rfl
    simp only [EPollPoller.step, hpoll, bind, Except.bind, pure, Except.pure]
  | op hcall hlabel hstep => exact hpoller _ rfl hstep
  | remove hcall hremove hstep => exact hpoller _ rfl hstep
  | visit hphase hrest =>
    apply hother rfl
    dsimp only [Dispatch.visit]
    split <;> rfl
  | _ => exact hother rfl rfl

theorem RunInv.context_of_destroyed {as : List (Label χ)} (h : RunInv fd as d)
    (hpermitted : Permitted fd as d a) (hstep : Stepped fd d a d') (hdestroyed : .destroy c ∈ as)
    : (d'.poller.channel c).context = .kNew := by
  have hnew := (h.destroyed c hdestroyed).1
  cases hstep with
  | poll hphase hpoll hperm hsorted =>
    have hdelivered := delivered_of_poll h.poller (hpermitted.poller _ rfl (by simp)) hpoll
    exact (hdelivered.polled.context_eq c).trans hnew
  | @op label c' poller hcall hlabel hstep =>
    have hne : c ≠ c' := by
      intro heq
      exact hpermitted.alive c' hlabel (heq ▸ hdestroyed)
    have ⟨channel, heffect, _⟩ := effect_of_update h.poller (hpermitted.of_step rfl hstep) hlabel hstep
    rw [heffect.channel_eq, Function.update_of_ne hne]
    exact hnew
  | @remove c' poller hcall hremove hstep =>
    have hne : c ≠ c' := by
      intro heq
      exact hpermitted.alive c' rfl (heq ▸ hdestroyed)
    have heffect := effect_of_remove h.poller hstep
    rw [heffect.channel_eq, Function.update_of_ne hne]
    exact hnew
  | visit hphase hrest =>
    dsimp only [Dispatch.visit]
    split <;> exact hnew
  | _ => exact hnew

theorem RunInv.handling_of_destroyed {as : List (Label χ)} (h : RunInv fd as d)
    (hpermitted : Permitted fd as d a) (hstep : Stepped fd d a d') (hdestroyed : .destroy c ∈ as)
    : d'.eventHandling c = false := by
  have ⟨hnew, hnot⟩ := h.destroyed c hdestroyed
  have hcalled (hcalls : a.calls) : Called d d' := h.called hpermitted hcalls hstep
  cases hstep with
  | @visit c' guard rest hphase hrest =>
    have hne : c ≠ c' := by
      intro heq
      apply h.inv.registered c' _ (heq ▸ hnew)
      rw [hrest]
      exact List.mem_cons_self
    dsimp only [Dispatch.visit]
    split
    . exact hnot
    . exact (Function.update_of_ne hne _ _).trans hnot
  | @leave c' hphase hcurrent =>
    by_cases heq : c = c'
    . rw [heq]
      exact Function.update_self ..
    . exact (Function.update_of_ne heq _ _).trans hnot
  | poll hphase hpoll hperm hsorted => exact hnot
  | begin_ hphase hcurrent htakes => exact hnot
  | skip hphase htakes => exact hnot
  | end_ hphase => exact hnot
  | done hphase hrest => exact hnot
  | _ => rw [(hcalled rfl).handling_eq]; exact hnot

theorem RunInv.step {as : List (Label χ)} (h : RunInv fd as d) (hfd : Function.Injective fd)
    (hpermitted : Permitted fd as d a) (hstep : Stepped fd d a d') : RunInv fd (as ++ [a]) d' where
  poller := h.poller_step hfd hpermitted hstep
  inv := h.inv_step hpermitted hstep
  destroyed := by
    intro c hc
    rw [List.mem_append, List.mem_singleton] at hc
    cases hc with
    | inl hc =>
      exact ⟨h.context_of_destroyed hpermitted hstep hc, h.handling_of_destroyed hpermitted hstep hc⟩
    | inr hc =>
      subst hc
      have hnew := hpermitted.removed c rfl
      cases hstep with
      | destroy hcall hhandling => exact ⟨hnew, hhandling⟩

theorem Runs.inv {as : List (Label χ)} (h : Runs fd as d) (hfd : Function.Injective fd)
    : RunInv fd as d := by
  induction h with
  | init =>
    exact ⟨(@EPollPoller.Runs.init χ _ false fd).inv hfd, inv_init, fun _ hc => absurd hc List.not_mem_nil⟩
  | step hrun hpermitted hstep ih => exact ih.step hfd hpermitted (stepped_of_step hstep)

structure Safe (fd : χ → Nat) (as : List (Label χ)) (d : Dispatch χ) : Prop where
  visited : ∀ c guard d', d.step fd (.visit c guard) = .next d' →
      d.poller.channels[fd c]? = some (some c) ∧ .destroy c ∉ as
  called : ∀ c callback d', d.step fd (.begin_ c callback) = .next d' → .destroy c ∉ as
  stops_iff : ∀ a, Permitted fd as d a →
      ((∃ reason, d.step fd a = .stop reason) ↔
        d.mayCall ∧ ((∃ c, a = .remove c ∧ ¬(d.MayRemove c ∧ EPollPoller.MayRemove fd d.poller c)) ∨
          ∃ c, a = .destroy c ∧ d.phase.inside ∧ d.currentActiveChannel = some c))
  goesOn : d.mayCall = false → ∃ a d', a.calls = false ∧ d.step fd a = .next d'

theorem step_of_calls (h : a.calls) (hcall : d.mayCall) : d.step fd a = d.stepCall fd a := by
  cases a with
  | poll result sorted => contradiction
  | visit c guard => contradiction
  | begin_ c callback => contradiction
  | skip => contradiction
  | end_ => contradiction
  | leave => contradiction
  | done => contradiction
  | _ => exact if_pos hcall

theorem RunInv.poller_ok {as : List (Label χ)} (h : RunInv fd as d) (hfd : Function.Injective fd)
    (hpermitted : Permitted fd as d a) {label : EPollPoller.Label χ} (hlabel : a.poller? = some label)
    (hnot : ∀ c, label ≠ .remove c) : ∃ poller, d.poller.step false fd label = .ok poller := by
  have ⟨poller, hok, _⟩ := h.poller.step false hfd (hpermitted.poller label hlabel hnot)
  exact ⟨poller, hok⟩

theorem RunInv.stepLoop_ne_stop {as : List (Label χ)} (h : RunInv fd as d) (hfd : Function.Injective fd)
    (hpermitted : Permitted fd as d a) (reason : EPollPoller.Stop) : d.stepLoop fd a ≠ .stop reason := by
  unfold stepLoop
  split
  . next result sorted hphase =>
    have ⟨poller, hok⟩ := h.poller_ok hfd hpermitted rfl (by simp)
    unfold Dispatch.poll
    split
    . next reason' herror =>
      simp only [EPollPoller.step, herror, bind, Except.bind] at hok
      contradiction
    . split <;> simp
  . split
    . simp
    . split <;> simp
  . split <;> simp
  . split <;> simp
  . split <;> simp
  . split <;> simp
  . simp
  . simp

theorem RunInv.stepCall_eq_stop {as : List (Label χ)} (h : RunInv fd as d) (hfd : Function.Injective fd)
    (hpermitted : Permitted fd as d a) {reason : EPollPoller.Stop} (hstop : d.stepCall fd a = .stop reason)
    : (∃ c, a = .remove c ∧ ¬(d.MayRemove c ∧ EPollPoller.MayRemove fd d.poller c)) ∨
      ∃ c, a = .destroy c ∧ d.phase.inside ∧ d.currentActiveChannel = some c := by
  cases a with
  | op label =>
    cases label with
    | remove c => contradiction
    | poll result => contradiction
    | _ =>
      have ⟨poller, hok⟩ := h.poller_ok hfd hpermitted rfl (by simp)
      dsimp only [stepCall] at hstop
      rw [hok] at hstop
      contradiction
  | remove c =>
    refine .inl ⟨c, rfl, ?_⟩
    intro hremove
    have ⟨poller, hok, _⟩ := EPollPoller.removeChannel_spec false h.poller.inv hremove.2
    dsimp only [stepCall, removeChannel] at hstop
    rw [hok] at hstop
    split at hstop
    . contradiction
    . next hnot => exact hnot hremove.1
  | destroy c =>
    dsimp only [stepCall] at hstop
    split at hstop
    . next hhandling => exact .inr ⟨c, rfl, (h.inv.handling c).mp hhandling⟩
    . contradiction
  | _ => contradiction

theorem RunInv.stops_iff {as : List (Label χ)} (h : RunInv fd as d) (hfd : Function.Injective fd)
    (hpermitted : Permitted fd as d a)
    : (∃ reason, d.step fd a = .stop reason) ↔
      d.mayCall ∧ ((∃ c, a = .remove c ∧ ¬(d.MayRemove c ∧ EPollPoller.MayRemove fd d.poller c)) ∨
        ∃ c, a = .destroy c ∧ d.phase.inside ∧ d.currentActiveChannel = some c) := by
  constructor
  . intro ⟨reason, hstop⟩
    unfold Dispatch.step at hstop
    split at hstop
    case h_7 => exact absurd hstop (h.stepLoop_ne_stop hfd hpermitted reason)
    all_goals
      split at hstop
      . next hcall => exact ⟨hcall, h.stepCall_eq_stop hfd hpermitted hstop⟩
      . contradiction
  . intro ⟨hcall, hstops⟩
    rcases hstops with ⟨c, ha, hremove⟩ | ⟨c, ha, hinside⟩
    . subst ha
      rw [step_of_calls rfl hcall]
      dsimp only [stepCall, removeChannel]
      split
      . next hmay =>
        cases hresult : d.poller.removeChannel false fd c with
        | ok poller => exact absurd ⟨hmay, EPollPoller.mayRemove_of_removeChannel hresult⟩ hremove
        | error reason => exact ⟨reason, rfl⟩
      . exact ⟨.dcheck, rfl⟩
    . subst ha
      refine ⟨.fatal, ?_⟩
      rw [step_of_calls rfl hcall]
      exact if_pos ((h.inv.handling c).mpr hinside)

theorem Inv.goesOn (hinv : d.Inv) (hcall : d.mayCall = false)
    : ∃ a d', a.calls = false ∧ d.step fd a = .next d' := by
  unfold mayCall at hcall
  split at hcall
  . contradiction
  . contradiction
  . next hphase =>
    cases hrest : d.rest with
    | nil => exact ⟨.done, _, rfl, by simp only [step, stepLoop, hphase, hrest, ↓reduceIte]; rfl⟩
    | cons c rest =>
      exact ⟨.visit c true, _, rfl, by simp only [step, stepLoop, hphase, hrest, ↓reduceIte]; rfl⟩
  . next left hphase =>
    have ⟨c, hcurrent⟩ := hinv.inside (by rw [hphase]; rfl)
    cases left with
    | nil => exact ⟨.leave, _, rfl, by simp only [step, stepLoop, hphase, hcurrent]; rfl⟩
    | cons callback left =>
      by_cases htakes : d.takes c callback
      . refine ⟨.begin_ c callback, { d with phase := .inCallback left }, rfl, ?_⟩
        simp [step, stepLoop, hphase, hcurrent, htakes]
      . refine ⟨.skip, { d with phase := .onEvent left }, rfl, ?_⟩
        simp [step, stepLoop, hphase, hcurrent, htakes]

def visit? : Label χ → Option χ
  | .visit c _ => some c
  | _ => none

def call? : Label χ → Option (χ × Callback)
  | .begin_ c callback => some (c, callback)
  | _ => none

def visits (labels : List (Label χ)) : List χ := labels.filterMap visit?

def calls (labels : List (Label χ)) : List (χ × Callback) := labels.filterMap call?

def reported (events : List EPollEvent) (fd : Nat) : EventMask :=
  ((events.find? fun event => event.data = fd).map EPollEvent.events).getD 0

def offers (wanted : χ → Callback → Bool) (cs : List χ) : List (χ × Callback) :=
  cs.flatMap fun c => (callbacks.filter (wanted c)).map fun callback => (c, callback)

def applies (fd : χ → Nat) (events : List EPollEvent) (c : χ) (callback : Callback) : Bool :=
  callback.applies (reported events (fd c))

-- What can keep a callback from being called though its channel has an event for it
def Label.disturbs : Label χ → Bool
  | setCallback .. => true
  | visit _ guard => !guard
  | _ => false

structure Iterates (fd : χ → Nat) (d : Dispatch χ) (events : List EPollEvent) (labels : List (Label χ))
    : Prop where
  visits_perm : ((visits labels).map fd).Perm (events.map EPollEvent.data)
  visits_sorted : d.IsSorted (visits labels)
  calls_sublist : List.Sublist (calls labels) (offers (applies fd events) (visits labels))
  calls_eq : (∀ label ∈ labels, label.disturbs = false) →
      calls labels = offers (fun c callback => applies fd events c callback && d.callback c callback)
        (visits labels)

def Phase.left : Phase → List Callback
  | outside | next => []
  | onEvent left | inCallback left => left

def pending (d : Dispatch χ) (wanted : χ → Callback → Bool) : List (χ × Callback) :=
  (d.currentActiveChannel.toList.flatMap fun c =>
    (d.phase.left.filter (wanted c)).map fun callback => (c, callback)) ++ offers wanted d.rest

section

variable {wanted : χ → Callback → Bool}

omit [DecidableEq χ] in
theorem pending_of_current (hcurrent : d.currentActiveChannel = some c)
    : d.pending wanted = ((d.phase.left.filter (wanted c)).map fun callback => (c, callback)) ++
        offers wanted d.rest := by
  simp [pending, hcurrent]

omit [DecidableEq χ] in
theorem pending_of_phase (hcurrent : d.currentActiveChannel = some c) (phase : Phase)
    : { d with phase := phase }.pending wanted =
        ((phase.left.filter (wanted c)).map fun callback => (c, callback)) ++ offers wanted d.rest := by
  simp [pending, hcurrent]

omit [DecidableEq χ] in
theorem pending_of_next (hphase : d.phase = .next) : d.pending wanted = offers wanted d.rest := by
  simp [pending, hphase, Phase.left]

omit [DecidableEq χ] in
theorem pending_of_called (h : Called d d') : d'.pending wanted = d.pending wanted := by
  unfold pending
  rw [h.current_eq, h.phase_eq, h.rest_eq]

theorem pending_visit (wanted : χ → Callback → Bool) (guard : Bool) {rest : List χ}
    (hphase : d.phase = .next) (hrest : d.rest = c :: rest)
    : (d.visit c guard rest).pending wanted = d.pending wanted ∨
      guard = false ∧ (d.visit c guard rest).pending wanted = offers wanted rest := by
  rw [pending_of_next hphase, hrest]
  dsimp only [Dispatch.visit]
  split
  . next hskip =>
    refine .inr ⟨?_, pending_of_next hphase⟩
    simp only [Bool.and_eq_true, Bool.not_eq_true'] at hskip
    exact hskip.2
  . exact .inl (pending_of_current rfl)

omit [DecidableEq χ] in
theorem pending_begin {callback : Callback} {left : List Callback}
    (hphase : d.phase = .onEvent (callback :: left)) (hcurrent : d.currentActiveChannel = some c)
    (hwanted : wanted c callback)
    : d.pending wanted = (c, callback) :: { d with phase := .inCallback left }.pending wanted := by
  rw [pending_of_current hcurrent, pending_of_phase hcurrent, hphase]
  simp [Phase.left, hwanted]

omit [DecidableEq χ] in
theorem pending_skip {callback : Callback} {left : List Callback}
    (hphase : d.phase = .onEvent (callback :: left)) (hcurrent : d.currentActiveChannel = some c)
    : d.pending wanted = (if wanted c callback then [(c, callback)] else []) ++
        { d with phase := .onEvent left }.pending wanted := by
  rw [pending_of_current hcurrent, pending_of_phase hcurrent, hphase]
  by_cases hwanted : wanted c callback
  . simp [Phase.left, hwanted]
  . simp [Phase.left, hwanted]

theorem RunInv.pending_sublist {as : List (Label χ)} (h : RunInv fd as d) (hpermitted : Permitted fd as d a)
    (hstep : Stepped fd d a d') (hinside : d.phase ≠ .outside) (hdone : a ≠ .done)
    (hwanted : ∀ c callback, a = .begin_ c callback → wanted c callback)
    : List.Sublist ((call? a).toList ++ d'.pending wanted) (d.pending wanted) := by
  have hcalled (hcalls : a.calls) : Called d d' := h.called hpermitted hcalls hstep
  cases hstep with
  | poll hphase hpoll hperm hsorted => exact absurd hphase hinside
  | @visit c guard rest hphase hrest =>
    rcases pending_visit wanted guard hphase hrest with heq | ⟨_, heq⟩
    . rw [heq]
      exact List.Sublist.refl _
    . rw [heq, pending_of_next hphase, hrest]
      exact List.sublist_append_right _ _
  | @begin_ c callback left hphase hcurrent htakes =>
    rw [pending_begin hphase hcurrent (hwanted c callback rfl)]
    exact List.Sublist.refl _
  | @skip callback left hphase htakes =>
    have ⟨c, hcurrent⟩ := h.inv.inside (by rw [hphase]; rfl)
    rw [pending_skip hphase hcurrent]
    exact List.sublist_append_right _ _
  | end_ hphase =>
    unfold pending
    rw [hphase]
    exact List.Sublist.refl _
  | leave hphase hcurrent =>
    unfold pending
    rw [hphase]
    exact List.Sublist.refl _
  | done hphase hrest => exact absurd rfl hdone
  | _ =>
    rw [pending_of_called (hcalled rfl)]
    exact List.Sublist.refl _

theorem RunInv.pending_eq {as : List (Label χ)} (h : RunInv fd as d) (hpermitted : Permitted fd as d a)
    (hstep : Stepped fd d a d') (hinside : d.phase ≠ .outside) (hdone : a ≠ .done)
    (hwanted : ∀ c callback, d.currentActiveChannel = some c → d.takes c callback = wanted c callback)
    (hdisturbs : a.disturbs = false)
    : (call? a).toList ++ d'.pending wanted = d.pending wanted := by
  have hcalled (hcalls : a.calls) : Called d d' := h.called hpermitted hcalls hstep
  cases hstep with
  | poll hphase hpoll hperm hsorted => exact absurd hphase hinside
  | @visit c guard rest hphase hrest =>
    rcases pending_visit wanted guard hphase hrest with heq | ⟨hguard, _⟩
    . exact heq
    . rw [hguard] at hdisturbs
      contradiction
  | @begin_ c callback left hphase hcurrent htakes =>
    rw [pending_begin hphase hcurrent (hwanted c callback hcurrent ▸ htakes)]
    rfl
  | @skip callback left hphase htakes =>
    have ⟨c, hcurrent⟩ := h.inv.inside (by rw [hphase]; rfl)
    rw [pending_skip hphase hcurrent, ← hwanted c callback hcurrent, htakes c hcurrent]
    rfl
  | end_ hphase =>
    unfold pending
    rw [hphase]
    rfl
  | leave hphase hcurrent =>
    unfold pending
    rw [hphase]
    rfl
  | done hphase hrest => exact absurd rfl hdone
  | _ => exact pending_of_called (hcalled rfl)

end

-- How far an iteration has come that began in `d₀`
structure Iterating (fd : χ → Nat) (d₀ : Dispatch χ) (events : List EPollEvent) (sorted : List χ)
    (labels : List (Label χ)) (d : Dispatch χ) : Prop where
  phase_ne : d.phase ≠ .outside
  activeChannels_eq : d.activeChannels = sorted
  visits_eq : visits labels ++ d.rest = sorted
  revents_eq : ∀ c ∈ sorted, (d.poller.channel c).revents = reported events (fd c)
  calls_sublist : List.Sublist (calls labels ++ d.pending (applies fd events))
      (offers (applies fd events) sorted)
  calls_eq : (∀ label ∈ labels, label.disturbs = false) → d.callback = d₀.callback ∧
      calls labels ++ d.pending (fun c callback => applies fd events c callback && d₀.callback c callback) =
        offers (fun c callback => applies fd events c callback && d₀.callback c callback) sorted

omit [DecidableEq χ] in
theorem reported_eq {events : List EPollEvent} (hnodup : (events.map EPollEvent.data).Nodup)
    {event : EPollEvent} (hevent : event ∈ events) : reported events event.data = event.events := by
  unfold reported
  induction events with
  | nil => contradiction
  | cons first events ih =>
    rw [List.map_cons, List.nodup_cons] at hnodup
    cases hevent with
    | head => simp
    | tail _ hevent =>
      have hne : first.data ≠ event.data := by
        intro heq
        exact hnodup.1 (heq ▸ List.mem_map_of_mem hevent)
      rw [List.find?_cons_of_neg (by simpa using hne)]
      exact ih hnodup.2 hevent

omit [DecidableEq χ] in
theorem Iterating.poll {events : List EPollEvent} {poller : EPollPoller χ} {activeChannels sorted : List χ}
    (hdelivered : Delivered fd d.poller poller events activeChannels) (hperm : sorted.Perm activeChannels)
    : Iterating fd d events sorted []
        { d with poller := poller, activeChannels := sorted, rest := sorted, phase := .next } where
  phase_ne := by simp
  activeChannels_eq := rfl
  visits_eq := rfl
  revents_eq := by
    intro c hc
    have ⟨event, hevent, hc⟩ := hdelivered.delivered c (hperm.mem_iff.mp hc)
    rw [hc.fd_eq, reported_eq hdelivered.nodup hevent]
    exact hc.revents
  calls_sublist := by
    rw [pending_of_next rfl]
    exact List.Sublist.refl _
  calls_eq := by
    intro _
    rw [pending_of_next rfl]
    exact ⟨rfl, rfl⟩

structure Within (d : Dispatch χ) (a : Label χ) (d' : Dispatch χ) : Prop where
  phase_ne : d'.phase ≠ .outside
  activeChannels_eq : d'.activeChannels = d.activeChannels
  rest_eq : (visit? a).toList ++ d'.rest = d.rest
  revents_eq : ∀ c, (d'.poller.channel c).revents = (d.poller.channel c).revents
  callback_eq : a.disturbs = false → d'.callback = d.callback

omit [DecidableEq χ] in
theorem Called.within (h : Called d d') (hinside : d.phase ≠ .outside) (hvisit : visit? a = none)
    (hcallback : a.disturbs = false → d'.callback = d.callback) : Within d a d' where
  phase_ne := by
    rw [h.phase_eq]
    exact hinside
  activeChannels_eq := h.activeChannels_eq
  rest_eq := by
    rw [hvisit, h.rest_eq]
    rfl
  revents_eq := h.revents_eq
  callback_eq := hcallback

theorem RunInv.within {as : List (Label χ)} (h : RunInv fd as d) (hpermitted : Permitted fd as d a)
    (hstep : Stepped fd d a d') (hinside : d.phase ≠ .outside) (hdone : a ≠ .done) : Within d a d' := by
  have hcalled (hcalls : a.calls) : Called d d' := h.called hpermitted hcalls hstep
  cases hstep with
  | poll hphase hpoll hperm hsorted => exact absurd hphase hinside
  | visit hphase hrest =>
    dsimp only [Dispatch.visit]
    split
    . exact ⟨hinside, rfl, hrest.symm, fun _ => rfl, fun _ => rfl⟩
    . exact ⟨by simp, rfl, hrest.symm, fun _ => rfl, fun _ => rfl⟩
  | begin_ hphase hcurrent htakes => exact ⟨by simp, rfl, rfl, fun _ => rfl, fun _ => rfl⟩
  | skip hphase htakes => exact ⟨by simp, rfl, rfl, fun _ => rfl, fun _ => rfl⟩
  | end_ hphase => exact ⟨by simp, rfl, rfl, fun _ => rfl, fun _ => rfl⟩
  | leave hphase hcurrent => exact ⟨by simp, rfl, rfl, fun _ => rfl, fun _ => rfl⟩
  | done hphase hrest => exact absurd rfl hdone
  | setCallback hcall => exact (hcalled rfl).within hinside rfl (fun h => by contradiction)
  | _ => exact (hcalled rfl).within hinside rfl (fun _ => rfl)

theorem Iterating.step {as labels : List (Label χ)} {d₀ : Dispatch χ} {events : List EPollEvent}
    {sorted : List χ} (hrun : RunInv fd as d) (h : Iterating fd d₀ events sorted labels d)
    (hpermitted : Permitted fd as d a) (hstep : Stepped fd d a d') (hdone : a ≠ .done)
    : Iterating fd d₀ events sorted (labels ++ [a]) d' := by
  have hwithin := hrun.within hpermitted hstep h.phase_ne hdone
  have hvisits : visits (labels ++ [a]) = visits labels ++ (visit? a).toList :=
    Machine.filterMap_concat visit? labels a
  have hcalls : calls (labels ++ [a]) = calls labels ++ (call? a).toList :=
    Machine.filterMap_concat call? labels a
  have happlies : ∀ c callback, d.currentActiveChannel = some c →
      callback.applies (d.poller.channel c).revents = applies fd events c callback := by
    intro c callback hcurrent
    have hmem := (hrun.inv.current c hcurrent).1
    rw [h.activeChannels_eq] at hmem
    rw [h.revents_eq c hmem]
    rfl
  refine ⟨hwithin.phase_ne, ?_, ?_, ?_, ?_, ?_⟩
  . rw [hwithin.activeChannels_eq, h.activeChannels_eq]
  . rw [hvisits, List.append_assoc, hwithin.rest_eq, h.visits_eq]
  . intro c hc
    rw [hwithin.revents_eq, h.revents_eq c hc]
  . rw [hcalls, List.append_assoc]
    refine List.Sublist.trans ?_ h.calls_sublist
    apply List.Sublist.append_left
    apply hrun.pending_sublist hpermitted hstep h.phase_ne hdone
    intro c callback ha
    subst ha
    cases hstep with
    | begin_ hphase hcurrent htakes =>
      rw [← happlies c callback hcurrent]
      simp only [takes, Bool.and_eq_true] at htakes
      exact htakes.1
  . intro hquiet
    have ⟨hcallback, hcalls_eq⟩ :=
      h.calls_eq fun label hlabel => hquiet label (List.mem_append_left _ hlabel)
    have hdisturbs := hquiet a (List.mem_append_right _ (List.mem_singleton_self a))
    refine ⟨(hwithin.callback_eq hdisturbs).trans hcallback, ?_⟩
    rw [hcalls, List.append_assoc, ← hcalls_eq]
    congr 1
    apply hrun.pending_eq hpermitted hstep h.phase_ne hdone _ hdisturbs
    intro c callback hcurrent
    rw [takes, happlies c callback hcurrent, hcallback]

theorem runs_concat {as : List (Label χ)} (h : Runs fd (as ++ [a]) d')
    : ∃ d, Runs fd as d ∧ Permitted fd as d a ∧ d.step fd a = .next d' := by
  generalize hbs : as ++ [a] = bs at h
  cases h with
  | init => simp at hbs
  | step hrun hpermitted hstep =>
    have ⟨has, ha⟩ := List.append_inj' hbs rfl
    injection ha with ha
    subst has ha
    exact ⟨_, hrun, hpermitted, hstep⟩

theorem iterating_of_runs (hfd : Function.Injective fd) {before labels : List (Label χ)}
    {result : Except EPollPoller.Epoll.Errno (List EPollEvent)} {sorted : List χ}
    (hruns : Runs fd (before ++ [Label.poll result sorted] ++ labels) d) (hdone : .done ∉ labels)
    : ∃ d₀, Runs fd before d₀ ∧ d₀.IsSorted sorted ∧
        (sorted.map fd).Perm ((eventsOf result).map EPollEvent.data) ∧
        Iterating fd d₀ (eventsOf result) sorted labels d := by
  induction labels using List.reverseRecOn generalizing d with
  | nil =>
    rw [List.append_nil] at hruns
    have ⟨d₀, hruns₀, hpermitted, hstep⟩ := runs_concat hruns
    refine ⟨d₀, hruns₀, ?_⟩
    cases stepped_of_step hstep with
    | poll hphase hpoll hperm hsorted =>
      have hdelivered := delivered_of_poll (hruns₀.inv hfd).poller (hpermitted.poller _ rfl (by simp)) hpoll
      refine ⟨hsorted, ?_, .poll hdelivered hperm⟩
      rw [← hdelivered.map_fd]
      exact hperm.map fd
  | append_singleton labels a ih =>
    rw [← List.append_assoc] at hruns
    have ⟨d₁, hruns₁, hpermitted, hstep⟩ := runs_concat hruns
    rw [List.mem_append, not_or, List.mem_singleton] at hdone
    have ⟨d₀, hruns₀, hsorted, hperm, hiterating⟩ := ih hruns₁ hdone.1
    exact ⟨d₀, hruns₀, hsorted, hperm,
      hiterating.step (hruns₁.inv hfd) hpermitted (stepped_of_step hstep) (Ne.symm hdone.2)⟩

end Dispatch
end EventLoop
end Claire
