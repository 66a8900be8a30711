import ClaireCommon.Events.Impl.EPollPoller
import ClaireCommon.Lib.Except
import Mathlib.Data.List.Forall2

/-!
This module proves that the poller, its channels and the set of the kernel agree in every reachable
state.
-/

namespace Claire
namespace EPollPoller

variable {χ : Type} {ndebug : Bool} {fd : χ → Nat} {p p' : EPollPoller χ} {c : χ}

def interest (channel : Channel) (fd : Nat) : Option EPollEvent :=
  if channel.context = .kAdded then some ⟨channel.events, fd⟩ else none

structure Inv (fd : χ → Nat) (p : EPollPoller χ) : Prop where
  epoll_eq : ∀ c, p.epoll (fd c) = interest (p.channel c) (fd c)
  registered : ∀ i, (p.epoll i).isSome → ∃ c, fd c = i
  stored_iff : ∀ i c, p.channels[i]? = some (some c) ↔ i = fd c ∧ (p.channel c).context ≠ .kNew
  failed_eq : p.failed = []

structure Effect [DecidableEq χ] (fd : χ → Nat) (p p' : EPollPoller χ) (c : χ) (channel : Channel)
    : Prop where
  channel_eq : p'.channel = Function.update p.channel c channel
  epoll_eq : p'.epoll = Function.update p.epoll (fd c) (interest channel (fd c))
  stored_iff : ∀ i d, p'.channels[i]? = some (some d) ↔
      if i = fd c then d = c ∧ channel.context ≠ .kNew else p.channels[i]? = some (some d)
  length_le : p.channels.length ≤ p'.channels.length
  failed_eq : p'.failed = p.failed

theorem inv_init : Inv fd (init : EPollPoller χ) where
  epoll_eq := by
    intro c
    rfl
  registered := by
    intro i h
    contradiction
  stored_iff := by
    intro i c
    unfold init
    rw [List.getElem?_replicate]
    split <;> simp [Channel.init]
  failed_eq := rfl

theorem Inv.epoll_eq_none (hinv : Inv fd p) (h : (p.channel c).context ≠ .kAdded)
    : p.epoll (fd c) = none := by
  rw [hinv.epoll_eq, interest, if_neg h]

theorem Inv.epoll_eq_some (hinv : Inv fd p) (h : (p.channel c).context = .kAdded)
    : p.epoll (fd c) = some ⟨(p.channel c).events, fd c⟩ := by
  rw [hinv.epoll_eq, interest, if_pos h]

theorem Inv.stored (hinv : Inv fd p) (h : (p.channel c).context ≠ .kNew)
    : p.channels[fd c]? = some (some c) := by
  rw [hinv.stored_iff]
  apply And.intro rfl h

theorem Inv.fd_lt (hinv : Inv fd p) (h : (p.channel c).context ≠ .kNew)
    : fd c < p.channels.length := by
  have := hinv.stored h
  have ⟨hlt, _⟩ := List.getElem?_eq_some_iff.mp this
  apply hlt

structure KernelReports (p : EPollPoller χ) (events : List EPollEvent) : Prop where
  registered : ∀ event ∈ events, ∃ i registered,
      p.epoll i = some registered ∧ event.data = registered.data
  nodup : (events.map EPollEvent.data).Nodup
  length_le : events.length ≤ p.eventsSize

theorem Inv.registered_of_reports (hinv : Inv fd p) {events : List EPollEvent}
    (h : KernelReports p events)
    : ∀ event ∈ events, ∃ c, fd c = event.data ∧ (p.channel c).context = .kAdded := by
  intro event hevent
  have ⟨i, registered, hsome, hdata⟩ := h.registered event hevent
  have ⟨c, hc⟩ := hinv.registered i (by rw [hsome]; rfl)
  have hcontext : (p.channel c).context = .kAdded := by
    apply Classical.byContradiction
    intro hne
    rw [← hc, hinv.epoll_eq_none hne] at hsome
    contradiction
  rw [← hc, hinv.epoll_eq_some hcontext] at hsome
  injection hsome with hsome
  refine ⟨c, ?_, hcontext⟩
  rw [hdata, ← hsome]

structure Polled (p p' : EPollPoller χ) : Prop where
  channels_eq : p'.channels = p.channels
  epoll_eq : p'.epoll = p.epoll
  channel_eq : ∀ c, p'.channel c = { p.channel c with revents := (p'.channel c).revents }
  failed_eq : p'.failed = p.failed

theorem Polled.refl (p : EPollPoller χ) : Polled p p := ⟨rfl, rfl, fun _ => rfl, rfl⟩

theorem Polled.trans {q : EPollPoller χ} (h : Polled p q) (h' : Polled q p') : Polled p p' where
  channels_eq := h'.channels_eq.trans h.channels_eq
  epoll_eq := h'.epoll_eq.trans h.epoll_eq
  channel_eq := by
    intro c
    have hq := h.channel_eq c
    have hp' := h'.channel_eq c
    rw [hq] at hp'
    rw [hp']
  failed_eq := h'.failed_eq.trans h.failed_eq

theorem Polled.context_eq (h : Polled p p') (c : χ)
    : (p'.channel c).context = (p.channel c).context := by
  rw [h.channel_eq]

theorem Polled.inv (h : Polled p p') (hinv : Inv fd p) : Inv fd p' where
  epoll_eq := by
    intro c
    rw [h.epoll_eq, h.channel_eq, hinv.epoll_eq]
    rfl
  registered := by
    rw [h.epoll_eq]
    apply hinv.registered
  stored_iff := by
    intro i c
    rw [h.channels_eq, h.context_eq, hinv.stored_iff]
  failed_eq := by rw [h.failed_eq, hinv.failed_eq]

def Label.channel? : Label χ → Option χ
  | enableReading c | enableWriting c | disableReading c | disableWriting c | disableAll c
  | remove c => some c
  | poll _ => none

-- The table never shrinks, so that it has room for every channel seen before.
structure RunInv (fd : χ → Nat) (as : List (Label χ)) (p : EPollPoller χ) : Prop where
  inv : Inv fd p
  fits : ∀ a ∈ as, ∀ c, a.channel? = some c → fd c < p.channels.length

theorem RunInv.poll {as : List (Label χ)} {result : Except Epoll.Errno (List EPollEvent)}
    (h : RunInv fd as p) (hpolled : Polled p p') : RunInv fd (as ++ [Label.poll result]) p' where
  inv := hpolled.inv h.inv
  fits := by
    intro b hb d hd
    rw [List.mem_append, List.mem_singleton] at hb
    cases hb with
    | inl hb =>
      rw [hpolled.channels_eq]
      apply h.fits b hb d hd
    | inr hb =>
      rw [hb] at hd
      contradiction

theorem dcheck_of_true {condition : Bool} (h : condition = true) : dcheck ndebug condition = .ok () := by
  rw [dcheck, h, Bool.or_true, if_pos rfl]

theorem dcheck_eq_ok {condition : Bool} {u : Unit} : dcheck false condition = .ok u ↔ condition = true := by
  cases condition <;> simp [dcheck]

theorem update_mod {event : EPollEvent} (h : p.epoll (fd c) = some event)
    : p.update fd .mod c = { p with
        epoll := Function.update p.epoll (fd c) (some ⟨(p.channel c).events, fd c⟩) } := by
  simp [update, Epoll.ctl, h]

theorem update_del {event : EPollEvent} (h : p.epoll (fd c) = some event)
    : p.update fd .del c = { p with epoll := Function.update p.epoll (fd c) none } := by
  simp [update, Epoll.ctl, h]

theorem Inv.unregister_eq (hinv : Inv fd p)
    : p.unregister fd c = { p with epoll := Function.update p.epoll (fd c) none } := by
  unfold unregister
  split
  . next hadded => apply update_del (hinv.epoll_eq_some hadded)
  . next hadded =>
    rw [← hinv.epoll_eq_none hadded, Function.update_eq_self]

variable [DecidableEq χ]

theorem dcheckStored_eq (h : p.channels[fd c]? = some (some c)) : p.dcheckStored ndebug fd c = .ok () := by
  unfold dcheckStored load
  rw [h]
  split
  . rfl
  . exact dcheck_of_true (decide_eq_true rfl)

theorem dcheckStored_eq_ok {u : Unit}
    : p.dcheckStored false fd c = .ok u ↔ p.channels[fd c]? = some (some c) := by
  unfold dcheckStored load
  rw [if_neg Bool.false_ne_true, Except.bind_eq_ok]
  cases p.channels[fd c]? with
  | none => simp
  | some stored => simp [dcheck_eq_ok]

theorem setContext_update_add (h : p.epoll (fd c) = none)
    : (p.setContext c .kAdded).update fd .add c = { p with
        channel := Function.update p.channel c { p.channel c with context := .kAdded }
        epoll := Function.update p.epoll (fd c) (some ⟨(p.channel c).events, fd c⟩) } := by
  simp [setContext, setChannel, update, Epoll.ctl, h]

theorem updateReserved_of_kNew (hcontext : (p.channel c).context = .kNew)
    (hlt : fd c < p.channels.length) (hepoll : p.epoll (fd c) = none)
    : p.updateReserved ndebug fd c = .ok { p with
        channels := p.channels.set (fd c) (some c)
        channel := Function.update p.channel c { p.channel c with context := .kAdded }
        epoll := Function.update p.epoll (fd c) (some ⟨(p.channel c).events, fd c⟩) } := by
  unfold updateReserved store
  rw [hcontext]
  simp only [hlt, ↓reduceIte, bind, Except.bind, pure, Except.pure]
  rw [setContext_update_add]
  apply hepoll

theorem updateReserved_of_kDeleted (hcontext : (p.channel c).context = .kDeleted)
    (hstored : p.channels[fd c]? = some (some c)) (hepoll : p.epoll (fd c) = none)
    : p.updateReserved ndebug fd c = .ok { p with
        channel := Function.update p.channel c { p.channel c with context := .kAdded }
        epoll := Function.update p.epoll (fd c) (some ⟨(p.channel c).events, fd c⟩) } := by
  unfold updateReserved
  rw [hcontext, dcheckStored_eq hstored]
  simp only [bind, Except.bind, pure, Except.pure]
  rw [setContext_update_add hepoll]

def nextContext (context : Channel.Context) (events : EventMask) : Channel.Context :=
  if context = .kAdded ∧ events = Channel.kNoneEvent then .kDeleted else .kAdded

theorem updateReserved_of_kAdded {event : EPollEvent} (hcontext : (p.channel c).context = .kAdded)
    (hstored : p.channels[fd c]? = some (some c)) (hepoll : p.epoll (fd c) = some event)
    {next : Channel} (hnext : next = { p.channel c with
      context := nextContext .kAdded (p.channel c).events })
    : p.updateReserved ndebug fd c = .ok { p with
        channel := Function.update p.channel c next
        epoll := Function.update p.epoll (fd c) (interest next (fd c)) } := by
  unfold updateReserved
  rw [hcontext, dcheckStored_eq hstored]
  simp only [bind, Except.bind, pure, Except.pure]
  rw [update_del hepoll, update_mod hepoll]
  unfold nextContext at hnext
  by_cases hnone : (p.channel c).events = Channel.kNoneEvent
  . simp [Channel.isNoneEvent, hnone, hnext, setContext, setChannel, interest]
  . have hsame : next = p.channel c := by
      rw [hnext, if_neg (by simp [hnone]), ← hcontext]
    simp [Channel.isNoneEvent, hnone, hsame, hcontext, interest]

theorem Effect.inv {channel : Channel} (heffect : Effect fd p p' c channel)
    (hfd : Function.Injective fd) (hinv : Inv fd p) : Inv fd p' where
  epoll_eq := by
    intro d
    rw [heffect.channel_eq, heffect.epoll_eq]
    by_cases hd : d = c
    . rw [hd, Function.update_self, Function.update_self]
    . rw [Function.update_of_ne hd, Function.update_of_ne (hfd.ne hd), hinv.epoll_eq]
  registered := by
    intro i hi
    rw [heffect.epoll_eq] at hi
    by_cases hc : i = fd c
    . apply Exists.intro c hc.symm
    . rw [Function.update_of_ne hc] at hi
      apply hinv.registered i hi
  stored_iff := by
    intro i d
    rw [heffect.stored_iff, heffect.channel_eq]
    by_cases hd : d = c
    . rw [hd, Function.update_self]
      split
      . simp [*]
      . next hi =>
        rw [hinv.stored_iff]
        simp [hi]
    . rw [Function.update_of_ne hd]
      split
      . next hi =>
        have := hfd.ne hd
        simp [hi, hd, this.symm]
      . rw [hinv.stored_iff]
  failed_eq := by rw [heffect.failed_eq, hinv.failed_eq]

structure Reserved (fd : χ → Nat) (p q : EPollPoller χ) (c : χ) (events : EventMask) : Prop where
  channel_eq : q.channel = Function.update p.channel c { p.channel c with events := events }
  epoll_eq : q.epoll = p.epoll
  stored_iff : ∀ (i : Nat) (d : χ),
      q.channels[i]? = some (some d) ↔ p.channels[i]? = some (some d)
  fd_lt : fd c < q.channels.length
  length_le : p.channels.length ≤ q.channels.length
  failed_eq : q.failed = p.failed

theorem Inv.reserved (hinv : Inv fd p)
    (hfits : (p.channel c).context = .kNew → fd c < 2 * p.channels.length) (events : EventMask)
    : ∃ q, (p.setEvents c events).reserve fd c = some q ∧ Reserved fd p q c events := by
  have hcontext : ((p.setEvents c events).channel c).context = (p.channel c).context := by
    simp [setEvents, setChannel]
  unfold reserve
  rw [hcontext]
  split
  . next hge =>
    have hge : p.channels.length ≤ fd c := hge
    have hnew : (p.channel c).context = .kNew := by
      apply Classical.byContradiction
      intro hne
      have := hinv.fd_lt hne
      omega
    have := hfits hnew
    rw [if_pos hnew]
    refine ⟨_, rfl, rfl, rfl, ?_, ?_, ?_, rfl⟩
    . intro i d
      simp only [List.getElem?_append]
      split
      . rfl
      . next hi =>
        have hi : p.channels.length ≤ i := Nat.le_of_not_lt hi
        rw [List.getElem?_replicate, List.getElem?_eq_none hi]
        split <;> simp
    . simp only [List.length_append, List.length_replicate, setEvents, setChannel]
      omega
    . simp [setEvents, setChannel]
  . next hge =>
    have hge : ¬p.channels.length ≤ fd c := hge
    refine ⟨_, rfl, rfl, rfl, ?_, ?_, ?_, rfl⟩
    . intro i d
      rfl
    . apply Nat.lt_of_not_le hge
    . apply Nat.le_refl

theorem Reserved.channel_self {q : EPollPoller χ} {events : EventMask}
    (h : Reserved fd p q c events) : q.channel c = { p.channel c with events := events } := by
  rw [h.channel_eq, Function.update_self]

theorem Reserved.effect {q : EPollPoller χ} {events : EventMask} (h : Reserved fd p q c events)
    {context : Channel.Context} {channels : List (Option χ)}
    (hstored : ∀ (i : Nat) (d : χ), channels[i]? = some (some d) ↔
      if i = fd c then d = c ∧ context ≠ .kNew else p.channels[i]? = some (some d))
    (hlength : q.channels.length ≤ channels.length)
    : Effect fd p
        { q with
          channels := channels
          channel := Function.update q.channel c { q.channel c with context := context }
          epoll := Function.update q.epoll (fd c)
            (interest { q.channel c with context := context } (fd c)) }
        c { p.channel c with events := events, context := context } where
  channel_eq := by
    simp only [h.channel_self]
    rw [h.channel_eq, Function.update_idem]
  epoll_eq := by
    simp only [h.channel_self]
    rw [h.epoll_eq]
  stored_iff := hstored
  length_le := Nat.le_trans h.length_le hlength
  failed_eq := h.failed_eq

theorem Reserved.stored_iff_of_stored {q : EPollPoller χ} {events : EventMask}
    (h : Reserved fd p q c events) (hstored : p.channels[fd c]? = some (some c))
    {context : Channel.Context} (hne : context ≠ .kNew) (i : Nat) (d : χ)
    : q.channels[i]? = some (some d) ↔
        if i = fd c then d = c ∧ context ≠ .kNew else p.channels[i]? = some (some d) := by
  rw [h.stored_iff]
  split
  . next hi =>
    rw [hi, hstored]
    simp [hne, eq_comm]
  . rfl

theorem Reserved.stored_iff_of_set {q : EPollPoller χ} {events : EventMask}
    (h : Reserved fd p q c events) {context : Channel.Context} (hne : context ≠ .kNew) (i : Nat)
    (d : χ)
    : (q.channels.set (fd c) (some c))[i]? = some (some d) ↔
        if i = fd c then d = c ∧ context ≠ .kNew else p.channels[i]? = some (some d) := by
  split
  . next hi =>
    rw [hi, List.getElem?_set_self h.fd_lt]
    simp [hne, eq_comm]
  . next hi => rw [List.getElem?_set_ne (Ne.symm hi), h.stored_iff]

theorem updateReserved_spec {q : EPollPoller χ} {events : EventMask} (hinv : Inv fd p)
    (h : Reserved fd p q c events)
    : ∃ p', q.updateReserved ndebug fd c = .ok p' ∧ fd c < p'.channels.length ∧
        Effect fd p p' c { p.channel c with
          events := events
          context := nextContext (p.channel c).context events } := by
  have hself := h.channel_self
  cases hcontext : (p.channel c).context with
  | kNew =>
    have hnone : q.epoll (fd c) = none := by
      rw [h.epoll_eq, hinv.epoll_eq_none (by simp [hcontext])]
    rw [updateReserved_of_kNew (by rw [hself, hcontext]) h.fd_lt hnone]
    refine ⟨_, rfl, ?_, h.effect (h.stored_iff_of_set (by decide)) (by simp)⟩
    simp only [List.length_set]
    apply h.fd_lt
  | kDeleted =>
    have hnone : q.epoll (fd c) = none := by
      rw [h.epoll_eq, hinv.epoll_eq_none (by simp [hcontext])]
    have hstored := hinv.stored (c := c) (by simp [hcontext])
    rw [updateReserved_of_kDeleted (by rw [hself, hcontext]) ((h.stored_iff _ _).mpr hstored) hnone]
    refine ⟨_, rfl, h.fd_lt, ?_⟩
    apply h.effect (h.stored_iff_of_stored hstored (by decide)) (Nat.le_refl _)
  | kAdded =>
    have hsome : q.epoll (fd c) = some ⟨(p.channel c).events, fd c⟩ := by
      rw [h.epoll_eq, hinv.epoll_eq_some hcontext]
    have hstored := hinv.stored (c := c) (by simp [hcontext])
    have hne : nextContext .kAdded events ≠ .kNew := by
      unfold nextContext
      split <;> simp
    rw [updateReserved_of_kAdded (by rw [hself, hcontext]) ((h.stored_iff _ _).mpr hstored) hsome rfl]
    simp only [hself]
    refine ⟨_, rfl, h.fd_lt, ?_⟩
    have heffect := h.effect (h.stored_iff_of_stored hstored hne) (Nat.le_refl _)
    simp only [hself] at heffect
    apply heffect

theorem updateEvents_spec (ndebug : Bool) (hinv : Inv fd p)
    (hfits : (p.channel c).context = .kNew → fd c < 2 * p.channels.length) (events : EventMask)
    : ∃ p', p.updateEvents ndebug fd c events = .ok p' ∧ fd c < p'.channels.length ∧
        Effect fd p p' c { p.channel c with
          events := events
          context := nextContext (p.channel c).context events } := by
  have ⟨q, hreserve, hreserved⟩ := hinv.reserved hfits events
  unfold updateEvents updateChannel
  rw [hreserve]
  apply updateReserved_spec hinv hreserved

structure MayRemove (fd : χ → Nat) (p : EPollPoller χ) (c : χ) : Prop where
  fd_lt : fd c < p.channels.length
  stored : p.channels[fd c]? = some (some c)
  isNoneEvent : (p.channel c).isNoneEvent
  context : (p.channel c).context = .kAdded ∨ (p.channel c).context = .kDeleted

theorem removeChannel_spec (ndebug : Bool) (hinv : Inv fd p) (h : MayRemove fd p c)
    : ∃ p', p.removeChannel ndebug fd c = .ok p' ∧ fd c < p'.channels.length ∧
        Effect fd p p' c { p.channel c with context := .kNew } := by
  unfold removeChannel
  rw [dcheck_of_true (decide_eq_true h.fd_lt), dcheckStored_eq h.stored,
    dcheck_of_true h.isNoneEvent, dcheck_of_true (decide_eq_true h.context), hinv.unregister_eq]
  simp only [bind, Except.bind, store, setContext, setChannel, h.fd_lt, ↓reduceIte]
  refine ⟨_, rfl, ?_, rfl, rfl, ?_, ?_, rfl⟩
  . simp only [List.length_set]
    apply h.fd_lt
  . intro i d
    split
    . next hi =>
      simp only [hi]
      rw [List.getElem?_set_self h.fd_lt]
      simp
    . next hi =>
      simp only
      rw [List.getElem?_set_ne (Ne.symm hi)]
  . simp

theorem mayRemove_of_removeChannel (h : p.removeChannel false fd c = .ok p') : MayRemove fd p c := by
  unfold removeChannel at h
  have ⟨_, hlt, h⟩ := Except.bind_eq_ok.mp h
  have ⟨_, hstored, h⟩ := Except.bind_eq_ok.mp h
  have ⟨_, hnone, h⟩ := Except.bind_eq_ok.mp h
  have ⟨_, hcontext, _⟩ := Except.bind_eq_ok.mp h
  exact ⟨of_decide_eq_true (dcheck_eq_ok.mp hlt), dcheckStored_eq_ok.mp hstored, dcheck_eq_ok.mp hnone,
    of_decide_eq_true (dcheck_eq_ok.mp hcontext)⟩

theorem polled_setRevents (p : EPollPoller χ) (c : χ) (revents : EventMask)
    : Polled p (p.setRevents c revents) where
  channels_eq := rfl
  epoll_eq := rfl
  channel_eq := by
    intro d
    unfold setRevents setChannel
    by_cases hd : d = c
    . simp [hd]
    . simp [hd]
  failed_eq := rfl

theorem deliver_eq (hinv : Inv fd p) {event : EPollEvent} (hdata : fd c = event.data)
    (hadded : (p.channel c).context = .kAdded) (activeChannels : List χ)
    : p.deliver ndebug fd event activeChannels
        = .ok (p.setRevents c event.events, activeChannels ++ [c]) := by
  have hne : (p.channel c).context ≠ .kNew := by simp [hadded]
  have hlt := hinv.fd_lt hne
  have hstored := hinv.stored hne
  unfold deliver load
  rw [← hdata, if_neg (Nat.not_le_of_lt hlt), hstored]
  simp only [bind, Except.bind, decide_true, dcheck_of_true, pure, Except.pure]

structure IsDelivered (fd : χ → Nat) (p p' : EPollPoller χ) (event : EPollEvent) (c : χ)
    : Prop where
  fd_eq : fd c = event.data
  context : (p.channel c).context = .kAdded
  stored : p.channels[fd c]? = some (some c)
  revents : (p'.channel c).revents = event.events

theorem deliverAll_spec (ndebug : Bool) (hinv : Inv fd p) {events : List EPollEvent}
    (hadded : ∀ event ∈ events, ∃ c, fd c = event.data ∧ (p.channel c).context = .kAdded)
    (hnodup : (events.map EPollEvent.data).Nodup) (activeChannels : List χ)
    : ∃ p' delivered, p.deliverAll ndebug fd activeChannels events = .ok (p', activeChannels ++ delivered) ∧
        Polled p p' ∧ List.Forall₂ (IsDelivered fd p p') events delivered ∧
        ∀ c, fd c ∉ events.map EPollEvent.data → p'.channel c = p.channel c := by
  induction events generalizing p activeChannels with
  | nil =>
    refine ⟨p, [], ?_, Polled.refl p, .nil, fun _ _ => rfl⟩
    rw [List.append_nil]
    rfl
  | cons event events ih =>
    have ⟨c, hdata, hcontext⟩ := hadded event List.mem_cons_self
    rw [List.map_cons, List.nodup_cons] at hnodup
    have hpolled := polled_setRevents p c event.events
    have ⟨p', delivered, hrun, hpolled', hdelivered, hframe⟩ :=
      ih (hpolled.inv hinv) (p := p.setRevents c event.events)
        (by
          intro later hlater
          have ⟨d, hd, hdcontext⟩ := hadded later (List.mem_cons_of_mem _ hlater)
          apply Exists.intro d ⟨hd, by rw [hpolled.context_eq, hdcontext]⟩)
        hnodup.2 (activeChannels ++ [c])
    refine ⟨p', c :: delivered, ?_, hpolled.trans hpolled', ?_, ?_⟩
    . unfold deliverAll
      rw [deliver_eq hinv hdata hcontext]
      simp only [bind, Except.bind]
      rw [hrun, List.append_assoc]
      rfl
    . constructor
      . refine ⟨hdata, hcontext, hinv.stored (by simp [hcontext]), ?_⟩
        rw [hframe c (by rw [hdata]; apply hnodup.1)]
        simp [setRevents, setChannel]
      . apply hdelivered.imp
        intro later d hd
        refine ⟨hd.fd_eq, ?_, ?_, hd.revents⟩
        . rw [← hpolled.context_eq, hd.context]
        . rw [← hpolled.channels_eq, hd.stored]
    . intro d hd
      rw [List.map_cons, List.mem_cons, not_or] at hd
      have hdc : d ≠ c := by
        intro heq
        apply hd.1
        rw [heq, hdata]
      rw [hframe d hd.2]
      simp [setRevents, setChannel, hdc]

-- What the callers and the kernel promise for a step after the steps `as`
def Permitted (fd : χ → Nat) (as : List (Label χ)) (p : EPollPoller χ) : Label χ → Prop
  | .enableReading c | .enableWriting c | .disableReading c | .disableWriting c | .disableAll c =>
    (∀ a ∈ as, a.channel? ≠ some c) → fd c < 2 * p.channels.length
  | .remove c => MayRemove fd p c
  | .poll (.ok events) => KernelReports p events
  | .poll (.error errno) => errno = .eintr

inductive Runs (ndebug : Bool) (fd : χ → Nat) : List (Label χ) → EPollPoller χ → Prop
  | init : Runs ndebug fd [] init
  | step {as : List (Label χ)} {p p' : EPollPoller χ} {a : Label χ} (hrun : Runs ndebug fd as p)
      (hpermitted : Permitted fd as p a) (hstep : p.step ndebug fd a = .ok p')
      : Runs ndebug fd (as ++ [a]) p'

theorem RunInv.fits_of_permitted {as : List (Label χ)} (h : RunInv fd as p)
    (hpermitted : (∀ a ∈ as, a.channel? ≠ some c) → fd c < 2 * p.channels.length)
    : fd c < 2 * p.channels.length := by
  by_cases hfirst : ∀ a ∈ as, a.channel? ≠ some c
  . apply hpermitted hfirst
  . simp only [not_forall, ne_eq, Decidable.not_not] at hfirst
    have ⟨a, ha, hc⟩ := hfirst
    have := h.fits a ha c hc
    omega

theorem RunInv.concat {as : List (Label χ)} {a : Label χ} {channel : Channel}
    (h : RunInv fd as p) (hfd : Function.Injective fd) (heffect : Effect fd p p' c channel)
    (hlt : fd c < p'.channels.length) (ha : a.channel? = some c) : RunInv fd (as ++ [a]) p' where
  inv := heffect.inv hfd h.inv
  fits := by
    intro b hb d hd
    rw [List.mem_append, List.mem_singleton] at hb
    cases hb with
    | inl hb =>
      have := h.fits b hb d hd
      have := heffect.length_le
      omega
    | inr hb =>
      rw [hb, ha] at hd
      injection hd with hd
      rw [← hd]
      apply hlt

theorem poll_spec (ndebug : Bool) (hinv : Inv fd p) {events : List EPollEvent} (h : KernelReports p events)
    : ∃ p' activeChannels, p.poll ndebug fd (.ok events) = .ok (p', activeChannels) ∧ Polled p p' ∧
        List.Forall₂ (IsDelivered fd p p') events activeChannels := by
  have ⟨q, delivered, hrun, hpolled, hdelivered, _⟩ :=
    deliverAll_spec ndebug hinv (hinv.registered_of_reports h) h.nodup []
  have hresize : Polled q (q.resizeEvents events.length) ∧
      (q.resizeEvents events.length).channel = q.channel := by
    unfold resizeEvents
    split
    . apply And.intro ⟨rfl, rfl, fun _ => rfl, rfl⟩ rfl
    . apply And.intro (Polled.refl q) rfl
  refine ⟨q.resizeEvents events.length, delivered, ?_, hpolled.trans hresize.1, ?_⟩
  . unfold poll
    simp only [hrun, bind, Except.bind]
    rfl
  . apply hdelivered.imp
    intro event c hc
    refine ⟨hc.fd_eq, hc.context, hc.stored, ?_⟩
    rw [hresize.2, hc.revents]

theorem RunInv.updateEvents {as : List (Label χ)} {a : Label χ} (ndebug : Bool) (h : RunInv fd as p)
    (hfd : Function.Injective fd)
    (hpermitted : (∀ a ∈ as, a.channel? ≠ some c) → fd c < 2 * p.channels.length)
    (ha : a.channel? = some c) (events : EventMask)
    : ∃ p', p.updateEvents ndebug fd c events = .ok p' ∧ RunInv fd (as ++ [a]) p' := by
  have hfits := h.fits_of_permitted hpermitted
  have ⟨p', hupdate, hlt, heffect⟩ := updateEvents_spec ndebug h.inv (fun _ => hfits) events
  apply Exists.intro p' ⟨hupdate, h.concat hfd heffect hlt ha⟩

theorem RunInv.step {as : List (Label χ)} {a : Label χ} (ndebug : Bool) (h : RunInv fd as p)
    (hfd : Function.Injective fd) (hpermitted : Permitted fd as p a)
    : ∃ p', p.step ndebug fd a = .ok p' ∧ RunInv fd (as ++ [a]) p' := by
  cases a with
  | enableReading c => apply h.updateEvents ndebug hfd hpermitted rfl
  | enableWriting c => apply h.updateEvents ndebug hfd hpermitted rfl
  | disableReading c => apply h.updateEvents ndebug hfd hpermitted rfl
  | disableWriting c => apply h.updateEvents ndebug hfd hpermitted rfl
  | disableAll c => apply h.updateEvents ndebug hfd hpermitted rfl
  | remove c =>
    have ⟨p', hremove, hlt, heffect⟩ := removeChannel_spec ndebug h.inv hpermitted
    apply Exists.intro p' ⟨hremove, h.concat hfd heffect hlt rfl⟩
  | poll result =>
    cases result with
    | ok events =>
      have ⟨p', activeChannels, hpoll, hpolled, _⟩ := poll_spec ndebug h.inv hpermitted
      refine ⟨p', ?_, h.poll hpolled⟩
      simp only [EPollPoller.step, hpoll, bind, Except.bind, pure, Except.pure]
    | error errno =>
      refine ⟨p, ?_, h.poll (Polled.refl p)⟩
      rw [hpermitted]
      rfl

theorem Runs.inv {as : List (Label χ)} (h : Runs ndebug fd as p) (hfd : Function.Injective fd)
    : RunInv fd as p := by
  induction h with
  | init =>
    constructor
    . apply inv_init
    . intro a ha
      contradiction
  | step hrun hpermitted hstep ih =>
    have ⟨p', hp', hinv⟩ := ih.step ndebug hfd hpermitted
    rw [hstep] at hp'
    injection hp' with hp'
    rw [hp']
    apply hinv

structure Bookkeeping (fd : χ → Nat) (p : EPollPoller χ) : Prop where
  kAdded_iff : ∀ c, (p.channel c).context = .kAdded ↔ (p.epoll (fd c)).isSome
  interest_eq : ∀ c, (p.channel c).context = .kAdded →
      p.epoll (fd c) = some { events := (p.channel c).events, data := fd c }
  stored : ∀ c, (p.channel c).context = .kAdded ∨ (p.channel c).context = .kDeleted →
      p.channels[fd c]? = some (some c)
  kNew : ∀ c, (p.channel c).context = .kNew →
      some c ∉ p.channels ∧ p.epoll (fd c) = none
  -- The early return is for a channel that is not new.
  not_returned : ∀ c events, (p.setEvents c events).reserve fd c ≠ none
  failed_eq : p.failed = []

theorem Inv.bookkeeping (hinv : Inv fd p) : Bookkeeping fd p where
  kAdded_iff := by
    intro c
    rw [hinv.epoll_eq, interest]
    split <;> simp [*]
  interest_eq := by
    intro c h
    apply hinv.epoll_eq_some h
  stored := by
    intro c h
    apply hinv.stored
    cases h with
    | inl h => simp [h]
    | inr h => simp [h]
  kNew := by
    intro c h
    constructor
    . intro hmem
      have ⟨i, hi⟩ := List.mem_iff_getElem?.mp hmem
      apply (hinv.stored_iff i c |>.mp hi).2 h
    . apply hinv.epoll_eq_none
      simp [h]
  not_returned := by
    intro c events
    unfold reserve
    split
    . next hge =>
      split
      . simp
      . next hcontext =>
        have hne : (p.channel c).context ≠ .kNew := by
          intro heq
          apply hcontext
          simp [setEvents, setChannel, heq]
        have hlt := hinv.fd_lt hne
        apply absurd hge (Nat.not_le_of_lt hlt)
    . simp
  failed_eq := hinv.failed_eq

theorem bookkeeping_of_runs (hfd : Function.Injective fd) {as : List (Label χ)}
    (hruns : Runs ndebug fd as p)
    : Bookkeeping fd p ∧
      (∀ a, Permitted fd as p a → ∃ p', p.step ndebug fd a = .ok p') ∧
      ∀ events, KernelReports p events →
        ∃ p' activeChannels, p.poll ndebug fd (.ok events) = .ok (p', activeChannels) ∧
          List.Forall₂ (IsDelivered fd p p') events activeChannels := by
  have hinv := hruns.inv hfd
  refine ⟨hinv.inv.bookkeeping, ?_, ?_⟩
  . intro a ha
    have ⟨p', hp', _⟩ := hinv.step ndebug hfd ha
    apply Exists.intro p' hp'
  . intro events hevents
    have ⟨p', activeChannels, hpoll, _, hdelivered⟩ := poll_spec ndebug hinv.inv hevents
    apply Exists.intro p' ⟨activeChannels, hpoll, hdelivered⟩

theorem bookkeeping_of_runs_enableReading
    : ∃ p : EPollPoller Nat, Runs false id [.enableReading 70] p ∧ p.channels.length = 128 ∧
        Bookkeeping id p := by
  have hpermitted : Permitted id [] init (.enableReading 70) := by
    intro _
    decide
  have hinit : Runs false id [] (init : EPollPoller Nat) := .init
  have hruns := hinit.step hpermitted rfl
  apply Exists.intro _ ⟨hruns, rfl, (bookkeeping_of_runs Function.injective_id hruns).1⟩

end EPollPoller
end Claire
