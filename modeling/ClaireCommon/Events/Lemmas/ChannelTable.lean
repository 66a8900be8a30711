import ClaireCommon.Events.Impl.EPollPoller
import ClaireCommon.Lib.Except
import Mathlib.Data.List.Infix
import Mathlib.Data.List.Induction

/-!
This module contains when the table of the channels has room for the file descriptors: it is doubled
once, whatever the file descriptor is, and without DCHECKs nothing is looked at before a slot is cleared.
-/

namespace Claire
namespace EPollPoller

variable {χ : Type} {ndebug : Bool} {fd : χ → Nat} {p p' : EPollPoller χ} {c : χ}

def HasRoom (fd : χ → Nat) (p : EPollPoller χ) : Prop :=
  ∀ c, (p.channel c).context ≠ .kNew → fd c < p.channels.length

theorem hasRoom_init : HasRoom fd (init : EPollPoller χ) := by
  intro c h
  contradiction

structure Kept (p p' : EPollPoller χ) (c : χ) : Prop where
  length_le : p.channels.length ≤ p'.channels.length
  context_eq : ∀ d, d ≠ c → (p'.channel d).context = (p.channel d).context

theorem Kept.trans {m : EPollPoller χ} (h : Kept p m c) (h' : Kept m p' c) : Kept p p' c where
  length_le := Nat.le_trans h.length_le h'.length_le
  context_eq := by
    intro d hd
    rw [h'.context_eq d hd, h.context_eq d hd]

theorem Kept.hasRoom (h : Kept p p' c) (hroom : HasRoom fd p) (hlt : fd c < p'.channels.length)
    : HasRoom fd p' := by
  intro d hd
  by_cases hdc : d = c
  . rw [hdc]
    apply hlt
  . rw [h.context_eq d hdc] at hd
    apply Nat.lt_of_lt_of_le (hroom d hd) h.length_le

theorem kept_update (operation : Epoll.Operation) : Kept p (p.update fd operation c) c := by
  unfold update
  dsimp only
  split
  . exact ⟨Nat.le_refl _, fun _ _ => rfl⟩
  . exact ⟨Nat.le_refl _, fun _ _ => rfl⟩

theorem kept_unregister : Kept p (p.unregister fd c) c := by
  unfold unregister
  split
  . exact kept_update _
  . exact ⟨Nat.le_refl _, fun _ _ => rfl⟩

theorem kept_store {i : Nat} {value : Option χ} (h : p.store i value = .ok p') : Kept p p' c := by
  unfold store at h
  split at h
  . injection h with h
    rw [← h]
    constructor
    . simp
    . simp
  . contradiction

theorem store_ne {i : Nat} {value : Option χ} (hlt : i < p.channels.length)
    : p.store i value ≠ .error .outOfBounds := by
  unfold store
  rw [if_pos hlt]
  simp

theorem dcheck_ne {condition : Bool} : dcheck ndebug condition ≠ .error .outOfBounds := by
  unfold dcheck
  split <;> simp

structure Roomy (fd : χ → Nat) (p : EPollPoller χ) : Prop where
  room : HasRoom fd p
  pos : 0 < p.channels.length

structure Inside (fd : χ → Nat) (p : EPollPoller χ) (c : χ) (result : Except Stop (EPollPoller χ))
    : Prop where
  ne : result ≠ .error .outOfBounds
  kept : ∀ p', result = .ok p' → Kept p p' c
  lt : ∀ p', result = .ok p' → fd c < p'.channels.length

theorem Inside.ok (hlt : fd c < p.channels.length) (h : Kept p p' c) : Inside fd p c (.ok p') := by
  constructor
  . simp
  . intro q hq
    injection hq with hq
    rw [← hq]
    exact h
  . intro q hq
    injection hq with hq
    rw [← hq]
    apply Nat.lt_of_lt_of_le hlt h.length_le

theorem Inside.bind {α : Type} {x : Except Stop α} {f : α → Except Stop (EPollPoller χ)}
    (hx : x ≠ .error .outOfBounds) (hf : ∀ a, x = .ok a → Inside fd p c (f a))
    : Inside fd p c (x >>= f) := by
  cases x with
  | ok a => exact hf a rfl
  | error stop =>
    have hbind : (Except.error stop >>= f : Except Stop (EPollPoller χ)) = .error stop := rfl
    rw [hbind]
    constructor
    . intro heq
      injection heq with heq
      exact hx (congrArg Except.error heq)
    . intro p' h
      contradiction
    . intro p' h
      contradiction

theorem Inside.roomy (h : Inside fd p c (.ok p')) (hroomy : Roomy fd p) : Roomy fd p' where
  room := (h.kept p' rfl).hasRoom hroomy.room (h.lt p' rfl)
  pos := Nat.lt_of_lt_of_le hroomy.pos (h.kept p' rfl).length_le

variable [DecidableEq χ]

theorem kept_setContext (context : Channel.Context) : Kept p (p.setContext c context) c where
  length_le := Nat.le_refl _
  context_eq := by
    intro d hd
    simp [setContext, setChannel, hd]

theorem kept_setEvents (events : EventMask) : Kept p (p.setEvents c events) c where
  length_le := Nat.le_refl _
  context_eq := by
    intro d hd
    simp [setEvents, setChannel, hd]

theorem dcheckStored_ne (hlt : fd c < p.channels.length)
    : p.dcheckStored ndebug fd c ≠ .error .outOfBounds := by
  unfold dcheckStored load
  rw [List.getElem?_eq_getElem hlt]
  split
  . simp
  . exact dcheck_ne

theorem inside_updateReserved (hlt : fd c < p.channels.length)
    : Inside fd p c (p.updateReserved ndebug fd c) := by
  unfold updateReserved
  split
  . apply Inside.bind (store_ne hlt)
    intro m hm
    apply Inside.ok hlt
    exact (kept_store hm).trans ((kept_setContext _).trans (kept_update _))
  . apply Inside.bind (dcheckStored_ne hlt)
    intro _ _
    apply Inside.ok hlt
    exact (kept_setContext _).trans (kept_update _)
  . apply Inside.bind (dcheckStored_ne hlt)
    intro _ _
    split
    . apply Inside.ok hlt
      exact (kept_update _).trans (kept_setContext _)
    . apply Inside.ok hlt
      exact kept_update _

theorem inside_removeChannel (hfits : ndebug = true → fd c < p.channels.length)
    : Inside fd p c (p.removeChannel ndebug fd c) := by
  unfold removeChannel
  apply Inside.bind dcheck_ne
  intro _ hdcheck
  have hlt : fd c < p.channels.length := by
    unfold dcheck at hdcheck
    split at hdcheck
    next h =>
      cases ndebug with
      | true => exact hfits rfl
      | false => simpa using h
    next => contradiction
  apply Inside.bind (dcheckStored_ne hlt)
  intro _ _
  apply Inside.bind dcheck_ne
  intro _ _
  apply Inside.bind dcheck_ne
  intro _ _
  have hkept : Kept p ((p.unregister fd c).setContext c .kNew) c :=
    kept_unregister.trans (kept_setContext _)
  constructor
  . apply store_ne
    apply Nat.lt_of_lt_of_le hlt hkept.length_le
  . intro p' hp'
    exact hkept.trans (kept_store hp')
  . intro p' hp'
    apply Nat.lt_of_lt_of_le hlt (hkept.trans (kept_store (c := c) hp')).length_le

theorem removeChannel_outOfBounds (hfits : p.channels.length ≤ fd c)
    : p.removeChannel true fd c = .error .outOfBounds := by
  have hlength : ((p.unregister fd c).setContext c .kNew).channels = p.channels := by
    unfold unregister update
    dsimp only
    split
    . split <;> rfl
    . rfl
  change ((p.unregister fd c).setContext c .kNew).store (fd c) none = _
  unfold store
  rw [hlength, if_neg (Nat.not_lt.mpr hfits)]

inductive Call (χ : Type) where
  | updateChannel (c : χ) (events : EventMask)
  | removeChannel (c : χ)

def call (ndebug : Bool) (fd : χ → Nat) (p : EPollPoller χ) : Call χ → Except Stop (EPollPoller χ)
  | .updateChannel c events => (p.setEvents c events).updateChannel ndebug fd c
  | .removeChannel c => p.removeChannel ndebug fd c

def callAll (ndebug : Bool) (fd : χ → Nat) (p : EPollPoller χ) (calls : List (Call χ))
    : Except Stop (EPollPoller χ) :=
  calls.foldlM (call ndebug fd) p

-- Only a build with DCHECKs looks at the file descriptor before the slot of a removed channel is cleared.
def Call.Fits (ndebug : Bool) (fd : χ → Nat) (p : EPollPoller χ) : Call χ → Prop
  | .updateChannel c _ => fd c < 2 * p.channels.length
  | .removeChannel c => ndebug = true → fd c < p.channels.length

variable {calls : List (Call χ)}

theorem callAll_append_eq_ok {calls' : List (Call χ)}
    : callAll ndebug fd p (calls ++ calls') = .ok p' ↔
        ∃ m, callAll ndebug fd p calls = .ok m ∧ callAll ndebug fd m calls' = .ok p' := by
  unfold callAll
  rw [List.foldlM_append, Except.bind_eq_ok]

theorem callAll_singleton (a : Call χ) : callAll ndebug fd p [a] = call ndebug fd p a := by
  unfold callAll
  simp

-- The doubled table is the last one that the file descriptor is tried on.
theorem inside_updateChannel (hroom : HasRoom fd p) (hfits : fd c < 2 * p.channels.length)
    : Inside fd p c (p.updateChannel ndebug fd c) := by
  unfold updateChannel reserve
  split
  next q hq =>
    have hkept : Kept p q c ∧ fd c < q.channels.length := by
      split at hq
      . split at hq
        . injection hq with hq
          rw [← hq]
          refine ⟨⟨?_, fun _ _ => rfl⟩, ?_⟩
          . simp
          . simp
            omega
        . contradiction
      . injection hq with hq
        rw [← hq]
        exact ⟨⟨Nat.le_refl _, fun _ _ => rfl⟩, by omega⟩
    have hinside : Inside fd q c (q.updateReserved ndebug fd c) := inside_updateReserved hkept.2
    constructor
    . exact hinside.ne
    . intro p' hp'
      exact hkept.1.trans (hinside.kept p' hp')
    . exact hinside.lt
  next hnone =>
    split at hnone
    . split at hnone
      . contradiction
      . next hge hnew =>
        have := hroom c hnew
        omega
    . contradiction

theorem updateChannel_outOfBounds (hroom : HasRoom fd p) (hfits : 2 * p.channels.length ≤ fd c)
    (hpos : 0 < p.channels.length) : p.updateChannel ndebug fd c = .error .outOfBounds := by
  have hnew : (p.channel c).context = .kNew := by
    by_contra hne
    have := hroom c hne
    omega
  unfold updateChannel reserve
  rw [if_pos (by omega), if_pos hnew]
  dsimp only
  unfold updateReserved
  dsimp only
  rw [hnew]
  dsimp only
  unfold store
  rw [if_neg]
  . rfl
  . simp
    omega

theorem roomy_setEvents (h : Roomy fd p) (events : EventMask) : Roomy fd (p.setEvents c events) where
  room := by
    intro d hd
    apply h.room d
    by_cases hdc : d = c
    . rw [hdc] at hd ⊢
      simpa [setEvents, setChannel] using hd
    . rw [(kept_setEvents events).context_eq d hdc] at hd
      exact hd
  pos := h.pos

theorem inside_call (h : Roomy fd p) (events : EventMask) (hfits : fd c < 2 * p.channels.length)
    : Inside fd (p.setEvents c events) c (call ndebug fd p (.updateChannel c events)) :=
  inside_updateChannel (roomy_setEvents h events).room hfits

theorem call_updateChannel_iff (h : Roomy fd p) (events : EventMask)
    : call ndebug fd p (.updateChannel c events) ≠ .error .outOfBounds ↔ fd c < 2 * p.channels.length := by
  constructor
  . intro hne
    by_contra hfits
    have hevents := roomy_setEvents (c := c) h events
    apply hne
    apply updateChannel_outOfBounds hevents.room (Nat.le_of_not_lt hfits) hevents.pos
  . intro hfits
    exact (inside_call h events hfits).ne

theorem call_removeChannel_iff (p : EPollPoller χ)
    : call ndebug fd p (.removeChannel c) ≠ .error .outOfBounds
        ↔ (ndebug = true → fd c < p.channels.length) := by
  constructor
  . intro hne hndebug
    by_contra hfits
    subst hndebug
    exact hne (removeChannel_outOfBounds (Nat.le_of_not_lt hfits))
  . intro hfits
    exact (inside_removeChannel hfits).ne

theorem call_iff_fits (h : Roomy fd p) (a : Call χ)
    : call ndebug fd p a ≠ .error .outOfBounds ↔ a.Fits ndebug fd p := by
  cases a with
  | updateChannel c events => exact call_updateChannel_iff h events
  | removeChannel c => exact call_removeChannel_iff p

theorem Roomy.call (h : Roomy fd p) {a : Call χ} (hcall : call ndebug fd p a = .ok p') : Roomy fd p' := by
  have hfits : a.Fits ndebug fd p := (call_iff_fits h a).mp (by simp [hcall])
  cases a with
  | updateChannel c events =>
    have hinside : Inside fd (p.setEvents c events) c
        (EPollPoller.call ndebug fd p (.updateChannel c events)) :=
      inside_call h events hfits
    rw [hcall] at hinside
    exact hinside.roomy (roomy_setEvents h events)
  | removeChannel c =>
    have hinside : Inside fd p c (EPollPoller.call ndebug fd p (.removeChannel c)) :=
      inside_removeChannel hfits
    rw [hcall] at hinside
    exact hinside.roomy h

theorem roomy_callAll (h : callAll ndebug fd init calls = .ok p) : Roomy fd p := by
  induction calls using List.reverseRecOn generalizing p with
  | nil =>
    injection h with h
    rw [← h]
    exact ⟨hasRoom_init, by simp [init]⟩
  | append_singleton calls a ih =>
    rw [callAll_append_eq_ok] at h
    have ⟨m, hm, hcall⟩ := h
    rw [callAll_singleton] at hcall
    exact (ih hm).call hcall

theorem callAll_append_of_ok {calls' : List (Call χ)} (h : callAll ndebug fd p calls = .ok p')
    : callAll ndebug fd p (calls ++ calls') = callAll ndebug fd p' calls' := by
  unfold callAll at *
  rw [List.foldlM_append, h]
  rfl

theorem callAll_append_of_error {calls' : List (Call χ)} {stop : Stop}
    (h : callAll ndebug fd p calls = .error stop) : callAll ndebug fd p (calls ++ calls') = .error stop := by
  unfold callAll at *
  rw [List.foldlM_append, h]
  rfl

theorem callAll_inside_iff
    : callAll ndebug fd init calls ≠ .error .outOfBounds ↔
        ∀ before a p, before ++ [a] <+: calls → callAll ndebug fd init before = .ok p →
          a.Fits ndebug fd p := by
  constructor
  . intro hne before a p hbegins hbefore
    rw [← call_iff_fits (roomy_callAll hbefore) a]
    intro hcall
    apply hne
    have ⟨rest, heq⟩ := hbegins
    rw [← heq]
    apply callAll_append_of_error
    rw [callAll_append_of_ok hbefore, callAll_singleton, hcall]
  . intro h
    induction calls using List.reverseRecOn with
    | nil => simp [callAll, pure, Except.pure]
    | append_singleton calls a ih =>
      have hbefore := ih (by
        intro before a p hbegins
        exact h before a p (hbegins.trans (List.prefix_append _ _)))
      cases hcalls : callAll ndebug fd init calls with
      | error stop =>
        rw [callAll_append_of_error hcalls, ← hcalls]
        exact hbefore
      | ok p =>
        rw [callAll_append_of_ok hcalls, callAll_singleton, call_iff_fits (roomy_callAll hcalls)]
        exact h calls a p (List.prefix_refl _) hcalls

-- A new table has room for 64 channels, the doubled one for 128.
theorem not_inside_128
    : callAll false id init [.updateChannel 128 Channel.kReadEvent] = .error .outOfBounds := by
  rfl

end EPollPoller
end Claire
