import ClaireCommon.Metrics.Impl.Counting
import ClaireCommon.Metrics.Lemmas.Counter

/-!
This module contains what the values of the counters add up to while threads count.
-/

namespace Claire
namespace Counting

open Counter

variable {s s' : Process}

structure Advances (s s' : Process) : Prop where
  grows : Process.Grows s s'
  ignored : ∀ name, s.provider.Ignored name → s'.provider.Ignored name
  counters : ∀ (k : Nat) (c : Counter), s.counters[k]? = some c → ∃ c' : Counter,
    s'.counters[k]? = some c' ∧ c'.name = c.name ∧ (c.counterId ≠ -1 → c'.counterId = c.counterId)

theorem Advances.gives (h : Advances s s') {name : String} {id : Int}
    (hgives : s.provider.Gives name id) : s'.provider.Gives name id := by
  cases hgives with
  | inl hzero => exact Or.inl ⟨hzero.1, h.ignored name hzero.2⟩
  | inr hmem => exact Or.inr (h.grows.counters hmem)

theorem Advances.of_same {provider : CounterProvider} {threads : Int → Option Int}
    (hgrows : s.provider.Grows provider) (hcounters : provider.counters = s.provider.counters)
    : Advances s { s with provider := provider, threads := threads } where
  grows := hgrows
  ignored := by
    intro name hname
    unfold CounterProvider.Ignored
    rw [hcounters, hgrows.maxCounters]
    exact hname
  counters := by
    intro k c hc
    exact ⟨c, hc, rfl, fun _ => rfl⟩

theorem Advances.refl (s : Process) : Advances s s :=
  Advances.of_same (CounterProvider.Grows.refl _) rfl

theorem advances_of_enters {provider : CounterProvider} {name : String}
    (h : s.provider.Enters provider name) : Advances s { s with provider := provider } where
  grows := h.grows
  ignored := by
    intro name' hname
    have := h.2.1
    have := hname.1
    omega
  counters := by
    intro k c hc
    exact ⟨c, hc, rfl, fun _ => rfl⟩

theorem gives_unique (hinv : s.provider.Inv) {name : String} {id id' : Int}
    (h : s.provider.Gives name id) (h' : s.provider.Gives name id') : id = id' := by
  cases h with
  | inl hzero =>
    cases h' with
    | inl hzero' => rw [hzero.1, hzero'.1]
    | inr hmem' => exact absurd (List.mem_map_of_mem hmem') hzero.2.2
  | inr hmem =>
    cases h' with
    | inl hzero' => exact absurd (List.mem_map_of_mem hmem) hzero'.2.2
    | inr hmem' => exact hinv.counters.number_unique hmem hmem'

def Found (s : Process) (tid : Int) (c : Counter) : Access → Prop
  | .test | .lookup => True
  | .store counterId => s.provider.Gives c.name counterId
  | .check => c.counterId ≠ -1
  | .locate => 0 < c.counterId
  | .load loc => s.Cell c.name tid loc
  | .write loc old => s.Cell c.name tid loc ∧ s.provider.data loc = old
  | .ignore => s.provider.Ignored c.name

theorem Found.mono {tid : Int} {c c' : Counter} {access : Access} (h : Found s tid c access)
    (hadvances : Advances s s') (hname : c'.name = c.name)
    (hid : c.counterId ≠ -1 → c'.counterId = c.counterId)
    (hdata : ∀ name loc, s.Cell name tid loc → s'.provider.data loc = s.provider.data loc)
    : Found s' tid c' access := by
  cases access with
  | test => trivial
  | lookup => trivial
  | store counterId =>
    dsimp only [Found] at h ⊢
    rw [hname]
    exact hadvances.gives h
  | check =>
    dsimp only [Found] at h ⊢
    rw [hid h]
    exact h
  | locate =>
    dsimp only [Found] at h ⊢
    rw [hid (by omega)]
    exact h
  | load loc =>
    dsimp only [Found] at h ⊢
    rw [hname]
    exact h.mono hadvances.grows
  | write loc old =>
    dsimp only [Found] at h ⊢
    rw [hname, hdata c.name loc h.1]
    exact ⟨h.1.mono hadvances.grows, h.2⟩
  | ignore =>
    dsimp only [Found] at h ⊢
    rw [hname]
    exact hadvances.ignored c.name h

structure ProcessInv (tids : Finset Int) (s : Process) : Prop where
  process : s.Inv
  ids : ∀ c ∈ s.counters, c.counterId = -1 ∨ s.provider.Gives c.name c.counterId
  slots : ∀ tid slot, (tid, slot) ∈ s.provider.slots → tid ∈ tids ∧ s.threads tid = some slot

structure Inv (tids : Finset Int) (s : Counting) : Prop where
  process : ProcessInv tids s.process
  calls : ∀ tid call, s.calls tid = some call → tid ∈ tids
    ∧ ∃ c, s.process.counters[call.k]? = some c ∧ Found s.process tid c call.access

variable {tids : Finset Int}

theorem slotFree (hinv : ProcessInv tids s) (hcard : tids.card ≤ s.provider.maxThreads) {tid : Int}
    (htid : tid ∈ tids) (hslot : s.threads tid = some 0) : s.provider.SlotFree tid := by
  have hnot : tid ∉ s.provider.slots.map Prod.fst := by
    intro hmem
    rw [List.mem_map] at hmem
    have ⟨entry, hentry, heq⟩ := hmem
    have ⟨_, hslot'⟩ := hinv.slots entry.1 entry.2 hentry
    have := hinv.process.provider.slots.range hentry
    rw [heq, hslot] at hslot'
    injection hslot' with hslot'
    omega
  constructor
  . have hsubset : (s.provider.slots.map Prod.fst).toFinset ⊆ tids.erase tid := by
      intro tid' hmem
      rw [List.mem_toFinset] at hmem
      rw [Finset.mem_erase]
      constructor
      . intro heq
        rw [heq] at hmem
        exact hnot hmem
      . have ⟨entry, hentry, heq⟩ := List.mem_map.mp hmem
        rw [← heq]
        exact (hinv.slots entry.1 entry.2 hentry).1
    have hle := Finset.card_le_card hsubset
    rw [List.toFinset_card_of_nodup hinv.process.provider.slots.keys_nodup, List.length_map,
      Finset.card_erase_of_mem htid] at hle
    have hpos : 0 < tids.card := Finset.card_pos.mpr ⟨tid, htid⟩
    omega
  . exact hnot

theorem Inv.calls_of_advances {s : Counting} {process : Process} (hinv : Inv tids s)
    (hadvances : Advances s.process process) {tid : Int} {call : Call} (hcall : s.calls tid = some call)
    (hdata : ∀ name loc, s.process.Cell name tid loc →
      process.provider.data loc = s.process.provider.data loc)
    : tid ∈ tids ∧ ∃ c, process.counters[call.k]? = some c ∧ Found process tid c call.access := by
  have ⟨htid, c, hc, hfound⟩ := hinv.calls tid call hcall
  have ⟨c', hc', hname, hid⟩ := hadvances.counters call.k c hc
  exact ⟨htid, c', hc', hfound.mono hadvances hname hid hdata⟩

theorem Inv.of_advances {s : Counting} {process : Process} (hinv : Inv tids s)
    (hprocess : ProcessInv tids process) (hadvances : Advances s.process process)
    (hdata : process.provider.data = s.process.provider.data)
    : Inv tids { s with process := process } where
  process := hprocess
  calls := by
    intro tid call hcall
    apply hinv.calls_of_advances hadvances hcall
    intro name loc _
    rw [hdata]

theorem Inv.found {s : Counting} (hinv : Inv tids s) {tid : Int} {call : Call} {c : Counter}
    (hcall : s.calls tid = some call) (hc : s.process.counters[call.k]? = some c)
    : tid ∈ tids ∧ Found s.process tid c call.access := by
  have ⟨htid, c', hc', hfound⟩ := hinv.calls tid call hcall
  rw [hc, Option.some.injEq] at hc'
  rw [← hc'] at hfound
  exact ⟨htid, hfound⟩

theorem Inv.goOn {s : Counting} {process : Process} {tid : Int} {call : Option Call} (hinv : Inv tids s)
    (hprocess : ProcessInv tids process) (hadvances : Advances s.process process)
    (hdata : ∀ tid' name loc, tid' ≠ tid → s.process.Cell name tid' loc →
      process.provider.data loc = s.process.provider.data loc)
    (hcall : ∀ call', call = some call' → tid ∈ tids
      ∧ ∃ c, process.counters[call'.k]? = some c ∧ Found process tid c call'.access)
    : Inv tids (s.goOn process tid call) where
  process := hprocess
  calls := by
    intro tid' call' hcall'
    dsimp only [Counting.goOn] at hcall' ⊢
    by_cases htid : tid' = tid
    . rw [htid, Function.update_self] at hcall'
      rw [htid]
      exact hcall call' hcall'
    . rw [Function.update_of_ne htid] at hcall'
      apply hinv.calls_of_advances hadvances hcall'
      intro name loc
      exact hdata tid' name loc htid

def Keeps (p p' : CounterProvider) : Prop :=
  p'.counters = p.counters
    ∨ ∃ name, name ∉ p.counters.map Prod.fst ∧ p.counters.length < p.maxCounters
        ∧ p'.counters = p.counters ++ [(name, (p.counters.length : Int) + 1)]

theorem getCounterId_spec (hinv : ProcessInv tids s) {name : String} {id : Int}
    {provider : CounterProvider} (h : s.provider.getCounterId name = (id, provider))
    : ProcessInv tids { s with provider := provider } ∧ Advances s { s with provider := provider }
        ∧ provider.data = s.provider.data ∧ Keeps s.provider provider
        ∧ provider.Gives name id := by
  have ⟨hgives, hprovider⟩ := CounterProvider.getCounterId_cases hinv.process.provider h
  cases hprovider with
  | inl hsame =>
    rw [hsame] at hgives ⊢
    exact ⟨hinv, Advances.refl _, rfl, Or.inl rfl, hgives⟩
  | inr henters =>
    have hadvances := advances_of_enters henters
    have hprocess := hinv.process.of_grows (henters.inv hinv.process.provider) henters.grows
    have hslots : provider.slots = s.provider.slots := by rw [henters.2.2]
    have hdata : provider.data = s.provider.data := by rw [henters.2.2]
    refine ⟨?_, hadvances, hdata, ?_, hgives⟩
    . constructor
      . exact hprocess
      . intro c hc
        exact (hinv.ids c hc).imp_right hadvances.gives
      . dsimp only
        rw [hslots]
        exact hinv.slots
    . apply Or.inr
      exists name
      refine ⟨henters.1, henters.2.1, ?_⟩
      rw [henters.2.2]

theorem store_spec (hinv : ProcessInv tids s) {k : Nat} {c : Counter} {id : Int}
    (hc : s.counters[k]? = some c) (hgives : s.provider.Gives c.name id)
    : ProcessInv tids { s with counters := s.counters.set k { c with counterId := id } }
        ∧ Advances s { s with counters := s.counters.set k { c with counterId := id } } := by
  constructor
  . constructor
    . exact { hinv.process with
        counters := by
          intro c' hc'
          cases List.mem_or_eq_of_mem_set hc' with
          | inl hold => exact hinv.process.counters c' hold
          | inr hnew =>
            rw [hnew]
            exact Or.inr (hgives.imp_left And.left) }
    . intro c' hc'
      cases List.mem_or_eq_of_mem_set hc' with
      | inl hold => exact hinv.ids c' hold
      | inr hnew =>
        rw [hnew]
        exact Or.inr hgives
    . exact hinv.slots
  . constructor
    . exact CounterProvider.Grows.refl _
    . intro name hname
      exact hname
    . intro k' c' hc'
      dsimp only
      rw [List.getElem?_set]
      split
      . next heq =>
        rw [← heq, hc] at hc'
        injection hc' with hc'
        have hlt : k < s.counters.length := by
          apply Classical.byContradiction
          intro hge
          rw [List.getElem?_eq_none (by omega)] at hc
          contradiction
        rw [if_pos hlt, ← hc']
        refine ⟨_, rfl, rfl, ?_⟩
        intro hne
        have hold := (hinv.ids c (List.mem_of_getElem? hc)).resolve_left hne
        exact gives_unique hinv.process.provider hgives hold
      . exact ⟨c', hc', rfl, fun _ => rfl⟩

theorem locate_spec (hinv : ProcessInv tids s) (hcard : tids.card ≤ s.provider.maxThreads)
    {name : String} {tid slot id loc : Int} (htid : tid ∈ tids) (hslot : s.threads tid = some slot)
    (hid : (name, id) ∈ s.provider.counters) (h : s.getLocation tid slot id = (loc, s'))
    : ProcessInv tids s' ∧ Advances s s' ∧ s'.provider.data = s.provider.data
        ∧ s'.provider.counters = s.provider.counters ∧ s'.counters = s.counters
        ∧ s'.Cell name tid loc := by
  have hfree : slot = 0 → s.provider.SlotFree tid := by
    intro hzero
    rw [hzero] at hslot
    exact slotFree hinv hcard htid hslot
  have ⟨hprocess, hgrows, hdata, slotId, hslotId, hloc⟩ :=
    Process.getLocation_spec hinv.process hslot hid hfree h
  unfold Process.getLocation at h
  cases hres : s.provider.getSlotId tid slot with
  | mk slotId' res =>
    cases res with
    | mk slot' provider =>
      rw [hres] at h
      injection h with _ hs
      have ⟨_, _, _, hcounters, hslot', hmem, hslots⟩ :=
        CounterProvider.getSlotId_spec hinv.process.provider
          (hinv.process.threads tid slot hslot) hfree hres
      rw [← hs] at hprocess hgrows hdata hslotId ⊢
      have hadvances : Advances s { s with
          provider := provider, threads := Function.update s.threads tid (some slot') } :=
        Advances.of_same hgrows hcounters
      refine ⟨?_, hadvances, hdata, hcounters, rfl, ?_⟩
      . constructor
        . exact hprocess
        . intro c hc
          exact (hinv.ids c hc).imp_right hadvances.gives
        . intro tid' slot'' hmem'
          dsimp only at hmem' ⊢
          by_cases heq : tid' = tid
          . rw [heq] at hmem' ⊢
            rw [Function.update_self, hslot',
              hprocess.provider.slots.number_unique hmem' hmem]
            exact ⟨htid, rfl⟩
          . rw [Function.update_of_ne heq]
            apply hinv.slots
            cases hslots with
            | inl hsame =>
              rw [← hsame]
              exact hmem'
            | inr hnew =>
              rw [hnew, List.mem_append, List.mem_singleton, Prod.mk.injEq] at hmem'
              exact hmem'.resolve_right (fun hpair => heq hpair.1)
      . rw [hloc, ← hgrows.maxThreads]
        exact ⟨id, slotId, hgrows.counters hid, hslotId, rfl⟩

theorem access_spec (hinv : ProcessInv tids s) (hcard : tids.card ≤ s.provider.maxThreads)
    {tid slot : Int} {c : Counter} {call : Call} {next : Access} (htid : tid ∈ tids)
    (hslot : s.threads tid = some slot) (hc : s.counters[call.k]? = some c)
    (hfound : Found s tid c call.access) (h : access s tid slot c call = some (next, s'))
    : ProcessInv tids s' ∧ Advances s s' ∧ s'.provider.data = s.provider.data
        ∧ Keeps s.provider s'.provider
        ∧ ∃ c', s'.counters[call.k]? = some c' ∧ Found s' tid c' next := by
  have hrefl := Advances.refl s
  have hids := hinv.ids c (List.mem_of_getElem? hc)
  unfold access at h
  cases hcall : call.access with
  | test =>
    rw [hcall] at h
    simp only [Option.some.injEq, Prod.mk.injEq] at h
    rw [← h.1, ← h.2]
    refine ⟨hinv, hrefl, rfl, Or.inl rfl, c, hc, ?_⟩
    split
    . trivial
    . next hne => exact hne
  | lookup =>
    rw [hcall] at h
    simp only [Option.some.injEq, Prod.mk.injEq] at h
    rw [← h.1, ← h.2]
    have ⟨hprocess, hadvances, hdata, hkeeps, hgives⟩ :=
      getCounterId_spec hinv (show s.provider.getCounterId c.name = (_, _) from rfl)
    exact ⟨hprocess, hadvances, hdata, hkeeps, c, hc, hgives⟩
  | store counterId =>
    rw [hcall] at h hfound
    simp only [Option.some.injEq, Prod.mk.injEq] at h
    rw [← h.1, ← h.2]
    have ⟨hprocess, hadvances⟩ := store_spec hinv hc hfound
    have ⟨c', hc', _⟩ := hadvances.counters call.k c hc
    refine ⟨hprocess, hadvances, rfl, Or.inl rfl, c', hc', ?_⟩
    dsimp only at hc'
    rw [List.getElem?_set, if_pos rfl] at hc'
    split at hc'
    . injection hc' with hc'
      rw [← hc']
      dsimp only [Found]
      cases hfound with
      | inl hzero => omega
      | inr hmem =>
        have := hinv.process.provider.counters.range hmem
        omega
    . contradiction
  | check =>
    rw [hcall] at h hfound
    simp only [Option.some.injEq, Prod.mk.injEq] at h
    rw [← h.1, ← h.2]
    refine ⟨hinv, hrefl, rfl, Or.inl rfl, c, hc, ?_⟩
    have hgives := hids.resolve_left hfound
    split
    . next hpos => exact hpos
    . next hneg =>
      cases hgives with
      | inl hzero => exact hzero.2
      | inr hmem =>
        have := hinv.process.provider.counters.range hmem
        omega
  | locate =>
    rw [hcall] at h hfound
    dsimp only [Found] at hfound
    have hid : (c.name, c.counterId) ∈ s.provider.counters := by
      have hgives := hids.resolve_left (by omega)
      apply hgives.resolve_left
      omega
    cases hloc : s.getLocation tid slot c.counterId with
    | mk loc m =>
      rw [hloc] at h
      simp only [Option.some.injEq, Prod.mk.injEq] at h
      rw [← h.1, ← h.2]
      have ⟨hprocess, hadvances, hdata, hnames, hcounters, hcell⟩ :=
        locate_spec hinv hcard htid hslot hid hloc
      rw [hcounters]
      exact ⟨hprocess, hadvances, hdata, Or.inl hnames, c, hc, hcell⟩
  | load loc =>
    rw [hcall] at h hfound
    simp only [Option.some.injEq, Prod.mk.injEq] at h
    rw [← h.1, ← h.2]
    exact ⟨hinv, hrefl, rfl, Or.inl rfl, c, hc, hfound, rfl⟩
  | write loc old =>
    rw [hcall] at h
    contradiction
  | ignore =>
    rw [hcall] at h
    contradiction

-- The sum that a call gives is written, unless its counter has no id.
def Adds (s s' : Process) (tid : Int) (name : String) (delta : Int) : Prop :=
  s.provider.Ignored name ∧ s' = s
    ∨ ∃ loc, s.Cell name tid loc ∧ s' = s.write loc (.set (int32 (s.provider.data loc + delta)))

theorem finish_spec {tid : Int} {c : Counter} {call : Call} (hfound : Found s tid c call.access)
    (h : finish s call = some s') : Adds s s' tid c.name call.value := by
  unfold finish at h
  split at h
  . next loc old hcall =>
    rw [hcall] at hfound
    injection h with h
    apply Or.inr
    exists loc
    rw [hfound.2]
    exact ⟨hfound.1, h.symm⟩
  . next hcall =>
    rw [hcall] at hfound
    injection h with h
    exact Or.inl ⟨hfound, h.symm⟩
  . contradiction

theorem write_spec (hinv : ProcessInv tids s) (loc : Int) (update : Process.Update)
    : ProcessInv tids (s.write loc update) ∧ Advances s (s.write loc update) := by
  constructor
  . constructor
    . exact Process.write_inv hinv.process
    . exact hinv.ids
    . exact hinv.slots
  . exact Advances.of_same (Process.write_grows s loc update) rfl

theorem Adds.spec (hinv : ProcessInv tids s) {tid : Int} {name : String} {delta : Int}
    (h : Adds s s' tid name delta)
    : ProcessInv tids s' ∧ Advances s s' ∧ ∀ tid' name' loc, tid' ≠ tid → s.Cell name' tid' loc →
        s'.provider.data loc = s.provider.data loc := by
  cases h with
  | inl hignored =>
    rw [hignored.2]
    refine ⟨hinv, Advances.refl s, ?_⟩
    intro tid' name' loc _ _
    rfl
  | inr hcell =>
    have ⟨loc, hcell, hs⟩ := hcell
    rw [hs]
    have ⟨hprocess, hadvances⟩ := write_spec hinv loc (.set (int32 (s.provider.data loc + delta)))
    refine ⟨hprocess, hadvances, ?_⟩
    intro tid' name' loc' hne hcell'
    dsimp only [Process.write]
    rw [Function.update_of_ne]
    intro heq
    rw [heq] at hcell'
    exact hne (Process.Cell.unique hinv.process hcell' hcell).2

def Effect (s s' : Process) : Label → Prop
  | .ret tid name delta => Adds s s' tid name delta
  | _ => s'.provider.data = s.provider.data ∧ Keeps s.provider s'.provider

theorem createThread_spec (hinv : ProcessInv tids s) {tid : Int}
    (h : s.step (.createThread tid) = some s')
    : ProcessInv tids s' ∧ Advances s s' ∧ s'.provider = s.provider := by
  have ⟨hprocess, hgrows⟩ := Process.inv_step hinv.process (a := .createThread tid) trivial h
  dsimp only [Process.step] at h
  split at h
  . contradiction
  . next hnone =>
    injection h with h
    rw [← h] at hprocess hgrows ⊢
    refine ⟨⟨hprocess, hinv.ids, ?_⟩, Advances.of_same hgrows rfl, rfl⟩
    intro tid' slot hmem
    have ⟨htid, hslot⟩ := hinv.slots tid' slot hmem
    have hne : tid' ≠ tid := by
      intro heq
      rw [heq, hnone] at hslot
      contradiction
    dsimp only
    rw [Function.update_of_ne hne]
    exact ⟨htid, hslot⟩

theorem createCounter_spec (hinv : ProcessInv tids s) {name : String}
    (h : s.step (.createCounter name) = some s')
    : ProcessInv tids s' ∧ Advances s s' ∧ s'.provider = s.provider := by
  have ⟨hprocess, hgrows⟩ := Process.inv_step hinv.process (a := .createCounter name) trivial h
  dsimp only [Process.step] at h
  injection h with h
  rw [← h] at hprocess hgrows ⊢
  refine ⟨⟨hprocess, ?_, hinv.slots⟩, ⟨hgrows, fun _ hname => hname, ?_⟩, rfl⟩
  . intro c hc
    rw [List.mem_append, List.mem_singleton] at hc
    cases hc with
    | inl hold => exact hinv.ids c hold
    | inr hnew =>
      rw [hnew]
      exact Or.inl rfl
  . intro k c hc
    exists c
    dsimp only
    rw [List.getElem?_append_left (List.getElem?_eq_some_iff.mp hc).1]
    exact ⟨hc, rfl, fun _ => rfl⟩

def CallerIn (tids : Finset Int) : Label → Prop
  | .call tid _ _ => tid ∈ tids
  | _ => True

theorem step_spec {s s' : Counting} {a : Label} (hinv : Inv tids s)
    (hcard : tids.card ≤ s.process.provider.maxThreads) (hcaller : CallerIn tids a)
    (h : step s a = some s')
    : Inv tids s' ∧ Advances s.process s'.process ∧ Effect s.process s'.process a := by
  cases a with
  | createThread tid =>
    simp only [step, Option.bind_eq_bind, Option.bind_eq_some_iff] at h
    have ⟨process, hstep, h⟩ := h
    injection h with h
    rw [← h]
    have ⟨hprocess, hadvances, hprovider⟩ := createThread_spec hinv.process hstep
    refine ⟨hinv.of_advances hprocess hadvances (by rw [hprovider]), hadvances, ?_⟩
    dsimp only [Effect]
    rw [hprovider]
    exact ⟨rfl, Or.inl rfl⟩
  | createCounter name =>
    simp only [step, Option.bind_eq_bind, Option.bind_eq_some_iff] at h
    have ⟨process, hstep, h⟩ := h
    injection h with h
    rw [← h]
    have ⟨hprocess, hadvances, hprovider⟩ := createCounter_spec hinv.process hstep
    refine ⟨hinv.of_advances hprocess hadvances (by rw [hprovider]), hadvances, ?_⟩
    dsimp only [Effect]
    rw [hprovider]
    exact ⟨rfl, Or.inl rfl⟩
  | getCounterId name =>
    simp only [step, Option.bind_eq_bind, Option.bind_eq_some_iff] at h
    have ⟨process, hstep, h⟩ := h
    injection h with h
    dsimp only [Process.step] at hstep
    injection hstep with hstep
    rw [← h, ← hstep]
    have ⟨hprocess, hadvances, hdata, hkeeps, _⟩ := getCounterId_spec hinv.process
      (show s.process.provider.getCounterId name = (_, _) from rfl)
    exact ⟨hinv.of_advances hprocess hadvances hdata, hadvances, hdata, hkeeps⟩
  | call tid k operation =>
    dsimp only [step] at h
    split at h
    . next slot c hslot hc hcall =>
      injection h with h
      rw [← h]
      have hadvances := Advances.refl s.process
      refine ⟨?_, hadvances, rfl, Or.inl rfl⟩
      apply hinv.goOn hinv.process hadvances
      . intro tid' name loc _ _
        rfl
      . intro call' hcall'
        injection hcall' with hcall'
        rw [← hcall']
        exact ⟨hcaller, c, hc, trivial⟩
    . contradiction
  | access tid =>
    dsimp only [step] at h
    split at h
    . next slot call hslot hcall =>
      simp only [Option.bind_eq_bind, Option.bind_eq_some_iff] at h
      have ⟨c, hc, ⟨next, process⟩, haccess, h⟩ := h
      injection h with h
      rw [← h]
      have ⟨htid, hfound⟩ := hinv.found hcall hc
      have ⟨hprocess, hadvances, hdata, hkeeps, hnext⟩ :=
        access_spec hinv.process hcard htid hslot hc hfound haccess
      refine ⟨?_, hadvances, hdata, hkeeps⟩
      apply hinv.goOn hprocess hadvances
      . intro tid' name loc _ _
        rw [hdata]
      . intro call' hcall'
        injection hcall' with hcall'
        rw [← hcall']
        exact ⟨htid, hnext⟩
    . contradiction
  | ret tid name delta =>
    dsimp only [step] at h
    split at h
    . next call hcall =>
      simp only [Option.bind_eq_bind, Option.bind_eq_some_iff] at h
      have ⟨c, hc, process, hfinish, h⟩ := h
      split at h
      . next hlabel =>
        injection h with h
        rw [← h]
        have ⟨_, hfound⟩ := hinv.found hcall hc
        have hadds := finish_spec hfound hfinish
        rw [hlabel.1, hlabel.2] at hadds
        have ⟨hprocess, hadvances, hdata⟩ := hadds.spec hinv.process
        refine ⟨?_, hadvances, hadds⟩
        apply hinv.goOn hprocess hadvances hdata
        intro call' hcall'
        contradiction
      . contradiction
    . contradiction

-- `int32` of the sums, since that of the cells of a row may be no `int`
structure Counts (s₀ : Process) (as : List Label) (s : Process) : Prop where
  entered : ∀ name id, (name, id) ∈ s.provider.counters →
    int32 (s.provider.rowSum id) = int32 (s₀.provider.rowSum id + (deltas as name).sum)
  free : ∀ id, (s.provider.counters.length : Int) < id → id ≤ s.provider.maxCounters →
    s.provider.rowSum id = s₀.provider.rowSum id
  fresh : ∀ name, name ∉ s.provider.counters.map Prod.fst →
    s.provider.counters.length < s.provider.maxCounters → deltas as name = []

theorem deltas_concat_ret (as : List Label) (tid : Int) (name name' : String) (delta : Int)
    : deltas (as ++ [Label.ret tid name delta]) name'
        = deltas as name' ++ (if name = name' then [delta] else []) := by
  unfold deltas
  rw [Machine.filterMap_concat]
  dsimp only
  split <;> rfl

theorem deltas_concat {as : List Label} {a : Label}
    (ha : ∀ tid name delta, a ≠ .ret tid name delta) (name : String)
    : deltas (as ++ [a]) name = deltas as name := by
  unfold deltas
  rw [Machine.filterMap_concat]
  cases a with
  | ret tid name delta => exact absurd rfl (ha tid name delta)
  | _ => simp

variable {s₀ : Process} {as : List Label}

theorem Counts.keeps {bs : List Label} (h : Counts s₀ as s) (hgrows : Process.Grows s s')
    (hdata : s'.provider.data = s.provider.data) (hkeeps : Keeps s.provider s'.provider)
    (hdeltas : ∀ name, deltas bs name = deltas as name) : Counts s₀ bs s' := by
  have hsum := CounterProvider.rowSum_congr hgrows.maxThreads hdata
  cases hkeeps with
  | inl hsame =>
    constructor
    . intro name id hid
      rw [hsame] at hid
      rw [hsum, hdeltas]
      exact h.entered name id hid
    . intro id hlo hhi
      rw [hsame] at hlo
      rw [hgrows.maxCounters] at hhi
      rw [hsum]
      exact h.free id hlo hhi
    . intro name hname hroom
      rw [hsame] at hname hroom
      rw [hgrows.maxCounters] at hroom
      rw [hdeltas]
      exact h.fresh name hname hroom
  | inr hnew =>
    have ⟨name, hname, hroom, hcounters⟩ := hnew
    constructor
    . intro name' id hid
      rw [hcounters, List.mem_append, List.mem_singleton, Prod.mk.injEq] at hid
      rw [hsum, hdeltas]
      cases hid with
      | inl hold => exact h.entered name' id hold
      | inr heq =>
        rw [heq.1, heq.2, h.free _ (by omega) (by omega), h.fresh name hname hroom]
        simp
    . intro id hlo hhi
      rw [hcounters, List.length_append, List.length_singleton] at hlo
      rw [hgrows.maxCounters] at hhi
      rw [hsum]
      exact h.free id (by omega) hhi
    . intro name' hname' hroom'
      rw [hcounters, List.map_append, List.mem_append, not_or] at hname'
      rw [hdeltas]
      exact h.fresh name' hname'.1 hroom

theorem Counts.adds {tid : Int} {name : String} {delta : Int} (h : Counts s₀ as s)
    (hinv : ProcessInv tids s) (hadds : Adds s s' tid name delta)
    : Counts s₀ (as ++ [Label.ret tid name delta]) s' := by
  cases hadds with
  | inl hignored =>
    have ⟨⟨hfull, hnot⟩, hs⟩ := hignored
    rw [hs]
    constructor
    . intro name' id hid
      have hne : name ≠ name' := by
        intro heq
        rw [heq] at hnot
        exact hnot (List.mem_map_of_mem hid)
      rw [deltas_concat_ret, if_neg hne, List.append_nil]
      exact h.entered name' id hid
    . exact h.free
    . intro name' _ hroom
      omega
  | inr hcell =>
    have ⟨loc, ⟨id, slot, hid, hslot, hloc⟩, hs⟩ := hcell
    have hslots := CounterProvider.slot_range hinv.process.provider hslot
    have hdata : ∀ loc', loc' ≠ cellIndex s.provider.maxThreads id slot →
        s'.provider.data loc' = s.provider.data loc' := by
      intro loc' hne
      rw [hs]
      dsimp only [Process.write]
      rw [hloc, Function.update_of_ne hne]
    have hmaxThreads : s'.provider.maxThreads = s.provider.maxThreads := by
      rw [hs]
      rfl
    have hcounters : s'.provider.counters = s.provider.counters := by
      rw [hs]
      rfl
    have hmaxCounters : s'.provider.maxCounters = s.provider.maxCounters := by
      rw [hs]
      rfl
    constructor
    . intro name' id' hid'
      rw [hcounters] at hid'
      rw [deltas_concat_ret]
      have hold := h.entered name' id' hid'
      by_cases heq : name = name'
      . rw [← heq] at hid' hold ⊢
        have hids := hinv.process.provider.counters.number_unique hid' hid
        rw [hids] at hold ⊢
        have hadd := CounterProvider.rowSum_add hmaxThreads hslots hdata
        have hnew : s'.provider.data (cellIndex s.provider.maxThreads id slot)
            = int32 (s.provider.data (cellIndex s.provider.maxThreads id slot) + delta) := by
          rw [hs, ← hloc]
          dsimp only [Process.write, Process.Update.apply]
          rw [Function.update_self]
        have hsum : s'.provider.rowSum id = s.provider.rowSum id
            - s.provider.data (cellIndex s.provider.maxThreads id slot)
            + int32 (s.provider.data (cellIndex s.provider.maxThreads id slot) + delta) := by
          omega
        rw [if_pos rfl, List.sum_append, List.sum_singleton]
        calc int32 (s'.provider.rowSum id)
          _ = int32 (s.provider.rowSum id + delta) := by
            rw [hsum, int32_add_int32]
            congr 1
            omega
          _ = int32 (int32 (s.provider.rowSum id) + delta) := by rw [int32_int32_add]
          _ = int32 (s₀.provider.rowSum id + ((deltas as name).sum + delta)) := by
            rw [hold, int32_int32_add, Int.add_assoc]
      . have hne : id' ≠ id := by
          intro hids
          rw [hids] at hid'
          exact heq (hinv.process.provider.counters.key_unique hid hid')
        rw [if_neg heq, List.append_nil, CounterProvider.rowSum_eq hmaxThreads hslots hne hdata]
        exact hold
    . intro id' hlo hhi
      rw [hcounters] at hlo
      rw [hmaxCounters] at hhi
      have := hinv.process.provider.counters.range hid
      rw [CounterProvider.rowSum_eq hmaxThreads hslots (by omega) hdata]
      exact h.free id' hlo hhi
    . intro name' hname' hroom
      rw [hcounters] at hname' hroom
      rw [hmaxCounters] at hroom
      have hne : name ≠ name' := by
        intro heq
        rw [← heq] at hname'
        exact hname' (List.mem_map_of_mem hid)
      rw [deltas_concat_ret, if_neg hne, List.append_nil]
      exact h.fresh name' hname' hroom

theorem Counts.effect {a : Label} (h : Counts s₀ as s) (hinv : ProcessInv tids s)
    (hgrows : Process.Grows s s') (heffect : Effect s s' a) : Counts s₀ (as ++ [a]) s' := by
  cases a with
  | ret tid name delta => exact h.adds hinv heffect
  | _ =>
    apply h.keeps hgrows heffect.1 heffect.2
    apply deltas_concat
    simp

theorem Advances.trans {s'' : Process} (h : Advances s s') (h' : Advances s' s'') : Advances s s'' where
  grows := h.grows.trans h'.grows
  ignored := by
    intro name hname
    exact h'.ignored name (h.ignored name hname)
  counters := by
    intro k c hc
    have ⟨c', hc', hname, hid⟩ := h.counters k c hc
    have ⟨c'', hc'', hname', hid'⟩ := h'.counters k c' hc'
    refine ⟨c'', hc'', by rw [hname', hname], ?_⟩
    intro hne
    have := hid hne
    rw [hid' (by omega), this]

theorem run_spec {s s' : Counting} (hinv : Inv tids s)
    (hcard : tids.card ≤ s.process.provider.maxThreads) (hcallers : ∀ a ∈ as, CallerIn tids a)
    (h : run s as = some s') : Inv tids s' ∧ Advances s.process s'.process := by
  apply Machine.run_invariant_of (P := fun m => Inv tids m ∧ Advances s.process m.process)
    (L := CallerIn tids) _ hcallers _ h
  . intro m a m' hcaller hm hstep
    rw [← hm.2.grows.maxThreads] at hcard
    have ⟨hinv', hadvances, _⟩ := step_spec hm.1 hcard hcaller hstep
    exact ⟨hinv', hm.2.trans hadvances⟩
  . exact ⟨hinv, Advances.refl _⟩

theorem counts_run {s₀ s : Counting} (hinv : Inv tids s₀)
    (hcard : tids.card ≤ s₀.process.provider.maxThreads) (hcallers : ∀ a ∈ as, CallerIn tids a)
    (hnames : s₀.process.provider.counters = []) (h : run s₀ as = some s)
    : Counts s₀.process as s.process := by
  revert hcallers
  apply Machine.run_induction (P := fun as s => (∀ a ∈ as, CallerIn tids a) →
    Counts s₀.process as s.process) _ _ h
  . intro _
    constructor
    . intro name id hid
      rw [hnames] at hid
      contradiction
    . intro id _ _
      rfl
    . intro name _ _
      rfl
  . intro as m a m' hrun hm hstep hcallers
    have hcallers' : ∀ b ∈ as, CallerIn tids b := by
      intro b hb
      exact hcallers b (List.mem_append_left _ hb)
    have ⟨hinvm, hadvances⟩ := run_spec hinv hcard hcallers' hrun
    have hcaller := hcallers a (List.mem_append_right _ (List.mem_singleton_self a))
    rw [← hadvances.grows.maxThreads] at hcard
    have ⟨_, hadvances', heffect⟩ := step_spec hinvm hcard hcaller hstep
    exact (hm hcallers').effect hinvm.process hadvances'.grows heffect

structure Conserved (s₀ : Counting) (as : List Label) (s : Counting) : Prop where
  ids_range : ∀ name id, (name, id) ∈ s.process.provider.counters →
    1 ≤ id ∧ id ≤ s₀.process.provider.maxCounters
  ids_distinct : ∀ name name' id, (name, id) ∈ s.process.provider.counters →
    (name', id) ∈ s.process.provider.counters → name = name'
  ids_fixed : ∀ bs cs m name id, as = bs ++ cs → run s₀ bs = some m →
    (name, id) ∈ m.process.provider.counters →
    ∀ id', (name, id') ∈ s.process.provider.counters ↔ id' = id
  counters : ∀ c ∈ s.process.counters, 0 < c.counterId →
    (c.name, c.counterId) ∈ s.process.provider.counters
  late : ∀ name, s.process.provider.Ignored name →
    s.process.provider.getCounterId name = (0, s.process.provider)
  values : ∀ name id, (name, id) ∈ s.process.provider.counters →
    (s.process.provider.getNamedCounterValue name).1
      = int32 (s₀.process.provider.getCounterValue id + (deltas as name).sum)
  snapshot : ∀ name id, (name, id) ∈ s.process.provider.counters →
    s.process.provider.getSnapshot.find name
      = some (int32 (s₀.process.provider.getCounterValue id + (deltas as name).sum))

theorem getNamedCounterValue_of_lookup {p : CounterProvider} {name : String} {id : Int}
    (hlookup : p.counters.lookup name = some id) (hid : id ≠ 0)
    : (p.getNamedCounterValue name).1 = p.getCounterValue id := by
  unfold CounterProvider.getNamedCounterValue CounterProvider.getCounterId
  rw [hlookup]
  dsimp only
  rw [if_neg hid]

theorem getNamedCounterValue_eq {p : CounterProvider} (hinv : p.Inv) {name : String} {id : Int}
    (hid : (name, id) ∈ p.counters)
    : (p.getNamedCounterValue name).1 = p.getCounterValue id := by
  have hrange := hinv.counters.range hid
  have hlookup := UnorderedMap.lookup_of_mem hinv.counters.keys_nodup hid
  exact getNamedCounterValue_of_lookup hlookup (by omega)

theorem getCounterId_of_ignored {p : CounterProvider} (hinv : p.Inv) {name : String}
    (h : p.Ignored name) : p.getCounterId name = (0, p) := by
  cases hres : p.getCounterId name with
  | mk id p' =>
    have ⟨hgives, hp⟩ := CounterProvider.getCounterId_cases hinv hres
    cases hp with
    | inl hsame =>
      rw [hsame] at hgives ⊢
      cases hgives with
      | inl hzero => rw [hzero.1]
      | inr hmem => exact absurd (List.mem_map_of_mem hmem) h.2
    | inr henters =>
      have := henters.2.1
      have := h.1
      omega

theorem find_getSnapshot {p : CounterProvider} (hinv : p.Inv) {name : String} {id : Int}
    (hid : (name, id) ∈ p.counters) : p.getSnapshot.find name = some (p.getCounterValue id) := by
  unfold CounterProvider.getSnapshot
  rw [UnorderedMap.find_foldl_insert (fun counter => p.getCounterValue counter.2)
    hinv.counters.keys_nodup (fun _ _ => rfl)]
  rw [UnorderedMap.lookup_of_mem hinv.counters.keys_nodup hid]
  rfl

theorem create_eq_some {maxThreads maxCounters : Int} {data : Int → Int} {s₀ : Counting}
    (h : create maxThreads maxCounters data = some s₀)
    : s₀ = ⟨⟨⟨maxThreads, maxCounters, [], [], data⟩, fun _ => none, []⟩, fun _ => none⟩ := by
  unfold create at h
  split at h
  . next process hprocess =>
    rw [← Option.some.inj h, Process.create_eq_some hprocess]
  . contradiction

theorem inv_create {maxThreads maxCounters : Int} {data : Int → Int} {s₀ : Counting}
    (hthreads : 0 ≤ maxThreads ∧ maxThreads ≤ intMax)
    (hcounters : 0 ≤ maxCounters ∧ maxCounters ≤ intMax)
    (hcells : maxThreads * maxCounters ≤ intMax)
    (h : create maxThreads maxCounters data = some s₀) : Inv tids s₀ := by
  have heq := create_eq_some h
  unfold create at h
  split at h
  . next process hprocess =>
    have hprocess' := Process.inv_create hthreads hcounters hcells hprocess
    rw [Process.create_eq_some hprocess] at hprocess'
    rw [heq]
    constructor
    . constructor
      . exact hprocess'
      . intro c hc
        contradiction
      . intro tid slot hmem
        contradiction
    . intro tid call hcall
      contradiction
  . contradiction

theorem callerIn_callers {a : Label} (h : a ∈ as) : CallerIn (callers as).toFinset a := by
  cases a with
  | call tid k operation =>
    dsimp only [CallerIn]
    rw [List.mem_toFinset]
    unfold callers
    rw [List.mem_filterMap]
    exact ⟨_, h, rfl⟩
  | _ => trivial

theorem conserved {maxThreads maxCounters : Int} {data : Int → Int} {s₀ s : Counting}
    {as : List Label} (hthreads : maxThreads ≤ intMax)
    (hcounters : 0 ≤ maxCounters ∧ maxCounters ≤ intMax)
    (hcells : maxThreads * maxCounters ≤ intMax)
    (hcreate : create maxThreads maxCounters data = some s₀) (h : run s₀ as = some s)
    (hcallers : (callers as).toFinset.card ≤ maxThreads) : Conserved s₀ as s := by
  have hinv₀ : Inv (callers as).toFinset s₀ := inv_create ⟨by omega, hthreads⟩ hcounters hcells hcreate
  have heq := create_eq_some hcreate
  have hcard : ((callers as).toFinset.card : Int) ≤ s₀.process.provider.maxThreads := by
    rw [heq]
    exact hcallers
  have hcaller : ∀ a ∈ as, CallerIn (callers as).toFinset a := by
    intro a ha
    exact callerIn_callers ha
  have ⟨hinv, hadvances⟩ := run_spec hinv₀ hcard hcaller h
  have hprovider := hinv.process.process.provider
  have hnames : s₀.process.provider.counters = [] := by rw [heq]
  have hcounts := counts_run hinv₀ hcard hcaller hnames h
  have hvalue : ∀ name id, (name, id) ∈ s.process.provider.counters →
      s.process.provider.getCounterValue id
        = int32 (s₀.process.provider.getCounterValue id + (deltas as name).sum) := by
    intro name id hid
    have hrange := CounterProvider.id_range hprovider hid
    rw [CounterProvider.getCounterValue_eq_rowSum hprovider hrange, hcounts.entered name id hid]
    rw [hadvances.grows.maxCounters] at hrange
    rw [CounterProvider.getCounterValue_eq_rowSum hinv₀.process.process.provider hrange,
      int32_int32_add]
  constructor
  . intro name id hid
    rw [← hadvances.grows.maxCounters]
    exact CounterProvider.id_range hprovider hid
  . intro name name' id hid hid'
    exact hprovider.counters.key_unique hid hid'
  . intro bs cs m name id hsplit hm hid id'
    rw [hsplit, run, Machine.run_append_eq_some] at h
    have ⟨m', hm', hrun⟩ := h
    rw [run] at hm
    rw [hm, Option.some.injEq] at hm'
    rw [← hm'] at hrun
    have hbs : ∀ a ∈ bs, CallerIn (callers as).toFinset a := by
      intro a ha
      apply hcaller
      rw [hsplit]
      exact List.mem_append_left _ ha
    have hcs : ∀ a ∈ cs, CallerIn (callers as).toFinset a := by
      intro a ha
      apply hcaller
      rw [hsplit]
      exact List.mem_append_right _ ha
    have ⟨hinvm, hadvancesm⟩ := run_spec hinv₀ hcard hbs hm
    rw [← hadvancesm.grows.maxThreads] at hcard
    have ⟨_, hadvances'⟩ := run_spec hinvm hcard hcs hrun
    have hid' := hadvances'.grows.counters hid
    constructor
    . intro hmem
      exact hprovider.counters.number_unique hmem hid'
    . intro heq
      rw [heq]
      exact hid'
  . intro c hc hpos
    have hgives := (hinv.process.ids c hc).resolve_left (by omega)
    apply hgives.resolve_left
    omega
  . intro name hname
    exact getCounterId_of_ignored hprovider hname
  . intro name id hid
    rw [getNamedCounterValue_eq hprovider hid]
    exact hvalue name id hid
  . intro name id hid
    rw [find_getSnapshot hprovider hid, hvalue name id hid]

-- The second counter gets no id, both threads work on the first one at the same time.
theorem conserved_two_threads
    : ∃ s₀ s as, create 2 1 (fun _ => 5) = some s₀ ∧ run s₀ as = some s ∧ Conserved s₀ as s
        ∧ deltas as "requests" = [1, 3] ∧ deltas as "errors" = [-1] := by
  refine ⟨_, _, [.createThread 7, .createThread 8, .createCounter "requests", .createCounter "errors",
    .call 7 0 (.add 3), .access 7, .access 7, .call 8 0 .increment, .access 8, .access 7, .access 7,
    .access 7, .access 7, .access 8, .access 8, .access 8, .access 8, .access 8,
    .ret 8 "requests" 1, .call 8 1 .decrement, .ret 7 "requests" 3, .access 8, .access 8, .access 8,
    .access 8, .ret 8 "errors" (-1)], rfl, rfl, ?_, rfl, rfl⟩
  exact conserved (by decide) (by decide) (by decide) (show create 2 1 _ = some _ from rfl)
    (show run _ _ = some _ from rfl) (by decide)

theorem int32_ne_add_one (x : Int) : int32 x ≠ int32 (x + 1) := by
  unfold int32
  have := Int.bmod_add_bdiv' x (2 ^ 32)
  have := Int.bmod_add_bdiv' (x + 1) (2 ^ 32)
  omega

theorem not_conserved_of_same_row {s₀ s : Counting} {as : List Label} (name name' : String)
    (id id' : Int) (hid : s.process.provider.counters.lookup name = some id)
    (hid' : s.process.provider.counters.lookup name' = some id') (hpos : 0 < id ∧ 0 < id')
    (hrow : int32 ((id - 1) * s₀.process.provider.maxThreads)
      = int32 ((id' - 1) * s₀.process.provider.maxThreads))
    (hmaxThreads : s.process.provider.maxThreads = s₀.process.provider.maxThreads)
    (hdeltas : (deltas as name).sum = 0) (hdeltas' : (deltas as name').sum = 1)
    : ¬ Conserved s₀ as s := by
  intro h
  have hsame : ∀ p : CounterProvider, p.maxThreads = s₀.process.provider.maxThreads →
      p.getCounterValue id = p.getCounterValue id' := by
    intro p hp
    unfold CounterProvider.getCounterValue
    rw [hp, hrow]
  have hvalue := h.values name id (UnorderedMap.mem_of_lookup hid)
  have hvalue' := h.values name' id' (UnorderedMap.mem_of_lookup hid')
  rw [getNamedCounterValue_of_lookup hid (by omega), hdeltas, Int.add_zero] at hvalue
  rw [getNamedCounterValue_of_lookup hid' (by omega), hdeltas'] at hvalue'
  rw [hsame _ hmaxThreads, hvalue', hsame _ rfl] at hvalue
  exact int32_ne_add_one _ hvalue.symm

-- An id behind the end for a negative `max_counters`, and a product that is no `int`: the first and
-- the fifth counter have the same row.
theorem not_conserved
    : (∃ s₀ s as, create 0 (-1) (fun _ => 0) = some s₀ ∧ run s₀ as = some s
        ∧ callers as = [] ∧ ¬ Conserved s₀ as s)
      ∧ ∃ s₀ s as, create 1073741824 5 (fun _ => 0) = some s₀ ∧ run s₀ as = some s
        ∧ callers as = [7] ∧ ¬ Conserved s₀ as s := by
  constructor
  . refine ⟨_, _, [.getCounterId "a"], rfl, rfl, rfl, ?_⟩
    intro h
    have := h.ids_range "a" 1 (List.mem_singleton_self _)
    dsimp only at this
    omega
  . refine ⟨_, _, [.createThread 7, .createCounter "e", .getCounterId "a", .getCounterId "b",
      .getCounterId "c", .getCounterId "d", .call 7 0 .increment, .access 7, .access 7, .access 7,
      .access 7, .access 7, .access 7, .ret 7 "e" 1], rfl, rfl, rfl, ?_⟩
    apply not_conserved_of_same_row "a" "e" 1 5
    . decide +kernel
    . decide +kernel
    . decide
    . decide
    . rfl
    . rfl
    . rfl

end Counting
end Claire
