import Mathlib.Algebra.BigOperators.Group.Finset.Basic
import Mathlib.Algebra.BigOperators.Intervals
import ClaireCommon.Lib.Numbering
import ClaireCommon.Lib.UnorderedMap
import ClaireCommon.Metrics.Impl.Counter

namespace Claire

theorem sizeT_of_range {x : Int} (hlo : 0 ≤ x) (hhi : x ≤ intMax) : sizeT x = x := by
  unfold sizeT
  unfold intMax at hhi
  omega

namespace CounterProvider

structure Inv (p : CounterProvider) : Prop where
  maxThreads_nonneg : 0 ≤ p.maxThreads
  maxThreads_le : p.maxThreads ≤ intMax
  maxCounters_nonneg : 0 ≤ p.maxCounters
  maxCounters_le : p.maxCounters ≤ intMax
  cells_le : p.maxThreads * p.maxCounters ≤ intMax
  counters : Numbered p.counters
  counters_length : p.counters.length ≤ p.maxCounters
  slots : Numbered p.slots
  slots_length : p.slots.length ≤ p.maxThreads

structure Grows (p p' : CounterProvider) : Prop where
  maxThreads : p'.maxThreads = p.maxThreads
  maxCounters : p'.maxCounters = p.maxCounters
  counters : p.counters ⊆ p'.counters
  slots : p.slots ⊆ p'.slots

theorem Grows.refl (p : CounterProvider) : Grows p p where
  maxThreads := rfl
  maxCounters := rfl
  counters := List.Subset.refl _
  slots := List.Subset.refl _

theorem Grows.trans {p p' p'' : CounterProvider} (h : Grows p p') (h' : Grows p' p'') : Grows p p'' where
  maxThreads := by rw [h'.maxThreads, h.maxThreads]
  maxCounters := by rw [h'.maxCounters, h.maxCounters]
  counters := List.Subset.trans h.counters h'.counters
  slots := List.Subset.trans h.slots h'.slots

variable {p p' : CounterProvider}

-- A name that comes too late to get an id
def Ignored (p : CounterProvider) (name : String) : Prop :=
  p.maxCounters ≤ p.counters.length ∧ name ∉ p.counters.map Prod.fst

def Gives (p : CounterProvider) (name : String) (id : Int) : Prop :=
  id = 0 ∧ Ignored p name ∨ (name, id) ∈ p.counters

def Enters (p p' : CounterProvider) (name : String) : Prop :=
  name ∉ p.counters.map Prod.fst ∧ p.counters.length < p.maxCounters
    ∧ p' = { p with counters := p.counters ++ [(name, (p.counters.length : Int) + 1)] }

theorem getCounterId_cases (hinv : Inv p) {name : String} {id : Int}
    (h : p.getCounterId name = (id, p'))
    : Gives p' name id ∧ (p' = p ∨ Enters p p' name) := by
  unfold getCounterId at h
  split at h
  . next id' hlookup =>
    injection h with hid hp
    rw [← hp, ← hid]
    exact ⟨Or.inr (UnorderedMap.mem_of_lookup hlookup), Or.inl rfl⟩
  . next hlookup =>
    rw [sizeT_of_range hinv.maxCounters_nonneg hinv.maxCounters_le] at h
    split at h
    . next hfull =>
      injection h with hid hp
      rw [← hp, ← hid]
      exact ⟨Or.inl ⟨rfl, hfull, UnorderedMap.lookup_eq_none.mp hlookup⟩, Or.inl rfl⟩
    . next hroom =>
      have hmax := hinv.maxCounters_le
      unfold intMax at hmax
      have hnumber : int32 (p.counters.length + 1) = p.counters.length + 1 := by
        apply int32_of_range <;> omega
      rw [hnumber] at h
      injection h with hid hp
      rw [← hp, ← hid]
      constructor
      . apply Or.inr
        exact List.mem_append_right _ (List.mem_singleton_self _)
      . apply Or.inr
        exact ⟨UnorderedMap.lookup_eq_none.mp hlookup, by omega, rfl⟩

theorem Enters.inv {name : String} (hinv : Inv p) (h : Enters p p' name) : Inv p' := by
  have ⟨hname, hroom, hp⟩ := h
  rw [hp]
  exact { hinv with
    counters := hinv.counters.concat hname
    counters_length := by
      rw [List.length_append, List.length_singleton]
      dsimp only
      omega }

theorem Enters.grows {name : String} (h : Enters p p' name) : Grows p p' := by
  rw [h.2.2]
  exact { Grows.refl p with counters := List.subset_append_left _ _ }

theorem getCounterId_spec (hinv : Inv p) {name : String} {id : Int}
    (h : p.getCounterId name = (id, p'))
    : Inv p' ∧ Grows p p' ∧ p'.data = p.data ∧ p'.slots = p.slots
        ∧ (id = 0 ∨ (name, id) ∈ p'.counters) := by
  have ⟨hgives, hp⟩ := getCounterId_cases hinv h
  have hid : id = 0 ∨ (name, id) ∈ p'.counters := hgives.imp_left And.left
  cases hp with
  | inl hsame =>
    rw [hsame] at hid ⊢
    exact ⟨hinv, Grows.refl p, rfl, rfl, hid⟩
  | inr henters =>
    refine ⟨henters.inv hinv, henters.grows, ?_, ?_, hid⟩
    . rw [henters.2.2]
    . rw [henters.2.2]

def HasId (p : CounterProvider) (c : Counter) : Prop :=
  0 < c.counterId
    ∨ (c.counterId = -1 ∧ (c.name ∈ p.counters.map Prod.fst ∨ p.counters.length < p.maxCounters))

theorem hasId_of_getCounterId (hinv : Inv p) {c : Counter} {id : Int} (hc : c.counterId = -1)
    (h : p.getCounterId c.name = (id, p')) (hpos : 0 < id) : HasId p c := by
  apply Or.inr
  constructor
  . exact hc
  . have ⟨hgives, hp⟩ := getCounterId_cases hinv h
    cases hp with
    | inl hsame =>
      rw [hsame] at hgives
      cases hgives with
      | inl hzero => omega
      | inr hmem =>
        apply Or.inl
        exact List.mem_map_of_mem hmem
    | inr henters => exact Or.inr henters.2.1

def SlotFree (p : CounterProvider) (tid : Int) : Prop :=
  p.slots.length < p.maxThreads ∧ tid ∉ p.slots.map Prod.fst

theorem getSlotId_spec (hinv : Inv p) {tid slot slot' slotId : Int}
    (hslot : slot = 0 ∨ (tid, slot) ∈ p.slots) (hfree : slot = 0 → SlotFree p tid)
    (h : p.getSlotId tid slot = (slotId, slot', p'))
    : Inv p' ∧ Grows p p' ∧ p'.data = p.data ∧ p'.counters = p.counters
        ∧ slot' = slotId ∧ (tid, slotId) ∈ p'.slots
        ∧ (p'.slots = p.slots ∨ p'.slots = p.slots ++ [(tid, slotId)]) := by
  unfold getSlotId at h
  split at h
  . next hne =>
    simp only [Prod.mk.injEq] at h
    rw [← h.1, ← h.2.1, ← h.2.2]
    exact ⟨hinv, Grows.refl p, rfl, rfl, rfl, hslot.resolve_left hne, Or.inl rfl⟩
  . next hzero =>
    have hfree := hfree (by omega)
    split at h
    . next hfull =>
      rw [sizeT_of_range hinv.maxThreads_nonneg hinv.maxThreads_le] at hfull
      have := hfree.1
      omega
    . split at h
      . next n hlookup =>
        exfalso
        apply hfree.2
        rw [List.mem_map]
        exact ⟨(tid, n), UnorderedMap.mem_of_lookup hlookup, rfl⟩
      . have hmax := hinv.maxThreads_le
        have hroom := hfree.1
        unfold intMax at hmax
        have hnumber : int32 (p.slots.length + 1) = p.slots.length + 1 := by
          apply int32_of_range <;> omega
        simp only [hnumber, List.length_append, List.length_singleton, Int.natCast_add,
          Int.natCast_one, Prod.mk.injEq] at h
        rw [← h.2.2, ← h.1, ← h.2.1]
        refine ⟨?_, ?_, rfl, rfl, rfl, ?_, Or.inr rfl⟩
        . exact { hinv with
            slots := hinv.slots.concat hfree.2
            slots_length := by
              rw [List.length_append, List.length_singleton]
              dsimp only
              omega }
        . exact { Grows.refl p with slots := List.subset_append_left _ _ }
        . exact List.mem_append_right _ (List.mem_singleton_self _)

theorem id_range (hinv : Inv p) {name : String} {id : Int} (hid : (name, id) ∈ p.counters)
    : 1 ≤ id ∧ id ≤ p.maxCounters := by
  have hrange := hinv.counters.range hid
  have hlength := hinv.counters_length
  omega

theorem slot_range (hinv : Inv p) {tid slot : Int} (hslot : (tid, slot) ∈ p.slots)
    : 1 ≤ slot ∧ slot ≤ p.maxThreads := by
  have hrange := hinv.slots.range hslot
  have hlength := hinv.slots_length
  omega

theorem row_eq (hinv : Inv p) {id : Int} (hid : 1 ≤ id ∧ id ≤ p.maxCounters)
    : int32 ((id - 1) * p.maxThreads) = (id - 1) * p.maxThreads
        ∧ 0 ≤ (id - 1) * p.maxThreads
        ∧ (id - 1) * p.maxThreads + p.maxThreads ≤ p.maxThreads * p.maxCounters := by
  have hcells := hinv.cells_le
  unfold intMax at hcells
  have hthreads := hinv.maxThreads_nonneg
  have hlo : 0 ≤ (id - 1) * p.maxThreads := Int.mul_nonneg (by omega) hthreads
  have hhi : (id - 1) * p.maxThreads ≤ (p.maxCounters - 1) * p.maxThreads :=
    Int.mul_le_mul_of_nonneg_right (by omega) hthreads
  rw [Int.sub_mul p.maxCounters, Int.one_mul, Int.mul_comm p.maxCounters] at hhi
  refine ⟨?_, hlo, by omega⟩
  apply int32_of_range <;> omega

theorem getLocation_eq (hinv : Inv p) {name : String} {id slot : Int}
    (hid : (name, id) ∈ p.counters) : p.getLocation id slot = cellIndex p.maxThreads id slot := by
  unfold getLocation cellIndex
  rw [(row_eq hinv (id_range hinv hid)).1]

def rowSum (p : CounterProvider) (id : Int) : Int :=
  ∑ i ∈ Finset.range p.maxThreads.toNat, p.data (cellIndex p.maxThreads id (i + 1))

theorem foldl_range_int32 (f : Nat → Int) (n : Nat)
    : (List.range n).foldl (fun value i => int32 (value + f i)) 0
        = int32 (∑ i ∈ Finset.range n, f i) := by
  induction n with
  | zero => rfl
  | succ n ih =>
    rw [List.range_succ, List.foldl_append, ih, Finset.sum_range_succ]
    simp

theorem getCounterValue_eq_rowSum (hinv : Inv p) {id : Int} (hid : 1 ≤ id ∧ id ≤ p.maxCounters)
    : p.getCounterValue id = int32 (p.rowSum id) := by
  have ⟨hrow, hlo, hhi⟩ := row_eq hinv hid
  have hcells := hinv.cells_le
  unfold intMax at hcells
  unfold getCounterValue
  rw [hrow]
  dsimp only
  rw [foldl_range_int32 (fun i => p.data (int32 ((id - 1) * p.maxThreads + i)))]
  unfold rowSum
  congr 1
  apply Finset.sum_congr rfl
  intro i hi
  rw [Finset.mem_range] at hi
  have hcell : int32 ((id - 1) * p.maxThreads + i) = cellIndex p.maxThreads id (i + 1) := by
    unfold cellIndex
    rw [int32_of_range] <;> omega
  rw [hcell]

theorem rowSum_congr (hmaxThreads : p'.maxThreads = p.maxThreads) (hdata : p'.data = p.data) (id : Int)
    : p'.rowSum id = p.rowSum id := by
  unfold rowSum
  rw [hmaxThreads, hdata]

theorem rowSum_eq {id id' slot : Int} (hmaxThreads : p'.maxThreads = p.maxThreads)
    (hslot : 1 ≤ slot ∧ slot ≤ p.maxThreads) (hne : id' ≠ id)
    (hdata : ∀ loc, loc ≠ cellIndex p.maxThreads id slot → p'.data loc = p.data loc)
    : p'.rowSum id' = p.rowSum id' := by
  unfold rowSum
  rw [hmaxThreads]
  apply Finset.sum_congr rfl
  intro i hi
  rw [Finset.mem_range] at hi
  apply hdata
  intro heq
  exact hne (cellIndex_injective (by omega) (by omega) hslot.1 hslot.2 heq).1

theorem rowSum_add {id slot : Int} (hmaxThreads : p'.maxThreads = p.maxThreads)
    (hslot : 1 ≤ slot ∧ slot ≤ p.maxThreads)
    (hdata : ∀ loc, loc ≠ cellIndex p.maxThreads id slot → p'.data loc = p.data loc)
    : p'.rowSum id - p.rowSum id
        = p'.data (cellIndex p.maxThreads id slot) - p.data (cellIndex p.maxThreads id slot) := by
  unfold rowSum
  rw [hmaxThreads, ← Finset.sum_sub_distrib, Finset.sum_eq_single (slot - 1).toNat]
  . have hcast : (((slot - 1).toNat : Nat) : Int) + 1 = slot := by omega
    rw [hcast]
  . intro i hi hne
    rw [Finset.mem_range] at hi
    rw [hdata, Int.sub_self]
    intro heq
    have := (cellIndex_injective (by omega) (by omega) hslot.1 hslot.2 heq).2
    omega
  . intro hmem
    rw [Finset.mem_range] at hmem
    omega

theorem getCounterValue_eq (hinv : Inv p) (hinv' : Inv p') {name name' : String}
    {id id' tid slot : Int} (hgrows : Grows p p') (hid : (name, id) ∈ p'.counters)
    (hid' : (name', id') ∈ p.counters) (hslot : (tid, slot) ∈ p'.slots) (hne : name' ≠ name)
    (hdata : ∀ loc, loc ≠ cellIndex p'.maxThreads id slot → p'.data loc = p.data loc)
    : p'.getCounterValue id' = p.getCounterValue id' := by
  have hids : id' ≠ id := by
    intro heq
    rw [← heq] at hid
    exact hne (hinv'.counters.key_unique (hgrows.counters hid') hid)
  have hrange := id_range hinv hid'
  have hslots := slot_range hinv' hslot
  rw [hgrows.maxThreads] at hslots hdata
  rw [getCounterValue_eq_rowSum hinv hrange, getCounterValue_eq_rowSum hinv',
    rowSum_eq hgrows.maxThreads hslots hids hdata]
  rw [hgrows.maxCounters]
  exact hrange

end CounterProvider

namespace Process

structure Inv (s : Process) : Prop where
  provider : s.provider.Inv
  threads : ∀ tid slot, s.threads tid = some slot → slot = 0 ∨ (tid, slot) ∈ s.provider.slots
  counters : ∀ c ∈ s.counters,
    c.counterId = -1 ∨ c.counterId = 0 ∨ (c.name, c.counterId) ∈ s.provider.counters

abbrev Grows (s s' : Process) : Prop := s.provider.Grows s'.provider

variable {s s' : Process}

theorem Inv.of_grows {provider : CounterProvider} (hinv : Inv s) (hprovider : provider.Inv)
    (hgrows : s.provider.Grows provider) : Inv { s with provider := provider } where
  provider := hprovider
  threads := by
    intro tid slot hslot
    exact (hinv.threads tid slot hslot).imp_right (fun hmem => hgrows.slots hmem)
  counters := by
    intro c hc
    exact (hinv.counters c hc).imp_right (Or.imp_right (fun hmem => hgrows.counters hmem))

theorem Inv.update_thread (hinv : Inv s) {tid : Int} {value : Option Int}
    (h : ∀ slot, value = some slot → slot = 0 ∨ (tid, slot) ∈ s.provider.slots)
    : Inv { s with threads := Function.update s.threads tid value } := by
  refine { hinv with threads := ?_ }
  intro tid' slot hslot
  dsimp only at hslot
  by_cases htid : tid' = tid
  . rw [htid, Function.update_self] at hslot
    rw [htid]
    exact h slot hslot
  . rw [Function.update_of_ne htid] at hslot
    exact hinv.threads tid' slot hslot

theorem lookupCounterId_spec (hinv : Inv s) {k : Nat} {c : Counter} {id : Int}
    (hc : s.counters[k]? = some c) (h : s.lookupCounterId k c = (id, s'))
    : Inv s' ∧ Grows s s' ∧ s'.provider.data = s.provider.data
        ∧ s'.provider.slots = s.provider.slots ∧ s'.threads = s.threads
        ∧ (0 < id → (c.name, id) ∈ s'.provider.counters ∧ s.provider.HasId c) := by
  have hmem : c ∈ s.counters := List.mem_of_getElem? hc
  unfold lookupCounterId at h
  split at h
  . next hcached =>
    cases hres : s.provider.getCounterId c.name with
    | mk id' provider =>
      rw [hres] at h
      injection h with hid hs
      have ⟨hprovider, hgrows, hdata, hslots, hname⟩ :=
        CounterProvider.getCounterId_spec hinv.provider hres
      rw [← hs, ← hid]
      refine ⟨?_, hgrows, hdata, hslots, rfl, ?_⟩
      . constructor
        . exact hprovider
        . exact (hinv.of_grows hprovider hgrows).threads
        . intro c' hc'
          cases List.mem_or_eq_of_mem_set hc' with
          | inl hold => exact (hinv.of_grows hprovider hgrows).counters c' hold
          | inr hnew =>
            rw [hnew]
            exact Or.inr hname
      . intro hpos
        constructor
        . exact hname.resolve_left (by omega)
        . exact CounterProvider.hasId_of_getCounterId hinv.provider hcached hres hpos
  . next hcached =>
    injection h with hid hs
    rw [← hs, ← hid]
    refine ⟨hinv, CounterProvider.Grows.refl _, rfl, rfl, rfl, ?_⟩
    intro hpos
    constructor
    . have := hinv.counters c hmem
      rw [or_iff_right hcached, or_iff_right (by omega)] at this
      exact this
    . exact Or.inl hpos

theorem getLocation_spec (hinv : Inv s) {name : String} {tid slot id loc : Int}
    (hslot : s.threads tid = some slot) (hid : (name, id) ∈ s.provider.counters)
    (hfree : slot = 0 → s.provider.SlotFree tid) (h : s.getLocation tid slot id = (loc, s'))
    : Inv s' ∧ Grows s s' ∧ s'.provider.data = s.provider.data
        ∧ ∃ slotId, (tid, slotId) ∈ s'.provider.slots
            ∧ loc = cellIndex s.provider.maxThreads id slotId := by
  unfold getLocation at h
  cases hres : s.provider.getSlotId tid slot with
  | mk slotId res =>
    cases res with
    | mk slot' provider =>
      rw [hres] at h
      injection h with hloc hs
      have ⟨hprovider, hgrows, hdata, hcounters, hslot', hmem, _⟩ :=
        CounterProvider.getSlotId_spec hinv.provider (hinv.threads tid slot hslot) hfree hres
      have hid' := hgrows.counters hid
      rw [← hs, ← hloc, CounterProvider.getLocation_eq hprovider hid', hgrows.maxThreads]
      refine ⟨?_, hgrows, hdata, slotId, hmem, rfl⟩
      apply (hinv.of_grows hprovider hgrows).update_thread
      intro slot'' hslot''
      injection hslot'' with hslot''
      rw [← hslot'', hslot']
      exact Or.inr hmem

def Cell (s : Process) (name : String) (tid loc : Int) : Prop :=
  ∃ id slot, (name, id) ∈ s.provider.counters ∧ (tid, slot) ∈ s.provider.slots
    ∧ loc = cellIndex s.provider.maxThreads id slot

theorem getPtr_spec (hinv : Inv s) {tid slot : Int} {k : Nat} {c : Counter} {ptr : Option Int}
    (hslot : s.threads tid = some slot) (hc : s.counters[k]? = some c)
    (hfree : slot = 0 → s.provider.HasId c → s.provider.SlotFree tid)
    (h : s.getPtr tid slot k c = (ptr, s'))
    : Inv s' ∧ Grows s s' ∧ s'.provider.data = s.provider.data
        ∧ ∀ loc, ptr = some loc → Cell s' c.name tid loc := by
  unfold getPtr at h
  cases hres : s.lookupCounterId k c with
  | mk id m =>
    have ⟨hm, hgrows, hdata, hslots, hthreads, hid⟩ := lookupCounterId_spec hinv hc hres
    rw [hres] at h
    dsimp only at h
    split at h
    . next hpos =>
      have ⟨hname, hhas⟩ := hid hpos
      have hfree' : slot = 0 → m.provider.SlotFree tid := by
        intro hzero
        unfold CounterProvider.SlotFree
        rw [hslots, hgrows.maxThreads]
        exact hfree hzero hhas
      cases hloc : m.getLocation tid slot id with
      | mk loc m' =>
        rw [← hthreads] at hslot
        have ⟨hm', hgrows', hdata', slotId, hslotId, heq⟩ := getLocation_spec hm hslot hname hfree' hloc
        rw [hloc] at h
        injection h with hptr hs
        rw [← hs, ← hptr]
        refine ⟨hm', hgrows.trans hgrows', by rw [hdata', hdata], ?_⟩
        intro loc' hloc'
        injection hloc' with hloc'
        rw [← hloc', heq, ← hgrows'.maxThreads]
        exact ⟨id, slotId, hgrows'.counters hname, hslotId, rfl⟩
    . injection h with hptr hs
      rw [← hs, ← hptr]
      refine ⟨hm, hgrows, hdata, ?_⟩
      intro loc hloc
      contradiction

-- Whenever a thread without a slot needs one, the table has one for it.
def SlotFreeFor (s : Process) : Label → Prop
  | .update tid k _ _ _ => s.threads tid = some 0 → ∀ c, s.counters[k]? = some c →
    s.provider.HasId c → s.provider.SlotFree tid
  | _ => True

theorem step_update {tid : Int} {k : Nat} {name : String} {ptr : Option Int} {update : Update}
    (h : step s (.update tid k name ptr update) = some s')
    : ∃ slot c m, s.threads tid = some slot ∧ s.counters[k]? = some c ∧ c.name = name
        ∧ s.getPtr tid slot k c = (ptr, m)
        ∧ match ptr with
          | some loc => s' = m.write loc update
          | none => s' = m := by
  dsimp only [step] at h
  split at h
  . next slot c hslot hc =>
    split at h
    . next hres =>
      refine ⟨slot, c, (s.getPtr tid slot k c).2, hslot, hc, hres.1, Prod.ext hres.2 rfl, ?_⟩
      split at h
      . exact (Option.some.inj h).symm
      . exact (Option.some.inj h).symm
    . contradiction
  . contradiction

theorem write_inv {loc : Int} {update : Update} (hinv : Inv s) : Inv (s.write loc update) where
  provider := { hinv.provider with }
  threads := hinv.threads
  counters := hinv.counters

theorem write_grows (s : Process) (loc : Int) (update : Update) : Grows s (s.write loc update) where
  maxThreads := rfl
  maxCounters := rfl
  counters := List.Subset.refl _
  slots := List.Subset.refl _

theorem update_spec {tid : Int} {k : Nat} {name : String} {ptr : Option Int} {update : Update}
    (hinv : Inv s) (hfree : SlotFreeFor s (.update tid k name ptr update))
    (h : step s (.update tid k name ptr update) = some s')
    : Inv s' ∧ Grows s s' ∧ (∀ loc, ptr = some loc → Cell s' name tid loc)
        ∧ ∀ loc, ptr ≠ some loc → s'.provider.data loc = s.provider.data loc := by
  have ⟨slot, c, m, hslot, hc, hname, hptr, hs⟩ := step_update h
  have hfree' : slot = 0 → s.provider.HasId c → s.provider.SlotFree tid := by
    intro hzero
    rw [hzero] at hslot
    exact hfree hslot c hc
  have ⟨hm, hgrows, hdata, hcell⟩ := getPtr_spec hinv hslot hc hfree' hptr
  rw [hname] at hcell
  cases ptr with
  | none =>
    dsimp only at hs
    rw [hs]
    refine ⟨hm, hgrows, hcell, ?_⟩
    intro loc _
    rw [hdata]
  | some loc =>
    dsimp only at hs
    rw [hs]
    refine ⟨write_inv hm, hgrows.trans (write_grows m loc update), hcell, ?_⟩
    intro loc' hne
    have hne' : loc' ≠ loc := by
      intro heq
      rw [heq] at hne
      contradiction
    dsimp only [write]
    rw [Function.update_of_ne hne', hdata]

theorem inv_step {a : Label} (hinv : Inv s) (hfree : SlotFreeFor s a) (h : step s a = some s')
    : Inv s' ∧ Grows s s' := by
  cases a with
  | createThread tid =>
    dsimp only [step] at h
    split at h
    . contradiction
    . rw [← Option.some.inj h]
      refine ⟨?_, CounterProvider.Grows.refl _⟩
      apply hinv.update_thread
      intro slot hslot
      injection hslot with hslot
      exact Or.inl hslot.symm
  | exitThread tid =>
    dsimp only [step] at h
    split at h
    . rw [← Option.some.inj h]
      refine ⟨?_, CounterProvider.Grows.refl _⟩
      apply hinv.update_thread
      intro slot hslot
      contradiction
    . contradiction
  | createCounter name =>
    dsimp only [step] at h
    rw [← Option.some.inj h]
    refine ⟨?_, CounterProvider.Grows.refl _⟩
    refine { hinv with counters := ?_ }
    intro c hc
    dsimp only at hc
    rw [List.mem_append, List.mem_singleton] at hc
    cases hc with
    | inl hold => exact hinv.counters c hold
    | inr hnew =>
      rw [hnew]
      exact Or.inl rfl
  | getCounterId name =>
    dsimp only [step] at h
    rw [← Option.some.inj h]
    have ⟨hprovider, hgrows, _⟩ := CounterProvider.getCounterId_spec hinv.provider
      (show s.provider.getCounterId name = (_, _) from rfl)
    exact ⟨hinv.of_grows hprovider hgrows, hgrows⟩
  | update tid k name ptr update =>
    have ⟨hs', hgrows, _⟩ := update_spec hinv hfree h
    exact ⟨hs', hgrows⟩

def SlotsSuffice (s : Process) (as : List Label) : Prop :=
  ∀ bs a cs m, as = bs ++ a :: cs → run s bs = some m → SlotFreeFor m a

theorem SlotsSuffice.of_append {as bs : List Label} (h : SlotsSuffice s (as ++ bs)) : SlotsSuffice s as := by
  intro cs a ds m heq hm
  apply h cs a (ds ++ bs) m _ hm
  rw [heq, List.append_assoc]
  rfl

theorem SlotsSuffice.append_run (as : List Label) {bs : List Label} (h : SlotsSuffice s (as ++ bs))
    (hrun : run s as = some s') : SlotsSuffice s' bs := by
  intro cs a ds m heq hm
  apply h (as ++ cs) a ds m
  . rw [heq, List.append_assoc]
  . rw [run, Machine.run_append_eq_some]
    exact ⟨s', hrun, hm⟩

theorem SlotsSuffice.nil : SlotsSuffice s [] := by
  intro bs a cs m heq
  simp at heq

theorem SlotsSuffice.cons {a : Label} {as : List Label} (hfree : SlotFreeFor s a)
    (hstep : step s a = some s') (h : SlotsSuffice s' as) : SlotsSuffice s (a :: as) := by
  intro bs b cs m heq hm
  cases bs with
  | nil =>
    rw [List.nil_append] at heq
    injection heq with ha
    rw [run, Machine.run_nil, Option.some.injEq] at hm
    rw [← hm, ← ha]
    exact hfree
  | cons a' bs =>
    rw [List.cons_append] at heq
    injection heq with ha has
    rw [run, Machine.run_cons_eq_some, ← ha] at hm
    have ⟨m', hm', hrun⟩ := hm
    rw [hstep, Option.some.injEq] at hm'
    rw [← hm'] at hrun
    exact h bs b cs m has hrun

theorem inv_run {as : List Label} (hinv : Inv s) (hslots : SlotsSuffice s as)
    (h : run s as = some s') : Inv s' ∧ Grows s s' := by
  induction as generalizing s with
  | nil =>
    rw [run, Machine.run_nil, Option.some.injEq] at h
    rw [← h]
    exact ⟨hinv, CounterProvider.Grows.refl _⟩
  | cons a as ih =>
    rw [run, Machine.run_cons_eq_some] at h
    have ⟨m, hstep, hrun⟩ := h
    have ⟨hm, hgrows⟩ := inv_step hinv (hslots [] a as s rfl rfl) hstep
    have hone : run s [a] = some m := by
      rw [run, Machine.run_cons_eq_some]
      exact ⟨m, hstep, rfl⟩
    have ⟨hs', hgrows'⟩ := ih hm (SlotsSuffice.append_run [a] hslots hone) hrun
    exact ⟨hs', hgrows.trans hgrows'⟩

theorem inv_at {as bs : List Label} {a : Label} (hinv : Inv s) (hslots : SlotsSuffice s (as ++ a :: bs))
    (h : run s (as ++ a :: bs) = some s')
    : ∃ m m', run s as = some m ∧ Inv m ∧ Grows s m ∧ SlotFreeFor m a
        ∧ step m a = some m' ∧ run m' bs = some s' ∧ SlotsSuffice m' bs := by
  have hsplit := h
  rw [run, Machine.run_append_cons_eq_some] at hsplit
  have ⟨m, m', hm, hstep, hrun⟩ := hsplit
  have ⟨hinvm, hgrows⟩ := inv_run hinv hslots.of_append hm
  have hslots' : SlotsSuffice m' bs := by
    apply SlotsSuffice.append_run (as ++ [a])
    . rw [List.append_assoc]
      exact hslots
    . rw [run, Machine.run_concat_eq_some]
      exact ⟨m, hm, hstep⟩
  exact ⟨m, m', hm, hinvm, hgrows, hslots as a bs m rfl hm, hstep, hrun, hslots'⟩

theorem Cell.mono {name : String} {tid loc : Int} (h : Cell s name tid loc) (hgrows : Grows s s')
    : Cell s' name tid loc := by
  have ⟨id, slot, hid, hslot, heq⟩ := h
  rw [← hgrows.maxThreads] at heq
  exact ⟨id, slot, hgrows.counters hid, hgrows.slots hslot, heq⟩

theorem Cell.range (hinv : Inv s) {name : String} {tid loc : Int} (h : Cell s name tid loc)
    : 0 ≤ loc ∧ loc < s.provider.maxThreads * s.provider.maxCounters := by
  have ⟨id, slot, hid, hslot, heq⟩ := h
  have hids := CounterProvider.id_range hinv.provider hid
  have hslots := CounterProvider.slot_range hinv.provider hslot
  rw [heq]
  exact cellIndex_range hids.1 hids.2 hslots.1 hslots.2

theorem Cell.unique (hinv : Inv s) {name name' : String} {tid tid' loc : Int}
    (h : Cell s name tid loc) (h' : Cell s name' tid' loc) : name = name' ∧ tid = tid' := by
  have ⟨id, slot, hid, hslot, heq⟩ := h
  have ⟨id', slot', hid', hslot', heq'⟩ := h'
  have hslots := CounterProvider.slot_range hinv.provider hslot
  have hslots' := CounterProvider.slot_range hinv.provider hslot'
  rw [heq] at heq'
  have ⟨hids, hslotIds⟩ := cellIndex_injective hslots.1 hslots.2 hslots'.1 hslots'.2 heq'
  rw [← hids] at hid'
  rw [← hslotIds] at hslot'
  constructor
  . exact hinv.provider.counters.key_unique hid hid'
  . exact hinv.provider.slots.key_unique hslot hslot'

structure CellsApart (s₀ : Process) (as : List Label) : Prop where
  in_table : ∀ tid k name loc update, .update tid k name (some loc) update ∈ as →
    0 ≤ loc ∧ loc < s₀.provider.maxThreads * s₀.provider.maxCounters
  distinct : ∀ (bs : List Label) tid k name loc update (cs : List Label) tid' k' name' update'
    (ds : List Label),
    as = bs ++ .update tid k name (some loc) update
      :: (cs ++ .update tid' k' name' (some loc) update' :: ds) →
    .exitThread tid ∉ cs → name = name' ∧ tid = tid'
  other_values : ∀ (bs : List Label) tid k name ptr update (cs : List Label) s s' name' id',
    as = bs ++ .update tid k name ptr update :: cs → run s₀ bs = some s →
    step s (.update tid k name ptr update) = some s' →
    (name', id') ∈ s.provider.counters → name' ≠ name →
    s'.provider.getCounterValue id' = s.provider.getCounterValue id'

theorem create_eq_some {maxThreads maxCounters : Int} {data : Int → Int} {s₀ : Process}
    (h : create maxThreads maxCounters data = some s₀)
    : s₀ = ⟨⟨maxThreads, maxCounters, [], [], data⟩, fun _ => none, []⟩ := by
  unfold create CounterProvider.create at h
  split at h
  . next provider hprovider =>
    split at hprovider
    . contradiction
    . rw [← Option.some.inj h, ← Option.some.inj hprovider]
  . contradiction

theorem inv_create {maxThreads maxCounters : Int} {data : Int → Int} {s₀ : Process}
    (hthreads : 0 ≤ maxThreads ∧ maxThreads ≤ intMax)
    (hcounters : 0 ≤ maxCounters ∧ maxCounters ≤ intMax)
    (hcells : maxThreads * maxCounters ≤ intMax)
    (h : create maxThreads maxCounters data = some s₀) : Inv s₀ := by
  rw [create_eq_some h]
  constructor
  . exact {
      maxThreads_nonneg := hthreads.1
      maxThreads_le := hthreads.2
      maxCounters_nonneg := hcounters.1
      maxCounters_le := hcounters.2
      cells_le := hcells
      counters := Numbered.nil
      counters_length := hcounters.1
      slots := Numbered.nil
      slots_length := hthreads.1
    }
  . intro tid slot hslot
    contradiction
  . intro c hc
    contradiction

theorem cellsApart {maxThreads maxCounters : Int} {data : Int → Int} {s₀ s : Process}
    {as : List Label} (hthreads : 0 ≤ maxThreads ∧ maxThreads ≤ intMax)
    (hcounters : 0 ≤ maxCounters ∧ maxCounters ≤ intMax)
    (hcells : maxThreads * maxCounters ≤ intMax)
    (hcreate : create maxThreads maxCounters data = some s₀) (h : run s₀ as = some s)
    (hslots : SlotsSuffice s₀ as) : CellsApart s₀ as := by
  have hinv := inv_create hthreads hcounters hcells hcreate
  constructor
  . intro tid k name loc update hmem
    have ⟨bs, cs, heq⟩ := List.append_of_mem hmem
    rw [heq] at h hslots
    have ⟨m, m', _, hm, hgrows, hfree, hstep, _⟩ := inv_at hinv hslots h
    have ⟨hm', hgrows', hcell, _⟩ := update_spec hm hfree hstep
    have hrange := (hcell loc rfl).range hm'
    rw [hgrows'.maxThreads, hgrows.maxThreads, hgrows'.maxCounters, hgrows.maxCounters] at hrange
    exact hrange
  . intro bs tid k name loc update cs tid' k' name' update' ds heq _
    rw [heq] at h hslots
    have ⟨m, m', _, hm, _, hfree, hstep, hrun, hslots'⟩ := inv_at hinv hslots h
    have ⟨hm', _, hcell, _⟩ := update_spec hm hfree hstep
    have ⟨n, n', _, hn, hgrows, hfree', hstep', _⟩ := inv_at hm' hslots' hrun
    have ⟨hn', hgrows', hcell', _⟩ := update_spec hn hfree' hstep'
    exact Cell.unique hn' ((hcell loc rfl).mono (hgrows.trans hgrows')) (hcell' loc rfl)
  . intro bs tid k name ptr update cs m m' name' id' heq hm hstep hname hne
    rw [heq] at h hslots
    have ⟨n, n', hn, hinvn, _, hfree, _⟩ := inv_at hinv hslots h
    have hmn : m = n := by
      rw [hm] at hn
      exact Option.some.inj hn
    rw [← hmn] at hinvn hfree
    have ⟨hinv', hgrows, hcell, hdata⟩ := update_spec hinvn hfree hstep
    cases ptr with
    | none =>
      have hsame : m'.provider.data = m.provider.data := by
        funext loc
        exact hdata loc (by simp)
      unfold CounterProvider.getCounterValue
      rw [hsame, hgrows.maxThreads]
    | some loc =>
      have ⟨id, slot, hid, hslot, hloc⟩ := hcell loc rfl
      apply CounterProvider.getCounterValue_eq hinvn.provider hinv'.provider hgrows hid hname hslot hne
      intro loc' hloc'
      apply hdata
      intro heq
      injection heq with heq
      rw [← heq, hloc] at hloc'
      exact hloc' rfl

theorem cellsApart_two_threads
    : ∃ s₀, create 2 3 (fun _ => 0) = some s₀
        ∧ CellsApart s₀ [.createThread 7, .createCounter "requests", .update 7 0 "requests" (some 0) (.add 1),
          .createThread 8, .update 8 0 "requests" (some 1) (.add 1), .exitThread 7] := by
  have hslots : SlotsSuffice ⟨⟨2, 3, [], [], fun _ => 0⟩, fun _ => none, []⟩
      [.createThread 7, .createCounter "requests",
      .update 7 0 "requests" (some 0) (.add 1), .createThread 8,
      .update 8 0 "requests" (some 1) (.add 1), .exitThread 7] :=
    .cons trivial rfl (.cons trivial rfl (.cons (fun _ _ _ _ => ⟨by decide, by decide⟩) rfl
      (.cons trivial rfl (.cons (fun _ _ _ _ => ⟨by decide, by decide⟩) rfl (.cons trivial rfl .nil)))))
  exact ⟨_, rfl, cellsApart (by decide) (by decide) (by decide) (show create 2 3 _ = some _ from rfl)
    (show run _ _ = some _ from rfl) hslots⟩

-- The second thread finds no slot and is given the cell in front of the table.
theorem not_cellsApart
    : ∃ s₀ s, create 1 2 (fun _ => 0) = some s₀
        ∧ run s₀ [.createThread 7, .createCounter "requests", .update 7 0 "requests" (some 0) (.add 1),
            .createThread 8, .update 8 0 "requests" (some (-1)) (.add 1)] = some s
        ∧ ¬ CellsApart s₀ [.createThread 7, .createCounter "requests",
            .update 7 0 "requests" (some 0) (.add 1), .createThread 8,
            .update 8 0 "requests" (some (-1)) (.add 1)] := by
  refine ⟨_, _, rfl, rfl, ?_⟩
  intro hapart
  have := hapart.in_table 8 0 "requests" (-1) (.add 1) (by simp)
  omega

end Process
end Claire
