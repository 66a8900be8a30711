import ClaireCommon.Lib.Except
import ClaireCommon.Metrics.Impl.CounterSampler
import Mathlib.Algebra.BigOperators.Group.List.Basic

/-!
This module contains where the deltas that the sampler records add up to the change of the counters.
-/

namespace Claire
namespace CounterSampler

theorem subtractInt_eq_ok {x y n : Int}
    : subtractInt x y = .ok n ↔ (-2 ^ 31 ≤ x - y ∧ x - y < 2 ^ 31) ∧ n = x - y := by
  unfold subtractInt
  split
  . next h =>
    rw [Except.ok.injEq]
    constructor
    . intro heq
      exact ⟨h, heq.symm⟩
    . intro heq
      exact heq.2.symm
  . next h =>
    constructor
    . intro heq
      contradiction
    . intro heq
      exact absurd heq.1 h

-- A decrease is never recorded as it is: the two differ by the odd `INT_MAX` modulo 2.
theorem delta_eq_ok {value last : Int}
    : delta value last = .ok (int32 (value - last)) ↔ last ≤ value ∧ value - last ≤ intMax := by
  unfold delta
  split
  . next hlt =>
    rw [Except.bind_eq_ok]
    constructor
    . intro ⟨n, hn, h⟩
      have ⟨_, hn⟩ := subtractInt_eq_ok.mp hn
      have ⟨_, hdelta⟩ := subtractInt_eq_ok.mp h
      unfold int32 at hdelta
      have := Int.bmod_add_bdiv' (value - last) (2 ^ 32)
      unfold intMax at hn
      omega
    . intro h
      omega
  . next hge =>
    constructor
    . intro h
      have ⟨hrange, _⟩ := subtractInt_eq_ok.mp h
      unfold intMax
      omega
    . intro ⟨hle, hmax⟩
      unfold intMax at hmax
      rw [subtractInt_eq_ok]
      refine ⟨by omega, ?_⟩
      apply int32_of_range <;> omega

theorem insertDelta_eq_ok {rhs : Snapshot} {entry result : SampleEntry} {counter : String × Int}
    (hfresh : entry.find counter.1 = none)
    : insertDelta rhs entry counter = .ok result →
        (∀ last, rhs.find counter.1 = some last →
          ∃ d, delta counter.2 last = .ok d ∧ result.find counter.1 = some d) ∧
        ∀ name, name ≠ counter.1 → result.find name = entry.find name := by
  intro h
  unfold insertDelta at h
  split at h
  . next hnone =>
    rw [Except.ok.injEq] at h
    rw [← h]
    constructor
    . intro last hlast
      rw [hnone] at hlast
      contradiction
    . intro name _
      rfl
  . next last hlast =>
    have ⟨d, hd, h⟩ := Except.bind_eq_ok.mp h
    injection h with h
    rw [← h]
    constructor
    . intro last' hlast'
      rw [hlast, Option.some.injEq] at hlast'
      rw [← hlast']
      exists d
      rw [UnorderedMap.find_insert hfresh, if_pos rfl]
      exact ⟨hd, rfl⟩
    . intro name hname
      rw [UnorderedMap.find_insert hfresh, if_neg hname]

theorem foldlM_insertDelta_eq_ok {rhs : Snapshot} {entry result : SampleEntry}
    {counters : List (String × Int)} (hnodup : (counters.map Prod.fst).Nodup)
    (hfresh : ∀ name ∈ counters.map Prod.fst, entry.find name = none)
    (h : counters.foldlM (insertDelta rhs) entry = .ok result)
    : (∀ counter ∈ counters, ∀ last, rhs.find counter.1 = some last →
          ∃ d, delta counter.2 last = .ok d ∧ result.find counter.1 = some d) ∧
        ∀ name, name ∉ counters.map Prod.fst → result.find name = entry.find name := by
  induction counters generalizing entry with
  | nil =>
    injection h with h
    rw [h]
    simp
  | cons counter counters ih =>
    rw [List.map_cons, List.nodup_cons] at hnodup
    rw [List.map_cons, List.forall_mem_cons] at hfresh
    rw [List.foldlM_cons] at h
    have ⟨entry', hentry', h⟩ := Except.bind_eq_ok.mp h
    have ⟨hcounter, hother⟩ := insertDelta_eq_ok hfresh.1 hentry'
    have hfresh' : ∀ name ∈ counters.map Prod.fst, entry'.find name = none := by
      intro name hname
      rw [hother, hfresh.2 name hname]
      intro heq
      rw [heq] at hname
      exact hnodup.1 hname
    have ⟨hcounters, hrest⟩ := ih hnodup.2 hfresh' h
    constructor
    . rw [List.forall_mem_cons]
      refine ⟨?_, hcounters⟩
      intro last hlast
      have ⟨d, hd, hfind⟩ := hcounter last hlast
      exists d
      rw [hrest counter.1 hnodup.1]
      exact ⟨hd, hfind⟩
    . intro name hname
      rw [List.map_cons, List.mem_cons, not_or] at hname
      rw [hrest name hname.2, hother name hname.1]

theorem exists_foldlM_insertDelta {rhs : Snapshot} {counters : List (String × Int)}
    (h : ∀ counter ∈ counters, ∀ last, rhs.find counter.1 = some last →
      ∃ d, delta counter.2 last = .ok d) (entry : SampleEntry)
    : ∃ result, counters.foldlM (insertDelta rhs) entry = .ok result := by
  induction counters generalizing entry with
  | nil => exact ⟨entry, rfl⟩
  | cons counter counters ih =>
    rw [List.forall_mem_cons] at h
    have ⟨entry', hentry'⟩ : ∃ entry', insertDelta rhs entry counter = .ok entry' := by
      unfold insertDelta
      split
      . exact ⟨entry, rfl⟩
      . next last hlast =>
        have ⟨d, hd⟩ := h.1 last hlast
        rw [hd]
        exact ⟨_, rfl⟩
    have ⟨result, hresult⟩ := ih h.2 entry'
    exists result
    rw [List.foldlM_cons, hentry']
    exact hresult

theorem find_of_doSnapshotDiff {lhs rhs : Snapshot} {entry : SampleEntry}
    (h : doSnapshotDiff lhs rhs = .ok entry) {name : String} {value last : Int}
    (hvalue : lhs.find name = some value) (hlast : rhs.find name = some last)
    : ∃ d, delta value last = .ok d ∧ entry.find name = some d := by
  have hfold := (foldlM_insertDelta_eq_ok lhs.nodup (fun _ _ => rfl) h).1
  exact hfold (name, value) (UnorderedMap.find_eq_some.mp hvalue) last hlast

theorem exists_doSnapshotDiff {lhs rhs : Snapshot}
    (h : ∀ name value last, lhs.find name = some value → rhs.find name = some last →
      ∃ d, delta value last = .ok d)
    : ∃ entry, doSnapshotDiff lhs rhs = .ok entry := by
  apply exists_foldlM_insertDelta
  intro counter hcounter last hlast
  exact h counter.1 counter.2 last (UnorderedMap.find_eq_some.mpr hcounter) hlast

theorem find_of_doSample {s s' : CounterSampler} {snapshot : Snapshot} {now : Int}
    {entry : SampleEntry} (h : doSample s snapshot now = .ok (entry, s'))
    : s'.lastSnapshot = snapshot ∧ ∀ name value last, snapshot.find name = some value →
        s.lastSnapshot.find name = some last →
        ∃ d, delta value last = .ok d ∧ entry.find name = some d := by
  unfold doSample at h
  have ⟨entry', hentry, h⟩ := Except.bind_eq_ok.mp h
  have hs : entry' = entry ∧ s'.lastSnapshot = snapshot := by
    dsimp only at h
    split at h
    all_goals
      injection h with h
      injection h with hentry' h
      rw [← h]
      exact ⟨hentry', rfl⟩
  refine ⟨hs.2, ?_⟩
  intro name value last hvalue hlast
  unfold sampleEntry at hentry
  split at hentry
  . next hempty =>
    rw [UnorderedMap.find_of_isEmpty hempty] at hlast
    contradiction
  . rw [hs.1] at hentry
    exact find_of_doSnapshotDiff hentry hvalue hlast

theorem exists_doSample {s : CounterSampler} {snapshot : Snapshot}
    (h : ∀ name value last, snapshot.find name = some value →
      s.lastSnapshot.find name = some last → ∃ d, delta value last = .ok d) (now : Int)
    : ∃ entry s', doSample s snapshot now = .ok (entry, s') := by
  have ⟨entry, hentry⟩ : ∃ entry, sampleEntry s snapshot = .ok entry := by
    unfold sampleEntry
    split
    . exact ⟨.empty, rfl⟩
    . exact exists_doSnapshotDiff h
  unfold doSample
  rw [hentry]
  dsimp only [bind, Except.bind]
  split
  all_goals
    exact ⟨_, _, rfl⟩

def valueAt (snapshots : List Snapshot) (i : Nat) (name : String) : Option Int :=
  snapshots[i]?.bind (UnorderedMap.find · name)

def deltaAt (entries : List SampleEntry) (i : Nat) (name : String) : Option Int :=
  entries[i]?.bind (UnorderedMap.find · name)

@[simp]
theorem valueAt_cons_zero (snapshot : Snapshot) (snapshots : List Snapshot) (name : String)
    : valueAt (snapshot :: snapshots) 0 name = snapshot.find name := by
  simp [valueAt]

@[simp]
theorem valueAt_cons_succ (snapshot : Snapshot) (snapshots : List Snapshot) (i : Nat) (name : String)
    : valueAt (snapshot :: snapshots) (i + 1) name = valueAt snapshots i name := by
  simp [valueAt]

@[simp]
theorem deltaAt_cons_zero (entry : SampleEntry) (entries : List SampleEntry) (name : String)
    : deltaAt (entry :: entries) 0 name = entry.find name := by
  simp [deltaAt]

@[simp]
theorem deltaAt_cons_succ (entry : SampleEntry) (entries : List SampleEntry) (i : Nat) (name : String)
    : deltaAt (entry :: entries) (i + 1) name = deltaAt entries i name := by
  simp [deltaAt]

theorem deltaAt_of_doSamples {s s' : CounterSampler} {samples : List (Snapshot × Int)}
    {entries : List SampleEntry} (h : doSamples s samples = .ok (entries, s'))
    {i : Nat} {name : String} {value last : Int}
    (hlast : valueAt (s.lastSnapshot :: samples.map Prod.fst) i name = some last)
    (hvalue : valueAt (samples.map Prod.fst) i name = some value)
    : ∃ d, delta value last = .ok d ∧ deltaAt entries i name = some d := by
  induction samples generalizing s s' entries i with
  | nil =>
    unfold valueAt at hvalue
    simp at hvalue
  | cons sample samples ih =>
    unfold doSamples at h
    have ⟨⟨entry, s₁⟩, hsample, h⟩ := Except.bind_eq_ok.mp h
    have ⟨⟨rest, s₂⟩, hsamples, h⟩ := Except.bind_eq_ok.mp h
    injection h with h
    injection h with hentries _
    have ⟨hsnapshot, hfind⟩ := find_of_doSample hsample
    rw [← hentries]
    cases i with
    | zero =>
      simp only [List.map_cons, valueAt_cons_zero] at hlast hvalue
      rw [deltaAt_cons_zero]
      exact hfind name value last hvalue hlast
    | succ i =>
      rw [List.map_cons, valueAt_cons_succ] at hlast hvalue
      rw [deltaAt_cons_succ]
      apply ih hsamples _ hvalue
      rw [hsnapshot]
      exact hlast

theorem exists_doSamples {s : CounterSampler} {samples : List (Snapshot × Int)}
    (h : ∀ i name value last, valueAt (s.lastSnapshot :: samples.map Prod.fst) i name = some last →
      valueAt (samples.map Prod.fst) i name = some value → ∃ d, delta value last = .ok d)
    : ∃ entries s', doSamples s samples = .ok (entries, s') := by
  induction samples generalizing s with
  | nil => exact ⟨[], s, rfl⟩
  | cons sample samples ih =>
    have ⟨entry, s₁, hsample⟩ : ∃ entry s₁, doSample s sample.1 sample.2 = .ok (entry, s₁) := by
      apply exists_doSample
      intro name value last hvalue hlast
      apply h 0 name value last
      . rw [valueAt_cons_zero]
        exact hlast
      . rw [List.map_cons, valueAt_cons_zero]
        exact hvalue
    have ⟨entries, s₂, hsamples⟩ : ∃ entries s₂, doSamples s₁ samples = .ok (entries, s₂) := by
      apply ih
      intro i name value last hlast hvalue
      apply h (i + 1) name value last
      . rw [List.map_cons, valueAt_cons_succ, ← (find_of_doSample hsample).1]
        exact hlast
      . rw [List.map_cons, valueAt_cons_succ]
        exact hvalue
    exists entry :: entries, s₂
    unfold doSamples
    rw [hsample]
    dsimp only [bind, Except.bind]
    rw [hsamples]
    rfl

-- Every pair of consecutive snapshots reports the true change of a counter that both have, so do
-- the deltas of any number of consecutive snapshots that have the counter.
structure DeltasAddUp (snapshots : List Snapshot) (entries : List SampleEntry) : Prop where
  change : ∀ i name last value, valueAt snapshots i name = some last →
    valueAt snapshots (i + 1) name = some value →
    deltaAt entries (i + 1) name = some (int32 (value - last))
  sum : ∀ i k name first last, (∀ j ≤ k, (valueAt snapshots (i + j) name).isSome) →
    valueAt snapshots i name = some first → valueAt snapshots (i + k) name = some last →
    int32 ((List.range k).map fun j => (deltaAt entries (i + j + 1) name).getD 0).sum =
      int32 (last - first)

theorem sum_deltas {snapshots : List Snapshot} {entries : List SampleEntry} {name : String}
    (hchange : ∀ i last value, valueAt snapshots i name = some last →
      valueAt snapshots (i + 1) name = some value →
      deltaAt entries (i + 1) name = some (int32 (value - last)))
    (i k : Nat) {first last : Int} (hall : ∀ j ≤ k, (valueAt snapshots (i + j) name).isSome)
    (hfirst : valueAt snapshots i name = some first)
    (hlast : valueAt snapshots (i + k) name = some last)
    : int32 ((List.range k).map fun j => (deltaAt entries (i + j + 1) name).getD 0).sum =
        int32 (last - first) := by
  induction k generalizing last with
  | zero =>
    rw [Nat.add_zero, hfirst, Option.some.injEq] at hlast
    rw [hlast, Int.sub_self]
    simp
  | succ k ih =>
    have ⟨value, hvalue⟩ := Option.isSome_iff_exists.mp (hall k (by omega))
    have hdelta := hchange (i + k) value last hvalue hlast
    have hsum := ih (fun j hj => hall j (by omega)) hvalue
    rw [List.range_succ, List.map_append, List.sum_append, List.map_singleton, List.sum_singleton,
      hdelta, Option.getD_some, int32_add_int32, ← int32_int32_add, hsum, int32_int32_add]
    congr 1
    omega

-- The counters that two consecutive snapshots have do not decrease, and their increase is an `int`.
def NeverDecrease (snapshots : List Snapshot) : Prop :=
  ∀ i name last value, valueAt snapshots i name = some last →
    valueAt snapshots (i + 1) name = some value → last ≤ value ∧ value - last ≤ intMax

theorem deltasAddUp_iff (capacity : Nat) (samples : List (Snapshot × Int))
    : (∃ entries s, doSamples (create capacity) samples = .ok (entries, s) ∧
        DeltasAddUp (samples.map Prod.fst) entries) ↔ NeverDecrease (samples.map Prod.fst) := by
  constructor
  . intro ⟨entries, s, h, hsum⟩ i name last value hlast hvalue
    have hlast' : valueAt ((create capacity).lastSnapshot :: samples.map Prod.fst) (i + 1) name =
        some last := by
      rw [valueAt_cons_succ]
      exact hlast
    have ⟨d, hd, hreported⟩ := deltaAt_of_doSamples h hlast' hvalue
    rw [hsum.change i name last value hlast hvalue, Option.some.injEq] at hreported
    rw [← hreported] at hd
    exact delta_eq_ok.mp hd
  . intro hgrow
    have hdelta : ∀ i name value last,
        valueAt ((create capacity).lastSnapshot :: samples.map Prod.fst) i name = some last →
        valueAt (samples.map Prod.fst) i name = some value →
        delta value last = .ok (int32 (value - last)) := by
      intro i name value last hlast hvalue
      cases i with
      | zero =>
        rw [valueAt_cons_zero] at hlast
        contradiction
      | succ i =>
        rw [valueAt_cons_succ] at hlast
        exact delta_eq_ok.mpr (hgrow i name last value hlast hvalue)
    have ⟨entries, s, h⟩ : ∃ entries s, doSamples (create capacity) samples = .ok (entries, s) := by
      apply exists_doSamples
      intro i name value last hlast hvalue
      exact ⟨_, hdelta i name value last hlast hvalue⟩
    have hchange : ∀ i name last value, valueAt (samples.map Prod.fst) i name = some last →
        valueAt (samples.map Prod.fst) (i + 1) name = some value →
        deltaAt entries (i + 1) name = some (int32 (value - last)) := by
      intro i name last value hlast hvalue
      have hlast : valueAt ((create capacity).lastSnapshot :: samples.map Prod.fst) (i + 1) name =
          some last := by
        rw [valueAt_cons_succ]
        exact hlast
      have ⟨d, hd, hreported⟩ := deltaAt_of_doSamples h hlast hvalue
      rw [hdelta (i + 1) name value last hlast hvalue, Except.ok.injEq] at hd
      rw [hd]
      exact hreported
    refine ⟨entries, s, h, hchange, ?_⟩
    intro i k name first last hall hfirst hlast
    exact sum_deltas (fun i last value => hchange i name last value) i k hall hfirst hlast

theorem not_deltasAddUp
    : ∃ entries s, doSamples (create 1) [(UnorderedMap.empty.insert "x" 5, 0),
          (UnorderedMap.empty.insert "x" 3, 1)] = .ok (entries, s) ∧
        deltaAt entries 1 "x" = some 2147483639 ∧
        ¬DeltasAddUp [UnorderedMap.empty.insert "x" 5, UnorderedMap.empty.insert "x" 3] entries := by
  refine ⟨_, _, rfl, by decide, ?_⟩
  intro h
  have := h.change 0 "x" 5 3 (by decide) (by decide)
  revert this
  decide

end CounterSampler
end Claire
