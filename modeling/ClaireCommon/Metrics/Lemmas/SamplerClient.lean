import ClaireCommon.Lib.Except
import ClaireCommon.Lib.Machine
import ClaireCommon.Lib.Recent
import ClaireCommon.Metrics.Impl.SamplerClient
import ClaireCommon.Metrics.Lemmas.CounterSampler

/-!
This module contains that a client that asks the sampler for what is new gets no sample twice, and all of
them where it asks often enough.
-/

namespace Claire
namespace CounterSampler

open DeclaredHistogram (key ofInt)
open Protobuf (Json)
open Recent (recent)

def IsInt (n : Int) : Prop := -2 ^ 31 ≤ n ∧ n < 2 ^ 31

structure Fits (sample : Sample) : Prop where
  time : -2 ^ 63 ≤ sample.1 * 1000 ∧ sample.1 * 1000 < 2 ^ 63
  values : ∀ counter ∈ sample.2.entries, IsInt counter.2

theorem isInt_of_delta {value last d : Int} (h : delta value last = .ok d) : IsInt d := by
  unfold delta at h
  split at h
  . have ⟨n, _, h⟩ := Except.bind_eq_ok.mp h
    have ⟨hrange, hd⟩ := subtractInt_eq_ok.mp h
    rw [hd]
    exact hrange
  . have ⟨hrange, hd⟩ := subtractInt_eq_ok.mp h
    rw [hd]
    exact hrange

theorem isInt_of_insertDelta {rhs : Snapshot} {entry result : SampleEntry} {counter : String × Int}
    (hentry : ∀ counter ∈ entry.entries, IsInt counter.2) (h : insertDelta rhs entry counter = .ok result)
    : ∀ counter ∈ result.entries, IsInt counter.2 := by
  unfold insertDelta at h
  split at h
  . injection h with h
    rw [← h]
    exact hentry
  . have ⟨d, hd, h⟩ := Except.bind_eq_ok.mp h
    injection h with h
    rw [← h]
    intro counter' hcounter'
    dsimp only [UnorderedMap.insert] at hcounter'
    split at hcounter'
    . exact hentry counter' hcounter'
    . rw [List.mem_append, List.mem_singleton] at hcounter'
      cases hcounter' with
      | inl hcounter' => exact hentry counter' hcounter'
      | inr hcounter' =>
        rw [hcounter']
        exact isInt_of_delta hd

theorem isInt_of_foldlM {rhs : Snapshot} {entry result : SampleEntry} {counters : List (String × Int)}
    (hentry : ∀ counter ∈ entry.entries, IsInt counter.2)
    (h : counters.foldlM (insertDelta rhs) entry = .ok result)
    : ∀ counter ∈ result.entries, IsInt counter.2 := by
  induction counters generalizing entry with
  | nil =>
    injection h with h
    rw [← h]
    exact hentry
  | cons counter counters ih =>
    rw [List.foldlM_cons] at h
    have ⟨entry', hentry', h⟩ := Except.bind_eq_ok.mp h
    exact ih (isInt_of_insertDelta hentry hentry') h

theorem isInt_of_doSample {s s' : CounterSampler} {snapshot : Snapshot} {now : Int} {entry : SampleEntry}
    (h : doSample s snapshot now = .ok (entry, s'))
    : (∀ counter ∈ entry.entries, IsInt counter.2) ∧ s'.capacity = s.capacity ∧
        s'.samples =
          if entry.isEmpty then s.samples else pushBack s.capacity s.samples (now, entry) := by
  have hnone : ∀ counter ∈ (UnorderedMap.empty : SampleEntry).entries, IsInt counter.2 := by
    intro counter hcounter
    contradiction
  unfold doSample at h
  have ⟨entry', hentry', h⟩ := Except.bind_eq_ok.mp h
  have hvalues : ∀ counter ∈ entry'.entries, IsInt counter.2 := by
    unfold sampleEntry at hentry'
    split at hentry'
    . injection hentry' with hentry'
      rw [← hentry']
      exact hnone
    . exact isInt_of_foldlM hnone hentry'
  dsimp only at h
  split at h
  . next hempty =>
    injection h with h
    injection h with hentry hs
    rw [← hentry, ← hs, if_pos hempty]
    exact ⟨hvalues, rfl, rfl⟩
  . next hempty =>
    injection h with h
    injection h with hentry hs
    rw [← hentry, ← hs, if_neg hempty]
    exact ⟨hvalues, rfl, rfl⟩

namespace Client

theorem readInt_ofInt {n : Int} (h : IsInt n) : readInt (ofInt n) = some n := by
  unfold readInt ofInt
  dsimp only [Protobuf.JsonInteger.ofInt32]
  rw [Int32.toInt_ofInt_of_le h.1 h.2]

theorem mapM_readInt {values : List Int} (h : ∀ n ∈ values, IsInt n)
    : (values.map ofInt).mapM readInt = some values := by
  induction values with
  | nil => rfl
  | cons n values ih =>
    rw [List.forall_mem_cons] at h
    rw [List.map_cons, List.mapM_cons, readInt_ofInt h.1, ih h.2]
    rfl

theorem readRow_item {metrics : List String} {sample : Sample} (h : Fits sample)
    : readRow (row metrics sample).item = some (row metrics sample) := by
  have hvalues : ∀ n ∈ metrics.map (valueOf sample.2), IsInt n := by
    intro n hn
    have ⟨metric, _, hmetric⟩ := List.mem_map.mp hn
    rw [← hmetric]
    unfold valueOf
    split
    . next value hfind => exact h.values (metric, value) (UnorderedMap.find_eq_some.mp hfind)
    . exact ⟨by omega, by omega⟩
  have htime : readInt (.number (.ofInt64 (.ofInt (sample.1 * 1000)))) = some (sample.1 * 1000) := by
    unfold readInt
    dsimp only [Protobuf.JsonInteger.ofInt64]
    rw [Int64.toInt_ofInt_of_le h.time.1 h.time.2]
  dsimp only [row, Row.item, readRow]
  rw [htime, mapM_readInt hvalues]
  rfl

theorem rows_eq (metrics : List String) (since : Int) (samples : List Sample)
    : rows metrics since samples =
        (samples.filter fun sample => since < 1000 * sample.1).map (row metrics) := by
  induction samples with
  | nil => rfl
  | cons sample samples ih =>
    unfold rows
    rw [ih]
    split
    . next hle => rw [List.filter_cons_of_neg (by simpa using hle)]
    . next hle => rw [List.filter_cons_of_pos (by simpa using hle), List.map_cons]

theorem readData_writeJson {s : CounterSampler} (h : ∀ sample ∈ s.samples, Fits sample)
    (metrics : List String) (since : Int)
    : readData (s.writeJson metrics since) = some (rows metrics since s.samples) := by
  have hread : ∀ samples : List Sample, (∀ sample ∈ samples, Fits sample) →
      ((rows metrics since samples).map Row.item).mapM readRow = some (rows metrics since samples) := by
    intro samples hsamples
    induction samples with
    | nil => rfl
    | cons sample samples ih =>
      rw [List.forall_mem_cons] at hsamples
      unfold rows
      split
      . exact ih hsamples.2
      . rw [List.map_cons, List.mapM_cons, readRow_item hsamples.1, ih hsamples.2]
        rfl
  have hlookup : (key "data" == key "names") = false := by decide
  unfold readData writeJson
  simp only [List.lookup_cons, hlookup, beq_self_eq_true, hread s.samples h]

-- The samples since the last request, of which `capacity` are kept, and what has been handed out
structure Feed where
  pending : List Sample
  since : Int
  received : List Row

namespace Feed

variable (capacity : Nat) (metrics : List String)

def news (f : Feed) : List Sample :=
  (recent capacity f.pending).filter fun sample => f.since < 1000 * sample.1

def push (f : Feed) (sample : Sample) : Feed := { f with pending := f.pending ++ [sample] }

def handOut (f : Feed) : Feed where
  pending := []
  since := newest f.since ((f.news capacity).map (row metrics))
  received := f.received ++ (f.news capacity).map (row metrics)

def step (f : Feed) : Option Sample → Feed
  | some sample => f.push sample
  | none => f.handOut capacity metrics

def ofHistory (since : Int) (history : List (Option Sample)) : Feed :=
  history.foldl (step capacity metrics) { pending := [], since := since, received := [] }

end Feed

def recorded (history : List (Option Sample)) : List Sample := history.filterMap id

def AsksOften (capacity : Nat) (history : List (Option Sample)) : Prop :=
  ∀ front samples back, history = front ++ List.map some samples ++ back → samples.length ≤ capacity

-- The clock goes on between two samples, and `since` is before all of them.
structure GoesOn (since : Int) (samples : List Sample) : Prop where
  pairwise : samples.Pairwise fun sample sample' => sample.1 < sample'.1
  since_lt : ∀ sample ∈ samples, since < 1000 * sample.1

structure Feeds (capacity : Nat) (metrics : List String) (since : Int) (c : Client) : Prop where
  received_eq : c.received = (Feed.ofHistory capacity metrics since c.history).received
  sublist : List.Sublist c.received ((recorded c.history).map (row metrics))
  complete : ∀ history, c.history = history ++ [none] → AsksOften capacity c.history →
      GoesOn since (recorded c.history) → c.received = (recorded c.history).map (row metrics)
  names_eq : 0 < capacity → c.sampler.writeNames = (recorded c.history).getLast?.map fun sample =>
      .array (sample.2.entries.map fun counter => .string (cString (key counter.1)))

variable {capacity : Nat} {metrics : List String} {since : Int}

theorem le_newest (since : Int) (rows : List Row) : since ≤ newest since rows := by
  unfold newest
  induction rows generalizing since with
  | nil => exact Int.le_refl _
  | cons r rows ih => exact Int.le_trans (Int.le_max_left _ _) (ih _)

theorem time_le_newest {rows : List Row} {r : Row} (h : r ∈ rows) : r.time ≤ newest since rows := by
  induction rows generalizing since with
  | nil => contradiction
  | cons r' rows ih =>
    cases h with
    | head => exact Int.le_trans (Int.le_max_right since r.time) (le_newest _ rows)
    | tail _ h => exact ih h

theorem newest_mem (since : Int) (rows : List Row)
    : newest since rows = since ∨ ∃ r ∈ rows, newest since rows = r.time := by
  induction rows generalizing since with
  | nil => exact .inl rfl
  | cons r rows ih =>
    rcases ih (max since r.time) with h | ⟨r', hr', h⟩
    . rcases Int.le_total since r.time with hle | hle
      . exact .inr ⟨r, List.mem_cons_self, h.trans (Int.max_eq_right hle)⟩
      . exact .inl (h.trans (Int.max_eq_left hle))
    . exact .inr ⟨r', List.mem_cons_of_mem _ hr', h⟩

theorem ofHistory_concat (history : List (Option Sample)) (entry : Option Sample)
    : Feed.ofHistory capacity metrics since (history ++ [entry]) =
        (Feed.ofHistory capacity metrics since history).step capacity metrics entry := by
  unfold Feed.ofHistory
  rw [List.foldl_append]
  rfl

theorem recorded_concat (history : List (Option Sample)) (entry : Option Sample)
    : recorded (history ++ [entry]) = recorded history ++ entry.toList :=
  Machine.filterMap_concat id history entry

structure Inv (capacity : Nat) (metrics : List String) (since : Int) (c : Client) : Prop where
  capacity_eq : c.sampler.capacity = capacity
  fits : ∀ sample ∈ recorded c.history, Fits sample
  samples_eq : c.sampler.samples = recent capacity (recorded c.history)
  since_eq : c.since = (Feed.ofHistory capacity metrics since c.history).since
  received_eq : c.received = (Feed.ofHistory capacity metrics since c.history).received
  split : ∃ old,
      recorded c.history = old ++ (Feed.ofHistory capacity metrics since c.history).pending ∧
      (∀ sample ∈ recent capacity old, 1000 * sample.1 ≤ c.since) ∧
      List.Sublist c.received (old.map (row metrics))

theorem inv_init (capacity : Nat) (metrics : List String) (since : Int)
    : Inv capacity metrics since (init capacity since) where
  capacity_eq := rfl
  fits := fun _ h => absurd h List.not_mem_nil
  samples_eq := (Recent.recent_of_length_le (Nat.zero_le _)).symm
  since_eq := rfl
  received_eq := rfl
  split := ⟨[], rfl, fun _ h => absurd (Recent.recent_subset _ _ h) List.not_mem_nil, List.Sublist.refl _⟩

theorem Inv.rows_eq {c : Client} (h : Inv capacity metrics since c)
    : rows metrics c.since c.sampler.samples =
        ((Feed.ofHistory capacity metrics since c.history).news capacity).map (row metrics) := by
  have ⟨old, hold, hpast, _⟩ := h.split
  rw [Client.rows_eq, h.samples_eq, hold, Recent.recent_append, List.filter_append]
  have hnone : (recent (capacity - (Feed.ofHistory capacity metrics since c.history).pending.length)
      old).filter (fun sample => c.since < 1000 * sample.1) = [] := by
    rw [List.filter_eq_nil_iff]
    intro sample hsample
    have := hpast sample (Recent.recent_mono (Nat.sub_le _ _) old hsample)
    simpa using this
  rw [hnone, List.nil_append, h.since_eq]
  rfl

theorem Inv.sample {c c' : Client} (h : Inv capacity metrics since c) {snapshot : Snapshot} {now : Int}
    (hnow : -2 ^ 63 ≤ now * 1000 ∧ now * 1000 < 2 ^ 63) (hsample : c.sample snapshot now = some c')
    : Inv capacity metrics since c' := by
  unfold Client.sample at hsample
  split at hsample
  . contradiction
  . next entry sampler hdo =>
    have ⟨hvalues, hcapacity, hsamples⟩ := isInt_of_doSample hdo
    injection hsample with hsample
    rw [← hsample]
    by_cases hempty : entry.isEmpty
    . rw [if_pos hempty] at hsamples
      simp only [hempty, ↓reduceIte]
      exact { h with
        capacity_eq := hcapacity.trans h.capacity_eq
        samples_eq := hsamples.trans h.samples_eq }
    . rw [if_neg hempty] at hsamples
      simp only [hempty, Bool.false_eq_true, ↓reduceIte]
      have hfeed := @ofHistory_concat capacity metrics since c.history (some (now, entry))
      have ⟨old, hold, hpast, hreceived⟩ := h.split
      refine ⟨hcapacity.trans h.capacity_eq, ?_, ?_, ?_, ?_, old, ?_, hpast, hreceived⟩
      . intro sample hsample
        rw [recorded_concat, List.mem_append] at hsample
        cases hsample with
        | inl hsample => exact h.fits sample hsample
        | inr hsample =>
          rw [List.mem_singleton.mp hsample]
          exact ⟨hnow, hvalues⟩
      . rw [hsamples, h.samples_eq, h.capacity_eq, recorded_concat]
        exact Recent.recent_push capacity (recorded c.history) (now, entry)
      . rw [hfeed]
        exact h.since_eq
      . rw [hfeed]
        exact h.received_eq
      . rw [hfeed, recorded_concat, hold, List.append_assoc]
        rfl

theorem Inv.readData {c : Client} (h : Inv capacity metrics since c)
    : readData (c.sampler.writeJson metrics c.since) = some (rows metrics c.since c.sampler.samples) := by
  apply readData_writeJson
  intro sample hsample
  rw [h.samples_eq] at hsample
  exact h.fits sample (Recent.recent_subset _ _ hsample)

theorem Inv.request {c c' : Client} (h : Inv capacity metrics since c)
    (hrequest : c.request metrics = some c') : Inv capacity metrics since c' := by
  unfold Client.request at hrequest
  rw [h.readData] at hrequest
  injection hrequest with hrequest
  have hrows := h.rows_eq
  have hfeed := @ofHistory_concat capacity metrics since c.history none
  have hrecorded : recorded (c.history ++ [none]) = recorded c.history := by
    rw [recorded_concat]
    exact List.append_nil _
  have ⟨old, hold, hpast, hreceived⟩ := h.split
  rw [← hrequest]
  refine ⟨h.capacity_eq, ?_, ?_, ?_, ?_, recorded c.history, ?_, ?_, ?_⟩
  . rw [hrecorded]
    exact h.fits
  . rw [hrecorded]
    exact h.samples_eq
  . rw [hfeed, hrows, h.since_eq]
    rfl
  . rw [hfeed, hrows, h.received_eq]
    rfl
  . rw [hfeed, hrecorded]
    exact (List.append_nil _).symm
  . intro sample hsample
    by_cases hle : 1000 * sample.1 ≤ c.since
    . exact Int.le_trans hle (le_newest _ _)
    . have hmem : row metrics sample ∈ rows metrics c.since c.sampler.samples := by
        rw [Client.rows_eq, h.samples_eq]
        apply List.mem_map_of_mem
        rw [List.mem_filter]
        exact ⟨hsample, by simpa using hle⟩
      have htime : sample.1 * 1000 ≤ newest c.since (rows metrics c.since c.sampler.samples) :=
        time_le_newest hmem
      dsimp only
      omega
  . rw [hrows, hold, List.map_append]
    apply List.Sublist.append hreceived
    apply List.Sublist.map
    exact List.Sublist.trans List.filter_sublist (List.drop_sublist _ _)

theorem inv_of_run {labels : List Label} {c : Client}
    (htimes : ∀ snapshot now, .sample snapshot now ∈ labels → -2 ^ 63 ≤ now * 1000 ∧ now * 1000 < 2 ^ 63)
    (h : Machine.run (step metrics) (init capacity since) labels = some c)
    : Inv capacity metrics since c := by
  revert htimes
  apply Machine.run_induction (P := fun labels c =>
    (∀ snapshot now, .sample snapshot now ∈ labels → -2 ^ 63 ≤ now * 1000 ∧ now * 1000 < 2 ^ 63) →
    Inv capacity metrics since c) _ _ h
  . intro _
    exact inv_init capacity metrics since
  . intro labels c label c' _ ih hstep htimes
    have hinv := ih fun snapshot now hmem => htimes snapshot now (List.mem_append_left _ hmem)
    cases label with
    | sample snapshot now =>
      exact hinv.sample (htimes snapshot now (List.mem_append_right _ (List.mem_singleton_self _))) hstep
    | request => exact hinv.request hstep

theorem AsksOften.of_append {history back : List (Option Sample)}
    (h : AsksOften capacity (history ++ back)) : AsksOften capacity history := by
  intro front samples back' heq
  apply h front samples (back' ++ back)
  rw [heq, List.append_assoc]

theorem GoesOn.of_append {samples samples' : List Sample} (h : GoesOn since (samples ++ samples'))
    : GoesOn since samples where
  pairwise := (List.pairwise_append.mp h.pairwise).1
  since_lt := fun sample hsample => h.since_lt sample (List.mem_append_left _ hsample)

structure UpToDate (since : Int) (metrics : List String) (history : List (Option Sample)) (f : Feed)
    (old : List Sample) : Prop where
  recorded_eq : recorded history = old ++ f.pending
  received_eq : f.received = old.map (row metrics)
  since_eq : f.since = since ∨ ∃ sample ∈ old, f.since = 1000 * sample.1
  pending : ∃ front, history = front ++ f.pending.map some

theorem UpToDate.news_eq {history : List (Option Sample)} {f : Feed} {old : List Sample}
    (h : UpToDate since metrics history f old) (hoften : AsksOften capacity history)
    (hgoes : GoesOn since (recorded history)) : f.news capacity = f.pending := by
  have ⟨front, hfront⟩ := h.pending
  have hlength : f.pending.length ≤ capacity := by
    apply hoften front f.pending []
    rw [List.append_nil]
    exact hfront
  unfold Feed.news
  rw [Recent.recent_of_length_le hlength, List.filter_eq_self]
  intro sample hsample
  rw [h.recorded_eq] at hgoes
  rw [decide_eq_true_eq]
  rcases h.since_eq with heq | ⟨last, hlast, heq⟩
  . rw [heq]
    exact hgoes.since_lt sample (List.mem_append_right _ hsample)
  . have := (List.pairwise_append.mp hgoes.pairwise).2.2 last hlast sample hsample
    omega

theorem UpToDate.push {history : List (Option Sample)} {f : Feed} {old : List Sample}
    (h : UpToDate since metrics history f old) (sample : Sample)
    : UpToDate since metrics (history ++ [some sample]) (f.push sample) old where
  recorded_eq := by
    rw [recorded_concat, h.recorded_eq, List.append_assoc]
    rfl
  received_eq := h.received_eq
  since_eq := h.since_eq
  pending := by
    have ⟨front, hfront⟩ := h.pending
    refine ⟨front, ?_⟩
    dsimp only [Feed.push]
    rw [hfront, List.map_append, List.append_assoc]
    rfl

theorem UpToDate.handOut {history : List (Option Sample)} {f : Feed} {old : List Sample}
    (h : UpToDate since metrics history f old) (hnews : f.news capacity = f.pending)
    : UpToDate since metrics (history ++ [none]) (f.handOut capacity metrics) (old ++ f.pending) where
  recorded_eq := by
    rw [recorded_concat, h.recorded_eq]
    rfl
  received_eq := by
    dsimp only [Feed.handOut]
    rw [hnews, h.received_eq, List.map_append]
  since_eq := by
    dsimp only [Feed.handOut]
    rw [hnews]
    rcases newest_mem f.since (f.pending.map (row metrics)) with heq | ⟨r, hr, heq⟩
    . rw [heq]
      rcases h.since_eq with hsince | ⟨sample, hsample, hsince⟩
      . exact .inl hsince
      . exact .inr ⟨sample, List.mem_append_left _ hsample, hsince⟩
    . have ⟨sample, hsample, hrow⟩ := List.mem_map.mp hr
      refine .inr ⟨sample, List.mem_append_right _ hsample, ?_⟩
      rw [heq, ← hrow]
      exact Int.mul_comm _ _
  pending := ⟨history ++ [none], (List.append_nil _).symm⟩

theorem upToDate {history : List (Option Sample)} (hoften : AsksOften capacity history)
    (hgoes : GoesOn since (recorded history))
    : ∃ old, UpToDate since metrics history (Feed.ofHistory capacity metrics since history) old := by
  induction history using List.reverseRecOn with
  | nil => exact ⟨[], rfl, rfl, .inl rfl, [], rfl⟩
  | append_singleton history entry ih =>
    have hgoes' := hgoes
    rw [recorded_concat] at hgoes'
    have ⟨old, h⟩ := ih hoften.of_append hgoes'.of_append
    rw [ofHistory_concat]
    cases entry with
    | some sample => exact ⟨old, h.push sample⟩
    | none => exact ⟨_, h.handOut (h.news_eq hoften.of_append hgoes'.of_append)⟩

theorem feeds_of_run {labels : List Label} {c : Client}
    (htimes : ∀ snapshot now, .sample snapshot now ∈ labels → -2 ^ 63 ≤ now * 1000 ∧ now * 1000 < 2 ^ 63)
    (h : Machine.run (step metrics) (init capacity since) labels = some c)
    : Feeds capacity metrics since c ∧ ∃ c', c.request metrics = some c' := by
  have hinv := inv_of_run htimes h
  have ⟨old, hold, _, hreceived⟩ := hinv.split
  refine ⟨⟨hinv.received_eq, ?_, ?_, ?_⟩, ?_⟩
  . rw [hold, List.map_append]
    exact hreceived.trans (List.sublist_append_left _ _)
  . intro history heq hoften hgoes
    have ⟨old', hdate⟩ := @upToDate capacity metrics since c.history hoften hgoes
    have hpending : (Feed.ofHistory capacity metrics since c.history).pending = [] := by
      rw [heq, ofHistory_concat]
      rfl
    rw [hinv.received_eq, hdate.received_eq, hdate.recorded_eq, hpending, List.append_nil]
  . intro hpos
    unfold writeNames
    rw [hinv.samples_eq, Recent.getLast?_recent hpos]
  . unfold Client.request
    rw [hinv.readData]
    exact ⟨_, rfl⟩

def snapshotOf (name : String) (value : Int) : Snapshot := ⟨[(name, value)], List.nodup_singleton _⟩

def asksTwice : List Label :=
  [.sample (snapshotOf "a" 1) 9, .sample (snapshotOf "a" 3) 10, .request, .sample (snapshotOf "a" 4) 11,
    .request]

theorem feeds_of_run_asksTwice
    : ∃ c, Machine.run (step ["a", "b"]) (init 2 0) asksTwice = some c ∧
        c.received = [⟨10000, [2, 0]⟩, ⟨11000, [1, 0]⟩] ∧ Feeds 2 ["a", "b"] 0 c := by
  refine ⟨_, rfl, rfl, (@feeds_of_run _ _ _ asksTwice _ ?_ rfl).1⟩
  intro snapshot now hmem
  simp only [asksTwice, List.mem_cons, Label.sample.injEq, reduceCtorEq, List.not_mem_nil, or_false,
    false_or] at hmem
  omega

end Client
end CounterSampler
end Claire
