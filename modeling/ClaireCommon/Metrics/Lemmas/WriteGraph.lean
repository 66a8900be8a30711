import ClaireCommon.Metrics.Impl.WriteGraph
import ClaireCommon.Metrics.Lemmas.HistogramRecorder

/-!
This module contains what `WriteGraph` writes while other threads get histograms: each histogram that was
registered when it took its snapshot and that is asked for, once and in the order of the names, and none
that has been deleted.
-/

namespace Claire

variable {π τ : Type}

namespace HistogramRecorder

theorem nameBytes_inj {name name' : String} (h : nameBytes name = nameBytes name') : name = name' := by
  have hinj : Function.Injective Char.toNat := fun c d h => Char.toNat_inj.mp h
  exact String.toList_inj.mp (hinj.list_map h)

instance : Std.Total (InOrder (π := π)) where
  total a b := le_total (nameBytes a.1) (nameBytes b.1)

instance : IsTrans (String × π) InOrder where
  trans _ _ _ hab hbc := le_trans hab hbc

structure IsSnapshot (r : HistogramRecorder π) (query : String) (snapshot : List π) (names : List String)
    : Prop where
  ascending : (names.map nameBytes).Pairwise (· < ·)
  mem_iff : ∀ name, name ∈ names ↔ (r.findHistogram name).isSome ∧ Asked query name
  found : snapshot.map some = names.map r.findHistogram

def sorted (r : HistogramRecorder π) : List (String × π) := r.histograms.entries.insertionSort InOrder

theorem pairwise_sorted (r : HistogramRecorder π)
    : r.sorted.Pairwise fun a b => nameBytes a.1 < nameBytes b.1 := by
  have hperm : r.sorted.Perm r.histograms.entries := List.perm_insertionSort _ _
  have hnodup : r.sorted.Pairwise fun a b => a.1 ≠ b.1 := by
    rw [← List.pairwise_map (f := Prod.fst)]
    exact (hperm.map Prod.fst).nodup_iff.mpr r.histograms.nodup
  have hsorted : r.sorted.Pairwise InOrder := List.pairwise_insertionSort _ _
  apply (hsorted.and hnodup).imp
  intro a b ⟨hle, hne⟩
  apply lt_of_le_of_ne hle
  exact fun heq => hne (nameBytes_inj heq)

theorem mem_sorted {r : HistogramRecorder π} {entry : String × π}
    : entry ∈ r.sorted ↔ r.findHistogram entry.1 = some entry.2 := by
  unfold sorted findHistogram
  rw [List.mem_insertionSort, UnorderedMap.find_eq_some]

theorem exists_isSnapshot (r : HistogramRecorder π) (query : String)
    : ∃ names, r.IsSnapshot query (r.getSnapshot query) names := by
  refine ⟨(r.sorted.filter fun entry => Asked query entry.1).map Prod.fst, ?_, ?_, ?_⟩
  . rw [List.map_map, List.pairwise_map]
    exact r.pairwise_sorted.filter _
  . intro name
    rw [List.mem_map]
    constructor
    . intro ⟨entry, hentry, hname⟩
      have ⟨hmem, hasked⟩ := List.mem_filter.mp hentry
      rw [← hname, mem_sorted.mp hmem]
      exact ⟨rfl, of_decide_eq_true hasked⟩
    . intro ⟨hsome, hasked⟩
      have ⟨p, hp⟩ := Option.isSome_iff_exists.mp hsome
      exact ⟨(name, p), List.mem_filter.mpr ⟨mem_sorted.mpr hp, decide_eq_true hasked⟩, rfl⟩
  . unfold getSnapshot
    rw [List.map_map, List.map_map]
    apply List.map_congr_left
    intro entry hentry
    exact (mem_sorted.mp (List.mem_filter.mp hentry).1).symm

theorem registered_of_mem_getSnapshot {r : HistogramRecorder π} {query : String} {p : π}
    (h : p ∈ r.getSnapshot query) : ∃ name, r.findHistogram name = some p := by
  have ⟨entry, hentry, heq⟩ := List.mem_map.mp h
  rw [← heq]
  exact ⟨entry.1, mem_sorted.mp (List.mem_filter.mp hentry).1⟩

end HistogramRecorder

namespace Graphing

variable [DecidableEq π] [DecidableEq τ] {s s' : Graphing π τ} {a : Label π τ} {thread : τ}

inductive Stepped (s : Graphing π τ) : Label π τ → Graphing π τ → Prop
  | factory {label : Factory.Label π τ} {factory : Factory π τ} (h : s.factory.step label = some factory)
    : Stepped s (.factory label) { s with factory := factory }
  | writeGraph {thread : τ} {query : String} {output : List UInt8} (h : s.writers thread = none)
    : Stepped s (.writeGraph thread query output)
        (s.goOn thread (some (.header query (output ++ header query))))
  | getSnapshot {thread : τ} {query : String} {output : List UInt8}
    (h : s.writers thread = some (.header query output))
    : Stepped s (.getSnapshot thread)
        (s.goOn thread (some (.histograms (s.factory.recorder.getSnapshot query) output)))
  | writeAscii {thread : τ} {p : π} {text : List UInt8} {snapshot : List π} {output : List UInt8}
    (h : s.writers thread = some (.histograms (p :: snapshot) output))
    : Stepped s (.writeAscii thread p text)
        (s.goOn thread (some (.histograms snapshot (output ++ text ++ DeclaredHistogram.key "\n"))))
  | ret {thread : τ} {output : List UInt8} (h : s.writers thread = some (.histograms [] output))
    : Stepped s (.ret thread output) (s.goOn thread none)

theorem stepped_of_step (h : s.step a = some s') : Stepped s a s' := by
  cases a with
  | factory label =>
    unfold step at h
    dsimp only at h
    split at h
    . have ⟨factory, hfactory, heq⟩ := Option.map_eq_some_iff.mp h
      rw [← heq]
      exact .factory hfactory
    . contradiction
  | writeGraph thread query output =>
    unfold step at h
    dsimp only at h
    split at h
    . next hnone =>
      injection h with h
      rw [← h]
      exact .writeGraph hnone
    . contradiction
  | getSnapshot thread =>
    unfold step at h
    dsimp only at h
    split at h
    . next hwriter =>
      injection h with h
      rw [← h]
      exact .getSnapshot hwriter
    . contradiction
  | writeAscii thread p text =>
    unfold step Graphing.writeAscii at h
    dsimp only at h
    split at h
    . next hwriter =>
      split at h
      . next hnext =>
        injection h with h
        rw [← h]
        rw [hnext.1] at hwriter
        exact .writeAscii hwriter
      . contradiction
    . contradiction
  | ret thread result =>
    unfold step at h
    dsimp only at h
    split at h
    . next hwriter =>
      split at h
      . next heq =>
        injection h with h
        rw [← h]
        rw [heq] at hwriter
        exact .ret hwriter
      . contradiction
    . contradiction

omit [DecidableEq π] in
theorem writers_goOn (s : Graphing π τ) (thread : τ) (writer : Option (WriteGraph π)) (thread' : τ)
    : (s.goOn thread writer).writers thread' = if thread' = thread then writer else s.writers thread' :=
  Function.update_apply _ _ _ _

def Registered (r : HistogramRecorder π) : Option (WriteGraph π) → Prop
  | some (.histograms snapshot _) => ∀ p ∈ snapshot, ∃ name, r.findHistogram name = some p
  | _ => True

structure Inv (s : Graphing π τ) : Prop where
  factory : s.factory.Inv
  registered : ∀ thread, Registered s.factory.recorder (s.writers thread)

omit [DecidableEq π] [DecidableEq τ] in
theorem create_inv : (create : Graphing π τ).Inv where
  factory := Factory.create_inv
  registered := fun _ => trivial

omit [DecidableEq π] in
theorem Inv.goOn (hinv : s.Inv) {writer : Option (WriteGraph π)}
    (hwriter : Registered s.factory.recorder writer) : (s.goOn thread writer).Inv where
  factory := hinv.factory
  registered := by
    intro thread'
    rw [writers_goOn]
    split
    . exact hwriter
    . exact hinv.registered thread'

theorem Inv.step (hinv : s.Inv) (h : Stepped s a s') : s'.Inv := by
  cases h with
  | factory h =>
    constructor
    . exact Factory.step_inv hinv.factory h
    . intro thread
      have := hinv.registered thread
      dsimp only
      generalize s.writers thread = writer at this
      match writer, this with
      | none, _ => trivial
      | some (.header _ _), _ => trivial
      | some (.histograms snapshot _), hregistered =>
        intro p hp
        have ⟨name, hname⟩ := hregistered p hp
        exact ⟨name, Factory.step_findHistogram hinv.factory h hname⟩
  | writeGraph h => exact hinv.goOn trivial
  | getSnapshot h =>
    apply hinv.goOn
    intro p hp
    exact HistogramRecorder.registered_of_mem_getSnapshot hp
  | @writeAscii thread p text snapshot output h =>
    apply hinv.goOn
    have := hinv.registered thread
    rw [h] at this
    exact fun p' hp' => this p' (List.mem_cons_of_mem p hp')
  | ret h => exact hinv.goOn trivial

theorem run_inv {labels : List (Label π τ)} (hrun : run create labels = some s) : s.Inv :=
  Machine.run_invariant (fun _ _ _ hinv h => hinv.step (stepped_of_step h)) create_inv hrun

theorem Inv.goesOn (hinv : s.Inv) {p : π} {snapshot : List π} {output : List UInt8}
    (h : s.writers thread = some (.histograms (p :: snapshot) output)) (text : List UInt8)
    : ∃ s', s.step (.writeAscii thread p text) = some s' := by
  have hregistered := hinv.registered thread
  rw [h] at hregistered
  have ⟨name, hname⟩ := hregistered p List.mem_cons_self
  have hlives := hinv.factory.registered name p hname
  refine ⟨s.goOn thread (some (.histograms snapshot (output ++ text ++ DeclaredHistogram.key "\n"))), ?_⟩
  simp [Graphing.step, Graphing.writeAscii, h, hlives]

def Label.delimits (thread : τ) : Label π τ → Bool
  | .writeGraph thread' _ _ | .getSnapshot thread' | .ret thread' _ => thread' = thread
  | _ => false

def Label.written? (thread : τ) : Label π τ → Option (π × List UInt8)
  | .writeAscii thread' p text => if thread' = thread then some (p, text) else none
  | _ => none

def writes (thread : τ) (labels : List (Label π τ)) : List (π × List UInt8) :=
  labels.filterMap (Label.written? thread)

def written (writes : List (π × List UInt8)) : List UInt8 :=
  writes.flatMap fun write => write.2 ++ DeclaredHistogram.key "\n"

def Quiet (thread : τ) (labels : List (Label π τ)) : Prop := ∀ a ∈ labels, a.delimits thread = false

inductive Progress (thread : τ) (labels : List (Label π τ)) : Option (WriteGraph π) → Prop
  | idle : Progress thread labels none
  | header (as bs : List (Label π τ)) {query : String} {output : List UInt8}
    (hlabels : labels = as ++ .writeGraph thread query output :: bs) (hquiet : Quiet thread bs)
    (hwrites : writes thread bs = [])
    : Progress thread labels (some (.header query (output ++ Graphing.header query)))
  | histograms (as bs cs : List (Label π τ)) {query : String} {output : List UInt8} {snapshot : List π}
    {m : Graphing π τ} (hlabels : labels = as ++ .writeGraph thread query output :: bs
      ++ .getSnapshot thread :: cs)
    (hquiet : Quiet thread (bs ++ cs))
    (hrun : run create (as ++ .writeGraph thread query output :: bs) = some m)
    (hsnapshot : (writes thread cs).map Prod.fst ++ snapshot = m.factory.recorder.getSnapshot query)
    : Progress thread labels (some (.histograms snapshot
        (output ++ Graphing.header query ++ written (writes thread cs))))

omit [DecidableEq π] in
theorem Quiet.append {as bs : List (Label π τ)} (has : Quiet thread as) (hbs : Quiet thread bs)
    : Quiet thread (as ++ bs) := by
  intro a ha
  rcases List.mem_append.mp ha with h | h
  . exact has a h
  . exact hbs a h

omit [DecidableEq π] in
theorem quiet_singleton (ha : a.delimits thread = false) : Quiet thread [a] := by
  intro b hb
  rw [List.mem_singleton.mp hb]
  exact ha

omit [DecidableEq π] in
theorem writes_concat (thread : τ) (labels : List (Label π τ)) (a : Label π τ)
    : writes thread (labels ++ [a]) = writes thread labels ++ (a.written? thread).toList := by
  unfold writes
  rw [List.filterMap_append]
  cases h : a.written? thread <;> simp [h]

theorem Progress.skip {labels : List (Label π τ)} {writer : Option (WriteGraph π)}
    (h : Progress thread labels writer) (ha : a.delimits thread = false) (hwritten : a.written? thread = none)
    : Progress thread (labels ++ [a]) writer := by
  have hwrites : ∀ cs, writes thread (cs ++ [a]) = writes thread cs := by
    intro cs
    rw [writes_concat, hwritten]
    exact List.append_nil _
  cases h with
  | idle => exact .idle
  | @header as bs query output hlabels hquiet hempty =>
    refine .header as (bs ++ [a]) ?_ (hquiet.append (quiet_singleton ha)) ?_
    . rw [hlabels]
      simp
    . rw [hwrites, hempty]
  | @histograms as bs cs query output snapshot m hlabels hquiet hrun hsnapshot =>
    rw [← hwrites cs]
    refine .histograms as bs (cs ++ [a]) ?_ ?_ hrun ?_
    . rw [hlabels]
      simp
    . rw [← List.append_assoc]
      exact hquiet.append (quiet_singleton ha)
    . rw [hwrites]
      exact hsnapshot

theorem Progress.step {labels : List (Label π τ)} (hrun : run create labels = some s)
    (h : Progress thread labels (s.writers thread)) (hstep : Stepped s a s')
    : Progress thread (labels ++ [a]) (s'.writers thread) := by
  cases hstep with
  | factory => exact h.skip rfl rfl
  | @writeGraph thread' query output hnone =>
    rw [writers_goOn]
    split
    . next heq =>
      rw [heq]
      exact .header labels [] rfl (fun _ h => absurd h List.not_mem_nil) rfl
    . next hne => exact h.skip (decide_eq_false (Ne.symm hne)) rfl
  | @getSnapshot thread' query output hwriter =>
    rw [writers_goOn]
    split
    . next heq =>
      rw [heq, hwriter] at h
      rw [heq]
      cases h with
      | @header as bs query output hlabels hquiet hempty =>
        rw [hlabels] at hrun
        have hprogress := Progress.histograms as bs [] rfl ((List.append_nil bs).symm ▸ hquiet) hrun rfl
        rw [hlabels]
        have hwritten : written (writes thread' ([] : List (Label π τ))) = [] := rfl
        rw [hwritten, List.append_nil] at hprogress
        exact hprogress
    . next hne => exact h.skip (decide_eq_false (Ne.symm hne)) rfl
  | @writeAscii thread' p text snapshot output hwriter =>
    rw [writers_goOn]
    split
    . next heq =>
      rw [heq, hwriter] at h
      rw [heq]
      cases h with
      | @histograms as bs cs query output _ m hlabels hquiet hm hsnapshot =>
        have hwrites : writes thread' (cs ++ [Label.writeAscii thread' p text])
            = writes thread' cs ++ [(p, text)] := by
          rw [writes_concat]
          simp [Label.written?]
        have hprogress := @Progress.histograms _ _ _ _ thread'
          (labels ++ [Label.writeAscii thread' p text]) as bs
          (cs ++ [Label.writeAscii thread' p text]) query output snapshot m ?_ ?_ hm ?_
        . rw [hwrites] at hprogress
          simpa [written] using hprogress
        . rw [hlabels]
          simp
        . rw [← List.append_assoc]
          exact hquiet.append (quiet_singleton rfl)
        . rw [hwrites, ← hsnapshot]
          simp
    . next hne =>
      exact h.skip rfl (if_neg (Ne.symm hne))
  | @ret thread' output hwriter =>
    rw [writers_goOn]
    split
    . exact .idle
    . next hne => exact h.skip (decide_eq_false (Ne.symm hne)) rfl

theorem run_progress {labels : List (Label π τ)} (hrun : run create labels = some s) (thread : τ)
    : Progress thread labels (s.writers thread) := by
  apply Machine.run_induction _ _ hrun
  . exact .idle
  . intro as s a s' hrun ih hstep
    exact ih.step hrun (stepped_of_step hstep)

-- What a call writes that returns behind these labels: its snapshot is the one of a state in between.
inductive Writes (thread : τ) (labels : List (Label π τ)) (result : List UInt8) : Prop
  | intro {as bs cs : List (Label π τ)} {query : String} {output : List UInt8} {m : Graphing π τ}
    {names : List String}
    (hlabels : labels = as ++ .writeGraph thread query output :: bs ++ .getSnapshot thread :: cs)
    (hsameCall : Quiet thread (bs ++ cs))
    (hrun : run create (as ++ .writeGraph thread query output :: bs) = some m)
    (hsnapshot : m.factory.recorder.IsSnapshot query ((writes thread cs).map Prod.fst) names)
    (hresult : result = output ++ header query ++ written (writes thread cs))

structure Graphs (labels : List (Label π τ)) (s : Graphing π τ) : Prop where
  goesOn : ∀ thread p snapshot output text, s.writers thread = some (.histograms (p :: snapshot) output) →
      ∃ s', s.step (.writeAscii thread p text) = some s'
  returned : ∀ thread result (before after : List (Label π τ)),
      labels = before ++ .ret thread result :: after →
      Writes thread before result

theorem graphs_of_run {labels : List (Label π τ)} (hrun : run create labels = some s)
    : Graphs labels s where
  goesOn := fun _ _ _ _ text h => (run_inv hrun).goesOn h text
  returned := by
    intro thread result before after hlabels
    rw [hlabels] at hrun
    have ⟨m, m', hm, hret, _⟩ := Machine.run_append_cons_eq_some.mp hrun
    cases stepped_of_step hret with
    | ret hwriter =>
      have hprogress := run_progress hm thread
      rw [hwriter] at hprogress
      cases hprogress with
      | @histograms _ _ _ query _ _ m hbefore hquiet hm hsnapshot =>
        have ⟨names, hnames⟩ := m.factory.recorder.exists_isSnapshot query
        rw [← hsnapshot, List.append_nil] at hnames
        exact .intro hbefore hquiet hm hnames rfl

-- A histogram is registered before the snapshot and another one behind it.
def exampleLabels : List (Label Nat Bool) := [
  .writeGraph true "" [], .factory (.call false "a"), .factory (.find false), .factory (.construct false 1),
  .factory (.register false), .getSnapshot true, .factory (.ret false "a" 1), .factory (.call false "b"),
  .factory (.find false), .factory (.construct false 2), .factory (.register false),
  .writeAscii true 1 [0x68], .ret true (header "" ++ [0x68, 0x0a])]

theorem graphs_of_run_registered
    : ∃ s, run (create : Graphing Nat Bool) exampleLabels = some s ∧ Graphs exampleLabels s := by
  refine ⟨_, rfl, ?_⟩
  exact graphs_of_run rfl

end Graphing
end Claire
