import ClaireCommon.Logging.Lemmas.Logger

/-!
This module proves that the writer of the asynchronous logger never runs out of buffers: none of its
assertions fails and no `pop_back` meets an empty vector, for messages and batches of any size.
-/

namespace Claire
namespace Logger

variable {s : Logger}

theorem Inv.append_isSome (hinv : s.Inv) (data : List UInt8) : (s.append data).isSome := by
  unfold Logger.append
  cases hcurrent : s.currentBuffer with
  | none => exact absurd hcurrent hinv.current
  | some current =>
    dsimp only
    split
    . rfl
    . cases s.nextBuffer <;> rfl

theorem Inv.take_isSome (hinv : s.Inv) : s.take.isSome := by
  unfold Logger.take
  cases hcurrent : s.currentBuffer with
  | none => exact absurd hcurrent hinv.current
  | some current => rfl

-- What the assertions say and what the uses of `currentBuffer` and `pop_back` need. The front end may
-- append at any time, and while the writer holds the lock it may go through `take` from here.
structure Recycles (s : Logger) : Prop where
  runs : s.writer ≠ .aborted
  head : s.writer = .testing → isSpare s.buffer1 ∧ isSpare s.buffer2 ∧ s.buffersToWrite = []
  current : s.currentBuffer ≠ none
  appends : ∀ data, (s.append data).isSome
  takes : s.take.isSome
  batch : s.writer = .taken → s.buffersToWrite ≠ []
  pops1 : s.writer = .recycling → s.buffer1 = none → s.buffersToWrite.take 2 ≠ []
  pops2 : s.writer = .recycling → s.buffer2 = none →
    ∀ buffer rest, recycleInto s.buffer1 (s.buffersToWrite.take 2) = some (buffer, rest) → rest ≠ []

theorem Inv.recycles (hinv : s.Inv) : s.Recycles where
  runs := hinv.runs
  head := by
    intro hwriter
    have ⟨hbuffer1, hbuffer2, hbatch⟩ := hinv.spares (by rw [hwriter]; rfl)
    exact ⟨isSpare_of_empty hbuffer1 hinv.empty1, isSpare_of_empty hbuffer2 hinv.empty2, hbatch⟩
  current := hinv.current
  appends := hinv.append_isSome
  takes := hinv.take_isSome
  batch := by
    intro hwriter
    exact (hinv.batch (by rw [hwriter]; rfl)).2.1
  pops1 := by
    intro hwriter _
    have hbatch : s.writer.hasBatch = true := by
      rw [hwriter]
      rfl
    exact ((hinv.drop hbatch).batch hbatch).2.1
  pops2 := by
    intro hwriter hnone buffer rest hfirst
    have ⟨b1, b2, rest', _, _, hb1, hb2⟩ := hinv.recycleInto_eq hwriter
    rw [hb1] at hfirst
    injection hfirst with hfirst
    injection hfirst with _ hrest
    rw [← hrest]
    intro hempty
    rw [hempty, hnone] at hb2
    contradiction

theorem run_recycles (labels : List Label) (s : Logger) (hrun : run labels = some s)
    : s.Recycles :=
  (run_inv hrun).recycles

def iterateOnce : List Label := [
  .append [1],
  .start,
  .begin,
  .startReturns,
  .test,
  .lock,
  .append [2, 3],
  .wake,
  .check [],
  .write,
  .write,
  .recycle,
  .flush]

theorem run_recycles_iterateOnce
    : ∃ s, run iterateOnce = some s ∧ s.writer = .testing ∧ s.Recycles :=
  ⟨_, rfl, rfl, run_recycles iterateOnce _ rfl⟩

end Logger
end Claire
