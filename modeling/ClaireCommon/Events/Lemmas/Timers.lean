import ClaireCommon.Events.Impl.Timers
import ClaireCommon.Events.Lemmas.Repeating

/-!
This module contains for which delays and intervals the timers that the event loop registers have
them: the milliseconds are multiplied as an `int`.
-/

namespace Claire
namespace EventLoop

universe u

variable {κ : Type u} {now milliseconds : Int}

def withEvent (timeouts : TimeoutQueue κ) (event : Event κ) : TimeoutQueue κ :=
  { timeouts with next := timeouts.next + 1, bound := timeouts.bound ++ [event] }

structure Exact (now milliseconds : Int) : Prop where
  product : int32 (milliseconds * 1000) = milliseconds * 1000
  sum : int64 (now + int32 (milliseconds * 1000)) = now + milliseconds * 1000

structure DelayHonoured (κ : Type u) (now delay : Int) : Prop where
  exact : Exact now delay
  registers : ∀ (timeouts : TimeoutQueue κ) (callback : κ),
    runAfter timeouts now delay callback = (timeouts.next,
      withEvent timeouts ⟨timeouts.next, now + delay * 1000, -1, callback⟩)

def everyLabel (id now interval : Int) (callback : κ) : TimeoutQueue.Label κ :=
  .addRepeating id now (int32 (interval * 1000)) callback

structure IntervalHonoured (κ : Type u) (now interval : Int) : Prop where
  exact : Exact now interval
  registers : ∀ (timeouts : TimeoutQueue κ) (callback : κ),
    runEvery timeouts now interval callback = (timeouts.next,
      withEvent timeouts ⟨timeouts.next, now + interval * 1000, interval * 1000, callback⟩)
  staysQueued : ∀ (labels : List (TimeoutQueue.Label κ)) timeouts id callback,
    TimeoutQueue.run .init labels = some timeouts → everyLabel id now interval callback ∈ labels →
    ∀ (before : List (TimeoutQueue.Label κ)) clock behind, labels = before ++ .addInLoop id clock :: behind →
      .cancelInLoop id ∉ behind → timeouts.timeouts.keys.count id = 1

theorem product_iff (hpos : 0 ≤ milliseconds)
    : int32 (milliseconds * 1000) = milliseconds * 1000 ↔ milliseconds ≤ 2147483 := by
  constructor
  . intro h
    have hrange := int32_range (milliseconds * 1000)
    omega
  . intro h
    apply int32_of_range <;> omega

theorem exact_of_le (hnow : -2 ^ 63 ≤ now ∧ now < 2 ^ 62) (hpos : 0 ≤ milliseconds)
    (h : milliseconds ≤ 2147483) : Exact now milliseconds := by
  have hproduct := (product_iff hpos).mpr h
  refine ⟨hproduct, ?_⟩
  rw [hproduct]
  apply int64_of_range <;> omega

theorem DelayHonoured.of_exact (h : Exact now milliseconds) : DelayHonoured κ now milliseconds where
  exact := h
  registers := by
    intro timeouts callback
    unfold runAfter runAt addTime
    rw [h.sum]
    rfl

theorem IntervalHonoured.of_exact (h : Exact now milliseconds) (hpos : 0 ≤ milliseconds)
    : IntervalHonoured κ now milliseconds where
  exact := h
  registers := by
    intro timeouts callback
    unfold runEvery TimeoutQueue.addRepeating
    rw [h.sum, h.product]
    rfl
  staysQueued := by
    intro labels timeouts id callback hrun hmem before clock behind heq hcancel
    unfold everyLabel at hmem
    rw [h.product] at hmem
    subst heq
    have hpos : 0 ≤ milliseconds * 1000 := by omega
    exact TimeoutQueue.one_entry_of_run hpos hrun hmem hrun hcancel

-- An `int` holds the microseconds of 2147483 milliseconds, which are less than 36 minutes.
theorem honoured_iff (hnow : -2 ^ 63 ≤ now ∧ now < 2 ^ 62)
    (hmilliseconds : 0 ≤ milliseconds ∧ milliseconds ≤ intMax)
    : (DelayHonoured κ now milliseconds ↔ milliseconds ≤ 2147483)
        ∧ (0 < milliseconds → (IntervalHonoured κ now milliseconds ↔ milliseconds ≤ 2147483)) := by
  have hpos := hmilliseconds.1
  refine ⟨⟨?_, ?_⟩, fun _ => ⟨?_, ?_⟩⟩
  . intro h
    exact (product_iff hpos).mp h.exact.product
  . intro h
    exact .of_exact (exact_of_le hnow hpos h)
  . intro h
    exact (product_iff hpos).mp h.exact.product
  . intro h
    exact .of_exact (exact_of_le hnow hpos h) hpos

theorem honoured_iff_one_second
    : (DelayHonoured Unit 0 1000 ↔ 1000 ≤ (2147483 : Int))
        ∧ (0 < (1000 : Int) → (IntervalHonoured Unit 0 1000 ↔ 1000 ≤ (2147483 : Int))) :=
  honoured_iff (by decide) (by decide)

-- One hour is over before it has begun, and a timer of one hour does not repeat.
theorem not_honoured_one_hour
    : (runAfter TimeoutQueue.init 0 3600000 ()).2.bound = [⟨1, -694967296, -1, ()⟩]
        ∧ (runEvery TimeoutQueue.init 0 3600000 ()).2.bound = [⟨1, -694967296, -694967296, ()⟩]
        ∧ ¬DelayHonoured Unit 0 3600000 ∧ ¬IntervalHonoured Unit 0 3600000 := by
  refine ⟨rfl, rfl, ?_, ?_⟩
  . intro h
    exact absurd h.exact.product (by decide)
  . intro h
    exact absurd h.exact.product (by decide)

end EventLoop
end Claire
