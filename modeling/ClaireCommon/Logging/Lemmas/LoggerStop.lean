import ClaireCommon.Logging.Lemmas.Logger

/-!
This module contains what the logger has written when `Stop` returns.
-/

namespace Claire
namespace Logger

variable {s s' : Logger} {labels : List Label}

namespace Stop

def hasCleared : Stop → Bool
  | notifying | joining | returned => true
  | _ => false

end Stop

namespace Writer

-- The writer has found `running_` true and has not taken the buffers yet.
def willTake : Writer → Bool
  | locking | waiting => true
  | _ => false

def hasLeft : Writer → Bool
  | finishing | finished => true
  | _ => false

end Writer

structure Phases (s : Logger) : Prop where
  idle : s.start = .idle → s.writer = .notStarted ∧ s.running = false
  latch : s.latch = if s.writer.hasBegun then 0 else 1
  returned : s.start = .returned → s.writer.hasBegun = true
  stop : s.stop ≠ .idle → s.start = .returned
  running : s.writer.hasBegun = true → s.running = !s.stop.hasCleared
  left : s.writer.hasLeft = true → s.stop.hasCleared = true
  joined : s.stop = .returned → s.writer = .finished
  flushed : s.writer = .finished → s.output.flushed = s.output.appended.length

theorem create_phases : create.Phases where
  idle _ := ⟨rfl, rfl⟩
  latch := rfl
  returned := by simp [create]
  stop := by simp [create]
  running := by simp [create, Writer.hasBegun]
  left := by simp [create, Writer.hasLeft]
  joined := by simp [create]
  flushed := by simp [create]

structure WriterStep (s s' : Logger) : Prop where
  running : s'.running = s.running
  latch : s'.latch = s.latch
  start : s'.start = s.start
  stop : s'.stop = s.stop
  before : s.writer.hasBegun = true ∧ s.writer ≠ .finished
  behind : s'.writer.hasBegun = true
  left : s'.writer.hasLeft = true → s.writer.hasLeft = true ∨ s.writer = .testing ∧ s.running = false
  flushed : s'.writer = .finished → s'.output.flushed = s'.output.appended.length
  -- Behind the test of `running_` the writer waits for the buffers until it takes them.
  will : s'.writer.willTake = s.writer.willTake ∨ s.writer.willTake = true ∧ s.take = some s' ∨
    s.writer = .testing ∧ s.running = true

theorem WriterStep.phases (h : WriterStep s s') (hphases : s.Phases) : s'.Phases := by
  have hrunning := hphases.running h.before.1
  constructor
  . intro hidle
    rw [h.start] at hidle
    have := h.before.1
    rw [(hphases.idle hidle).1] at this
    contradiction
  . rw [h.latch, h.behind, hphases.latch, h.before.1]
  . intro _
    exact h.behind
  . rw [h.stop, h.start]
    exact hphases.stop
  . intro _
    rw [h.running, h.stop]
    exact hrunning
  . intro hleft
    rw [h.stop]
    cases h.left hleft with
    | inl hleft => exact hphases.left hleft
    | inr htesting =>
      rw [htesting.2] at hrunning
      simpa using hrunning.symm
  . intro hreturned
    rw [h.stop] at hreturned
    exact absurd (hphases.joined hreturned) h.before.2
  . exact h.flushed

theorem append_phases (hphases : s.Phases) {data : List UInt8} (h : s.append data = some s')
    : s'.Phases := by
  rw [append_frame h]
  constructor
  . exact hphases.idle
  . exact hphases.latch
  . exact hphases.returned
  . exact hphases.stop
  . exact hphases.running
  . exact hphases.left
  . exact hphases.joined
  . exact hphases.flushed

theorem writerStep_of_eq {writer : Writer} (hwriter : s.writer = writer)
    (hbegun : writer.hasBegun = true) (hleft : writer.hasLeft = false)
    (hwill : s'.writer.willTake = writer.willTake ∨ writer.willTake = true ∧ s.take = some s' ∨
      writer = .testing ∧ s.running = true)
    (heq : s' = { s with
      currentBuffer := s'.currentBuffer, nextBuffer := s'.nextBuffer, buffers := s'.buffers,
      output := s'.output, buffer1 := s'.buffer1, buffer2 := s'.buffer2,
      buffersToWrite := s'.buffersToWrite, writer := s'.writer })
    (hbegun' : s'.writer.hasBegun = true) (hleft' : s'.writer.hasLeft = false) : WriterStep s s' where
  running := by rw [heq]
  latch := by rw [heq]
  start := by rw [heq]
  stop := by rw [heq]
  before := by
    rw [hwriter]
    apply And.intro hbegun
    intro hfinished
    rw [hfinished] at hleft
    contradiction
  behind := hbegun'
  left := by
    intro h
    rw [hleft'] at h
    contradiction
  flushed := by
    intro h
    rw [h] at hleft'
    contradiction
  will := by
    rw [hwriter]
    exact hwill

theorem writerStep_of_take {writer : Writer} (hwriter : s.writer = writer)
    (hwill : writer.willTake = true) (h : s.take = some s') : WriterStep s s' := by
  have hframe := take_frame h
  apply writerStep_of_eq hwriter
  . cases writer <;> first | contradiction | rfl
  . cases writer <;> first | contradiction | rfl
  . exact Or.inr (Or.inl ⟨hwill, h⟩)
  . conv => lhs; rw [hframe]
    rw [hframe]
  . rw [hframe]
    rfl
  . rw [hframe]
    rfl

def Label.isWriter : Label → Bool
  | test | lock | wake | check _ | write | recycle | flush | finish => true
  | _ => false

theorem writerStep_of_stepped {label : Label} (hlabel : label.isWriter = true)
    (hstep : Stepped s label s') : WriterStep s s' := by
  cases hstep with
  | append | startAgain | start | startReturns | stop | clearRunning | stopAgain | notify | join | begin =>
    contradiction
  | test hwriter =>
    unfold Logger.test
    split
    . next hrunning =>
      split
      . exact writerStep_of_eq hwriter rfl rfl (Or.inr (Or.inr ⟨rfl, hrunning⟩)) rfl rfl rfl
      . exact writerStep_of_eq hwriter rfl rfl (Or.inl rfl) rfl rfl rfl
    . next hrunning =>
      rw [Bool.not_eq_true] at hrunning
      constructor
      . rfl
      . rfl
      . rfl
      . rfl
      . simp [hwriter, Writer.hasBegun]
      . rfl
      . intro _
        exact Or.inr ⟨hwriter, hrunning⟩
      . simp
      . rw [hwriter]
        exact Or.inl rfl
  | wait hwriter => exact writerStep_of_eq hwriter rfl rfl (Or.inl rfl) rfl rfl rfl
  | lock hwriter htake => exact writerStep_of_take hwriter rfl htake
  | wake hwriter htake => exact writerStep_of_take hwriter rfl htake
  | check hwriter time =>
    unfold Logger.check
    split
    . exact writerStep_of_eq hwriter rfl rfl (Or.inl rfl) rfl rfl rfl
    . split
      . exact writerStep_of_eq hwriter rfl rfl (Or.inl rfl) rfl rfl rfl
      . exact writerStep_of_eq hwriter rfl rfl (Or.inl rfl) rfl rfl rfl
  | write hwriter =>
    unfold Logger.write
    split
    . exact writerStep_of_eq hwriter rfl rfl (Or.inl rfl) rfl rfl rfl
    . exact writerStep_of_eq hwriter rfl rfl (Or.inl rfl) rfl rfl rfl
  | recycle hwriter =>
    unfold Logger.recycle
    split
    . exact writerStep_of_eq hwriter rfl rfl (Or.inl rfl) rfl rfl rfl
    . split
      . exact writerStep_of_eq hwriter rfl rfl (Or.inl rfl) rfl rfl rfl
      . exact writerStep_of_eq hwriter rfl rfl (Or.inl rfl) rfl rfl rfl
  | flush hwriter => exact writerStep_of_eq hwriter rfl rfl (Or.inl rfl) rfl rfl rfl
  | finish hwriter =>
    constructor
    . rfl
    . rfl
    . rfl
    . rfl
    . simp [hwriter, Writer.hasBegun]
    . rfl
    . intro _
      rw [hwriter]
      exact Or.inl rfl
    . intro _
      rfl
    . rw [hwriter]
      exact Or.inl rfl

theorem Phases.stop_idle (hphases : s.Phases) (hbegun : s.writer.hasBegun = false) : s.stop = .idle := by
  by_contra hne
  have := hphases.returned (hphases.stop hne)
  rw [hbegun] at this
  contradiction

theorem Phases.stopping (hphases : s.Phases) (hreturned : s.start = .returned) {running : Bool}
    {stop : Stop} (hrunning : running = !stop.hasCleared)
    (hcleared : s.stop.hasCleared = true → stop.hasCleared = true)
    (hjoined : stop = .returned → s.writer = .finished)
    : Phases { s with running := running, stop := stop } where
  idle := by
    intro hidle
    rw [hreturned] at hidle
    contradiction
  latch := hphases.latch
  returned := hphases.returned
  stop _ := hreturned
  running _ := hrunning
  left hleft := hcleared (hphases.left hleft)
  joined := hjoined
  flushed := hphases.flushed

theorem Phases.stepped (hphases : s.Phases) {label : Label} (hstep : Stepped s label s')
    : s'.Phases := by
  cases hlabel : label.isWriter with
  | true => exact (writerStep_of_stepped hlabel hstep).phases hphases
  | false =>
    cases hstep with
    | test | wait | lock | wake | check | write | recycle | flush | finish => contradiction
    | append happend => exact append_phases hphases happend
    | startAgain hidle hrunning =>
      rw [(hphases.idle hidle).2] at hrunning
      contradiction
    | start hidle hrunning =>
      have hwriter := (hphases.idle hidle).1
      have hstop := hphases.stop_idle (by rw [hwriter]; rfl)
      have hlatch := hphases.latch
      rw [hwriter] at hlatch
      constructor
      . simp
      . exact hlatch
      . simp
      . simp [hstop]
      . simp [Writer.hasBegun]
      . simp [Writer.hasLeft]
      . simp [hstop]
      . simp
    | startReturns hwaiting hlatch =>
      constructor
      . simp
      . exact hphases.latch
      . intro _
        have hbegun := hphases.latch
        rw [hlatch] at hbegun
        by_contra hnot
        rw [if_neg hnot] at hbegun
        contradiction
      . simp
      . exact hphases.running
      . exact hphases.left
      . exact hphases.joined
      . exact hphases.flushed
    | stop hreturned hidle =>
      have hrunning := hphases.running (hphases.returned hreturned)
      rw [hidle] at hrunning
      apply hphases.stopping hreturned
      . exact hrunning
      . simp [hidle, Stop.hasCleared]
      . simp
    | clearRunning hcalled hrunning =>
      have hreturned := hphases.stop (by rw [hcalled]; simp)
      apply hphases.stopping hreturned
      . rfl
      . exact fun _ => rfl
      . simp
    | stopAgain hcalled hrunning =>
      have hreturned := hphases.stop (by rw [hcalled]; simp)
      have htrue := hphases.running (hphases.returned hreturned)
      rw [hrunning, hcalled] at htrue
      contradiction
    | notify hnotifying =>
      have hreturned := hphases.stop (by rw [hnotifying]; simp)
      have hrunning := hphases.running (hphases.returned hreturned)
      rw [hnotifying] at hrunning
      apply hphases.stopping hreturned
      . exact hrunning
      . exact fun _ => rfl
      . simp
    | join hjoining hfinished =>
      have hreturned := hphases.stop (by rw [hjoining]; simp)
      have hrunning := hphases.running (hphases.returned hreturned)
      rw [hjoining] at hrunning
      apply hphases.stopping hreturned
      . exact hrunning
      . exact fun _ => rfl
      . exact fun _ => hfinished
    | begin hwriter =>
      have hstop := hphases.stop_idle (by rw [hwriter]; rfl)
      have hlatch := hphases.latch
      rw [hwriter] at hlatch
      constructor
      . intro hidle
        rw [(hphases.idle hidle).1] at hwriter
        contradiction
      . simp [Logger.begin, hlatch, Writer.hasBegun]
      . exact fun _ => rfl
      . exact hphases.stop
      . simp [Logger.begin, hstop, Stop.hasCleared]
      . simp [Logger.begin, Writer.hasLeft]
      . simp [Logger.begin, hstop]
      . simp [Logger.begin]

theorem run_phases (hrun : run labels = some s) : s.Phases := by
  apply Machine.run_invariant _ create_phases hrun
  intro s label s' hphases hstep
  exact hphases.stepped (stepped_of_step hstep)

theorem Inv.take_of_willTake (hinv : s.Inv) (hwill : s.writer.willTake = true) (h : s.take = some s')
    : s'.takenBytes = s.takenBytes ++ s.pendingBytes := by
  have hspares : s.writer.hasSpares = true := by
    cases hw : s.writer with
    | locking | waiting => rfl
    | _ => simp [hw, Writer.willTake] at hwill
  have hunwritten : s.unwritten = [] := by
    unfold unwritten
    cases hw : s.writer with
    | locking | waiting => rfl
    | _ => simp [hw, Writer.willTake] at hwill
  exact (hinv.bytes_take hspares hunwritten h).1

theorem Phases.willTake_stepped (hphases : s.Phases) {label : Label} (hstep : Stepped s label s')
    : s'.writer.willTake = s.writer.willTake ∨ s.writer.willTake = true ∧ s.take = some s' ∨
        s.writer = .testing ∧ s.running = true := by
  cases hlabel : label.isWriter with
  | true => exact (writerStep_of_stepped hlabel hstep).will
  | false =>
    apply Or.inl
    cases hstep with
    | test | wait | lock | wake | check | write | recycle | flush | finish => contradiction
    | startAgain | startReturns | stop | clearRunning | stopAgain | notify | join => rfl
    | append happend => rw [append_frame happend]
    | start hidle =>
      rw [(hphases.idle hidle).1]
      rfl
    | begin hwriter =>
      rw [hwriter]
      rfl

def Covered (n : Nat) (s : Logger) : Prop :=
  n ≤ s.takenBytes.length ∨
    s.writer.willTake = true ∧ n ≤ s.takenBytes.length + s.pendingBytes.length

theorem covered_step (hinv : s.Inv) (hphases : s.Phases) {n : Nat} (hcovered : Covered n s)
    {label : Label} (hrunning : s.running = false) (hstep : step s label = some s')
    (heffect : Effect s s' label) : Covered n s' := by
  have hbytes := congrArg List.length heffect.bytes_eq
  rw [List.length_append, List.length_append, List.length_append] at hbytes
  have htaken : s.takenBytes.length ≤ s'.takenBytes.length := by
    cases heffect with
    | append htaken _ => rw [htaken]
    | take _ htaken _ =>
      rw [htaken, List.length_append]
      omega
    | other _ htaken _ => rw [htaken]
  cases hcovered with
  | inl hle =>
    apply Or.inl
    omega
  | inr hwill =>
    have ⟨hwill, hle⟩ := hwill
    rcases hphases.willTake_stepped (stepped_of_step hstep) with heq | ⟨_, htake⟩ | ⟨_, htrue⟩
    . apply Or.inr
      rw [heq]
      apply And.intro hwill
      omega
    . apply Or.inl
      rw [hinv.take_of_willTake hwill htake, List.length_append]
      exact hle
    . rw [hrunning] at htrue
      contradiction

-- Once `running_` is false, a writer that has taken the buffers takes no more.
theorem takenBytes_step (hphases : s.Phases) {label : Label} (hwill : s.writer.willTake = false)
    (hrunning : s.running = false) (hstep : step s label = some s') (heffect : Effect s s' label)
    : s'.writer.willTake = false ∧ s'.takenBytes = s.takenBytes := by
  constructor
  . rcases hphases.willTake_stepped (stepped_of_step hstep) with heq | ⟨htrue, _⟩ | ⟨_, htrue⟩
    . rw [heq]
      exact hwill
    . rw [hwill] at htrue
      contradiction
    . rw [hrunning] at htrue
      contradiction
  . cases heffect with
    | append htaken _ => exact htaken
    | other _ htaken _ => exact htaken
    | take hlabel _ _ =>
      have htrue : s.writer.willTake = true := by
        cases stepped_of_step hstep with
        | wait hwriter | lock hwriter | wake hwriter =>
          rw [hwriter]
          rfl
        | _ => simp at hlabel
      rw [hwill] at htrue
      contradiction

theorem Phases.running_of_hasCleared (hphases : s.Phases) (hcleared : s.stop.hasCleared = true)
    : s.running = false := by
  have hne : s.stop ≠ .idle := by
    intro heq
    rw [heq] at hcleared
    contradiction
  rw [hphases.running (hphases.returned (hphases.stop hne)), hcleared]
  rfl

theorem stop_step {label : Label} (hstep : step s label = some s')
    : s'.stop = s.stop ∨ label = .stop ∧ s.stop = .idle ∨ label = .clearRunning ∧ s.stop = .called ∨
        s.stop.hasCleared = true ∧ s'.stop.hasCleared = true := by
  have hstepped := stepped_of_step hstep
  cases hlabel : label.isWriter with
  | true => exact Or.inl (writerStep_of_stepped hlabel hstepped).stop
  | false =>
    cases hstepped with
    | test | wait | lock | wake | check | write | recycle | flush | finish => contradiction
    | startAgain | start | startReturns | begin => exact Or.inl rfl
    | append happend =>
      apply Or.inl
      rw [append_frame happend]
    | stop hreturned hidle => exact Or.inr (Or.inl ⟨rfl, hidle⟩)
    | clearRunning hcalled => exact Or.inr (Or.inr (Or.inl ⟨rfl, hcalled⟩))
    | stopAgain hcalled => exact Or.inr (Or.inr (Or.inl ⟨rfl, hcalled⟩))
    | notify hnotifying =>
      rw [hnotifying]
      exact Or.inr (Or.inr (Or.inr ⟨rfl, rfl⟩))
    | join hjoining =>
      rw [hjoining]
      exact Or.inr (Or.inr (Or.inr ⟨rfl, rfl⟩))

theorem hasCleared_step {label : Label} (hcleared : s.stop.hasCleared = true)
    (hstep : step s label = some s') : s'.stop.hasCleared = true := by
  rcases stop_step hstep with heq | ⟨_, heq⟩ | ⟨_, heq⟩ | ⟨_, hcleared'⟩
  . rw [heq]
    exact hcleared
  . rw [heq] at hcleared
    contradiction
  . rw [heq] at hcleared
    contradiction
  . exact hcleared'

theorem exists_clearRunning {after : List Label} (hcalled : s.stop = .called)
    (hrun : Machine.run step s after = some s') (hreturned : s'.stop = .returned)
    : ∃ mid rest : List Label, after = mid ++ .clearRunning :: rest := by
  induction after generalizing s with
  | nil =>
    injection hrun with heq
    rw [heq, hreturned] at hcalled
    contradiction
  | cons label after ih =>
    rw [Machine.run_cons_eq_some] at hrun
    have ⟨m, hstep, hrun⟩ := hrun
    rcases stop_step hstep with heq | ⟨_, hidle⟩ | ⟨hlabel, _⟩ | ⟨hcleared, _⟩
    . rw [hcalled] at heq
      have ⟨mid, rest, hafter⟩ := ih heq hrun
      exact ⟨label :: mid, rest, by rw [hafter]; rfl⟩
    . rw [hcalled] at hidle
      contradiction
    . exact ⟨[], after, by rw [hlabel]; rfl⟩
    . rw [hcalled] at hcleared
      contradiction

theorem run_cleared {P : Logger → Prop} {before after : List Label} {m : Logger}
    (hbefore : run before = some m) (hrun : Machine.run step m after = some s)
    (hmessages : MessagesFit (before ++ after)) (hbatches : BatchesFit (before ++ after))
    (hcleared : m.stop.hasCleared = true) (hm : P m)
    (hstep : ∀ s label s', s.Inv → s.Phases → s.running = false → P s → step s label = some s' →
      Effect s s' label → P s') : P s := by
  have hkept : MessagesFit (before ++ after) → BatchesFit (before ++ after) →
      P s ∧ s.stop.hasCleared = true := by
    apply Machine.run_induction (P := fun after s => MessagesFit (before ++ after) →
      BatchesFit (before ++ after) → P s ∧ s.stop.hasCleared = true) _ _ hrun
    . intro _ _
      exact ⟨hm, hcleared⟩
    . intro as s label s' hs ih hlabel hmessages hbatches
      have hprefix' : before ++ as <+: before ++ (as ++ [label]) := by
        rw [← List.append_assoc]
        apply List.prefix_append
      have ⟨hP, hcleared⟩ := ih (hmessages.mono hprefix') (hbatches.mono hprefix')
      have hreached : run (before ++ as) = some s := Machine.run_append_eq_some.mpr ⟨m, hbefore, hs⟩
      have hinv := run_inv hreached
      have hphases := run_phases hreached
      have heffect := hinv.effect hlabel (hmessages label (by simp)) (hbatches.le hprefix' hreached)
      have hrunning := hphases.running_of_hasCleared hcleared
      exact ⟨hstep s label s' hinv hphases hrunning hP hlabel heffect, hasCleared_step hcleared hlabel⟩
  exact (hkept hmessages hbatches).1

-- When `Stop` returned, every message appended before it was called had been written and flushed.
def StopKeeps (labels : List Label) (s : Logger) : Prop :=
  ∀ before rest : List Label, labels = before ++ .stop :: rest →
    messages before <+: s.output.appended.take s.output.flushed

-- When `running_` is set to false, the writer still takes the buffers, or it has taken every message
-- appended before the call.
def StopFinds (labels : List Label) : Prop :=
  ∀ (before mid rest : List Label) (s : Logger),
    labels = before ++ .stop :: (mid ++ .clearRunning :: rest) →
    run (before ++ .stop :: mid) = some s →
    s.writer.willTake = true ∨ (messages before).length ≤ s.takenBytes.length

theorem messages_append (before rest : List Label)
    : messages (before ++ rest) = messages before ++ messages rest :=
  List.flatMap_append

theorem output_of_returned (hrun : run labels = some s) (hreturned : s.stop = .returned)
    : s.takenBytes = s.output.appended.take s.output.flushed := by
  have hphases := run_phases hrun
  have hwriter := hphases.joined hreturned
  unfold takenBytes unwritten
  rw [hwriter, hphases.flushed hwriter, List.take_length]
  exact List.append_nil _

theorem prefix_iff_length (hrun : run labels = some s) (hreturned : s.stop = .returned)
    (hmessages : MessagesFit labels) (hbatches : BatchesFit labels) {before rest : List Label}
    (h : labels = before ++ rest)
    : messages before <+: s.output.appended.take s.output.flushed ↔
        (messages before).length ≤ s.takenBytes.length := by
  have hbytes := run_bytes hrun hmessages hbatches
  rw [← output_of_returned hrun hreturned]
  constructor
  . exact List.IsPrefix.length_le
  . intro hle
    rw [h, messages_append] at hbytes
    exact List.prefix_of_prefix_length_le (List.prefix_append _ _) ⟨s.pendingBytes, hbytes⟩ hle

theorem exists_cleared (hrun : run labels = some s) {before mid rest : List Label} {m : Logger}
    (h : labels = before ++ .stop :: (mid ++ .clearRunning :: rest))
    (hm : run (before ++ .stop :: mid) = some m)
    : ∃ m', run (before ++ .stop :: mid ++ [Label.clearRunning]) = some m' ∧
        Machine.run step m' rest = some s ∧ m'.stop.hasCleared = true ∧ m'.writer = m.writer ∧
        m'.takenBytes = m.takenBytes ∧ m'.pendingBytes = m.pendingBytes := by
  have hsplit : labels = (before ++ .stop :: mid) ++ .clearRunning :: rest := by
    rw [h]
    simp
  have hphases := run_phases hm
  rw [hsplit, run, Machine.run_append_cons_eq_some] at hrun
  have ⟨m₁, m', hm₁, hclear, hrest⟩ := hrun
  have heq : m = m₁ := Option.some.inj (hm.symm.trans hm₁)
  subst heq
  refine ⟨m', Machine.run_concat_eq_some.mpr ⟨m, hm, hclear⟩, hrest, ?_⟩
  dsimp only [step] at hclear
  split at hclear
  . next hcalled =>
    have hbegun := hphases.returned (hphases.stop (by rw [hcalled]; simp))
    have hrunning := hphases.running hbegun
    rw [hcalled] at hrunning
    rw [hrunning] at hclear
    injection hclear with heq
    rw [← heq]
    exact ⟨rfl, rfl, rfl, rfl⟩
  . contradiction

theorem exists_mid (hrun : run labels = some s) (hreturned : s.stop = .returned) {before rest : List Label}
    (h : labels = before ++ .stop :: rest)
    : ∃ (mid rest' : List Label) (m : Logger), rest = mid ++ .clearRunning :: rest' ∧
        run (before ++ .stop :: mid) = some m := by
  rw [h, run, Machine.run_append_cons_eq_some] at hrun
  have ⟨m₀, m₁, hbefore, hcall, hrest⟩ := hrun
  have hstep := hcall
  dsimp only [step] at hstep
  rw [Option.ite_none_right_eq_some] at hstep
  injection hstep.2 with heq
  have ⟨mid, rest', hmid⟩ := exists_clearRunning (by rw [← heq]) hrest hreturned
  rw [hmid, Machine.run_append_eq_some] at hrest
  have ⟨m, hm, _⟩ := hrest
  refine ⟨mid, rest', m, hmid, ?_⟩
  exact Machine.run_append_cons_eq_some.mpr ⟨m₀, m₁, hbefore, hcall, hm⟩

theorem stopKeeps_iff (hrun : run labels = some s) (hreturned : s.stop = .returned)
    (hmessages : MessagesFit labels) (hbatches : BatchesFit labels)
    : StopKeeps labels s ↔ StopFinds labels := by
  constructor
  . intro hkeeps before mid rest m h hm
    have ⟨m', hbehind, hrest, hcleared, hwriter, htaken, _⟩ := exists_cleared hrun h hm
    have hlength := (prefix_iff_length hrun hreturned hmessages hbatches h).mp (hkeeps before _ h)
    cases hwill : m.writer.willTake with
    | true => exact Or.inl rfl
    | false =>
      have hsplit : labels = (before ++ .stop :: mid ++ [Label.clearRunning]) ++ rest := by
        rw [h]
        simp
      rw [hsplit] at hmessages hbatches
      rw [← hwriter] at hwill
      have hlost : s.writer.willTake = false ∧ s.takenBytes = m'.takenBytes := by
        apply run_cleared (P := fun s => s.writer.willTake = false ∧ s.takenBytes = m'.takenBytes)
          hbehind hrest hmessages hbatches hcleared ⟨hwill, rfl⟩
        intro s label s' _ hphases hrunning hP hstep heffect
        have ⟨hwill', htaken'⟩ := takenBytes_step hphases hP.1 hrunning hstep heffect
        exact ⟨hwill', htaken'.trans hP.2⟩
      rw [hlost.2, htaken] at hlength
      exact Or.inr hlength
  . intro hfinds before rest h
    rw [prefix_iff_length hrun hreturned hmessages hbatches h]
    have ⟨mid, rest', m, hrest, hm⟩ := exists_mid hrun hreturned h
    rw [hrest] at h
    have ⟨m', hbehind, hlast, hcleared, hwriter, htaken, hpending⟩ := exists_cleared hrun h hm
    have hprefix' : before ++ .stop :: mid <+: labels := by
      rw [h]
      exact ⟨.clearRunning :: rest', by simp⟩
    have hbytes := run_bytes hm (hmessages.mono hprefix') (hbatches.mono hprefix')
    have hlength : (messages before).length ≤ m.takenBytes.length + m.pendingBytes.length := by
      rw [← List.length_append, hbytes, messages_append, List.length_append]
      omega
    have hcovered : Covered (messages before).length m' := by
      unfold Covered
      rw [hwriter, htaken, hpending]
      cases hfinds before mid rest' m h hm with
      | inl hwill => exact Or.inr ⟨hwill, hlength⟩
      | inr hle => exact Or.inl hle
    have hsplit : labels = (before ++ .stop :: mid ++ [Label.clearRunning]) ++ rest' := by
      rw [h]
      simp
    rw [hsplit] at hmessages hbatches
    have hlast' : Covered (messages before).length s := by
      apply run_cleared hbehind hlast hmessages hbatches hcleared hcovered
      intro s label s' hinv hphases hrunning hcovered hstep heffect
      exact covered_step hinv hphases hcovered hrunning hstep heffect
    cases hlast' with
    | inl hle => exact hle
    | inr hwill =>
      rw [(run_phases hrun).joined hreturned] at hwill
      simp [Writer.willTake] at hwill

def appendInWait : List Label := [
  .start,
  .begin,
  .startReturns,
  .test,
  .lock,
  .append [1],
  .stop,
  .clearRunning,
  .notify,
  .wake,
  .check [],
  .write,
  .write,
  .recycle,
  .flush,
  .test,
  .finish,
  .join]

theorem stopKeeps_iff_appendInWait
    : ∃ s, run appendInWait = some s ∧ (StopKeeps appendInWait s ↔ StopFinds appendInWait) :=
  ⟨_, rfl, stopKeeps_iff rfl rfl (by unfold MessagesFit; decide) (by unfold BatchesFit; decide)⟩

def appendInWrite : List Label := [
  .start,
  .begin,
  .startReturns,
  .test,
  .lock,
  .wake,
  .append [1],
  .stop,
  .clearRunning,
  .notify,
  .check [],
  .write,
  .write,
  .recycle,
  .flush,
  .test,
  .finish,
  .join]

theorem not_stopKeeps_appendInWrite
    : MessagesFit appendInWrite ∧ BatchesFit appendInWrite ∧
        ∃ s, run appendInWrite = some s ∧ s.stop = .returned ∧ ¬StopKeeps appendInWrite s := by
  refine ⟨by unfold MessagesFit; decide, by unfold BatchesFit; decide, _, rfl, rfl, ?_⟩
  intro hkeeps
  have hlost := (hkeeps [.start, .begin, .startReturns, .test, .lock, .wake, .append [1]] _ rfl).length_le
  contradiction

end Logger
end Claire
