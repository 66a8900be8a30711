import Mathlib.Data.List.Infix
import ClaireCommon.Logging.Impl.Logger
import ClaireCommon.Logging.Lemmas.LogBuffer

/-!
This module proves that the asynchronous logger keeps every byte in order.
-/

namespace Claire

namespace Logger

def bytes (buffers : List Buffer) : List UInt8 := buffers.flatMap LogBuffer.data

theorem bytes_append (buffers buffers' : List Buffer)
    : bytes (buffers ++ buffers') = bytes buffers ++ bytes buffers' :=
  List.flatMap_append

@[simp]
theorem bytes_singleton (buffer : Buffer) : bytes [buffer] = buffer.data := List.append_nil _

def unwritten (s : Logger) : List Buffer :=
  match s.writer with
  | .taken => s.buffersToWrite
  | .writing i => s.buffersToWrite.drop i
  | _ => []

def currentBytes (s : Logger) : List UInt8 :=
  match s.currentBuffer with
  | some current => current.data
  | none => []

def takenBytes (s : Logger) : List UInt8 := s.output.appended ++ bytes s.unwritten

def pendingBytes (s : Logger) : List UInt8 := bytes s.buffers ++ s.currentBytes

def Empty (buffer : Option Buffer) : Prop := ∀ b, buffer = some b → b.data = []

theorem empty_none : Empty none := by
  intro b h
  contradiction

theorem empty_some {b : Buffer} (h : b.data = []) : Empty (some b) := by
  intro b' heq
  injection heq with heq
  rw [← heq, h]

theorem isSpare_of_empty {buffer : Option Buffer} (hne : buffer ≠ none) (h : Empty buffer)
    : isSpare buffer := by
  cases buffer with
  | none => contradiction
  | some b =>
    have hlength : b.length = 0 := congrArg List.length (h b rfl)
    simp [isSpare, hlength]

namespace Writer

def hasBegun : Writer → Bool
  | notStarted | starting => false
  | _ => true

def hasSpares : Writer → Bool
  | testing | locking | waiting | flushing | finishing | finished => true
  | _ => false

def hasBatch : Writer → Bool
  | taken | writing _ | recycling => true
  | _ => false

end Writer

structure Inv (s : Logger) : Prop where
  idle : s.start = .idle → s.writer = .notStarted
  output : s.writer.hasBegun = false → s.output = .create
  current : s.currentBuffer ≠ none
  -- The second buffer is in use.
  next : s.nextBuffer = none → s.buffers ≠ []
  nextEmpty : Empty s.nextBuffer
  spares : s.writer.hasSpares = true → s.buffer1 ≠ none ∧ s.buffer2 ≠ none ∧ s.buffersToWrite = []
  batch : s.writer.hasBatch = true →
    s.buffer1 = none ∧ s.buffersToWrite ≠ [] ∧ (s.buffer2 = none → 2 ≤ s.buffersToWrite.length)
  empty1 : Empty s.buffer1
  empty2 : Empty s.buffer2
  runs : s.writer ≠ .aborted

theorem create_inv : create.Inv where
  idle _ := rfl
  output _ := rfl
  current := by simp [create]
  next := by simp [create]
  nextEmpty := empty_some rfl
  spares := by simp [create, Writer.hasSpares]
  batch := by simp [create, Writer.hasBatch]
  empty1 := empty_none
  empty2 := empty_none
  runs := by simp [create]

variable {s s' : Logger}

theorem append_frame {data : List UInt8} (h : s.append data = some s')
    : s' = { s with
        currentBuffer := s'.currentBuffer, nextBuffer := s'.nextBuffer, buffers := s'.buffers } := by
  unfold append at h
  split at h
  . contradiction
  . split at h
    . injection h with h
      rw [← h]
    . dsimp only at h
      split at h
      . injection h with h
        rw [← h]
      . injection h with h
        rw [← h]

theorem append_cases {data : List UInt8} (h : s.append data = some s')
    : ∃ current, s.currentBuffer = some current ∧
        (current.avail > data.length ∧ s' = { s with currentBuffer := some (current.append data) } ∨
          ∃ next, (s.nextBuffer = some next ∨ next = .create) ∧ s' = { s with
            currentBuffer := some (next.append data), nextBuffer := none
            buffers := s.buffers ++ [current] }) := by
  unfold append at h
  split at h
  . contradiction
  . next current hcurrent =>
    refine ⟨current, hcurrent, ?_⟩
    split at h
    . next havail =>
      injection h with h
      exact Or.inl ⟨havail, h.symm⟩
    . right
      dsimp only at h
      split at h
      . next next hnext =>
        injection h with h
        exact ⟨next, Or.inl hnext, h.symm⟩
      . next hnext =>
        injection h with h
        rw [hnext] at h
        exact ⟨.create, Or.inr rfl, h.symm⟩

theorem Inv.append (hinv : s.Inv) {data : List UInt8} (h : s.append data = some s') : s'.Inv := by
  have ⟨current, hcurrent, hcases⟩ := append_cases h
  cases hcases with
  | inl hfits =>
    rw [hfits.2]
    exact { hinv with current := by simp }
  | inr hchange =>
    have ⟨next, _, heq⟩ := hchange
    rw [heq]
    exact { hinv with current := by simp, next := by simp, nextEmpty := empty_none }

theorem Inv.pendingBytes_append (hinv : s.Inv) {data : List UInt8}
    (hdata : data.length ≤ kLargeBuffer) (h : s.append data = some s')
    : s'.pendingBytes = s.pendingBytes ++ data := by
  have ⟨current, hcurrent, hcases⟩ := append_cases h
  unfold pendingBytes currentBytes
  cases hcases with
  | inl hfits =>
    rw [hfits.2, hcurrent, List.append_assoc]
    dsimp only
    rw [LogBuffer.data_append_of_avail hfits.1]
  | inr hchange =>
    have ⟨next, hnext, heq⟩ := hchange
    have hempty : next.data = [] := by
      cases hnext with
      | inl hnext => exact hinv.nextEmpty next hnext
      | inr hnext => rw [hnext, LogBuffer.data_create]
    rw [heq, hcurrent]
    dsimp only
    rw [bytes_append, bytes_singleton, LogBuffer.data_append_of_empty hempty hdata]

theorem take_frame (h : s.take = some s')
    : s' = { s with
        currentBuffer := s'.currentBuffer, nextBuffer := s'.nextBuffer, buffers := s'.buffers,
        buffer1 := s'.buffer1, buffer2 := s'.buffer2, buffersToWrite := s'.buffersToWrite,
        writer := .taken } := by
  unfold take at h
  split at h
  . contradiction
  . injection h with h
    rw [← h]
    unfold refillNext
    dsimp only
    cases s.nextBuffer with
    | some next => rfl
    | none => rfl

theorem Inv.take (hinv : s.Inv) (hspares : s.writer.hasSpares = true) (h : s.take = some s')
    : s'.Inv := by
  have ⟨hbuffer1, hbuffer2, hbatch⟩ := hinv.spares hspares
  have hne : s.writer ≠ .notStarted := by
    intro heq
    rw [heq] at hspares
    contradiction
  unfold Logger.take at h
  split at h
  . contradiction
  . next current hcurrent =>
    injection h with h
    rw [← h]
    unfold refillNext
    dsimp only
    cases hnext : s.nextBuffer with
    | some next =>
      constructor
      . exact fun hidle => absurd (hinv.idle hidle) hne
      . simp [Writer.hasBegun]
      . exact hbuffer1
      . simp
      . exact empty_some (hinv.nextEmpty next hnext)
      . simp [Writer.hasSpares]
      . simp [hbuffer2]
      . exact empty_none
      . exact hinv.empty2
      . simp
    | none =>
      -- The batch has the buffer that `nextBuffer` was, it takes the place of the second spare.
      have hbuffers := List.length_pos_iff.mpr (hinv.next hnext)
      constructor
      . exact fun hidle => absurd (hinv.idle hidle) hne
      . simp [Writer.hasBegun]
      . exact hbuffer1
      . simp [hbuffer2]
      . exact hinv.empty2
      . simp [Writer.hasSpares]
      . simp
        omega
      . exact empty_none
      . exact empty_none
      . simp

theorem Inv.bytes_take (hinv : s.Inv) (hspares : s.writer.hasSpares = true)
    (hunwritten : s.unwritten = []) (h : s.take = some s')
    : s'.takenBytes = s.takenBytes ++ s.pendingBytes ∧ s'.pendingBytes = [] := by
  have ⟨_, _, hbatch⟩ := hinv.spares hspares
  unfold Logger.take at h
  split at h
  . contradiction
  . next current hcurrent =>
    injection h with h
    have htaken : s.output.appended ++ bytes (s.buffers ++ [current])
        = s.takenBytes ++ s.pendingBytes := by
      unfold takenBytes pendingBytes currentBytes
      rw [hunwritten, hcurrent, bytes_append, bytes_singleton]
      simp [bytes]
    have hpending : bytes s.buffersToWrite
        ++ (match s.buffer1 with | some current => current.data | none => []) = [] := by
      rw [hbatch]
      cases hb : s.buffer1 with
      | none => rfl
      | some b => exact hinv.empty1 b hb
    rw [← h]
    unfold refillNext
    dsimp only
    cases s.nextBuffer with
    | some next => exact ⟨htaken, hpending⟩
    | none => exact ⟨htaken, hpending⟩

theorem Inv.goOn (hinv : s.Inv) {writer : Writer} {output : LogFile}
    (hbegun : s.writer.hasBegun = true) (hbegun' : writer.hasBegun = true)
    (hspares : writer.hasSpares = true → s.writer.hasSpares = true)
    (hbatch : writer.hasBatch = true → s.writer.hasBatch = true) (hne : writer ≠ .aborted)
    : Inv { s with writer := writer, output := output } := by
  constructor
  . intro hidle
    rw [hinv.idle hidle] at hbegun
    contradiction
  . intro h
    rw [hbegun'] at h
    contradiction
  . exact hinv.current
  . exact hinv.next
  . exact hinv.nextEmpty
  . intro h
    exact hinv.spares (hspares h)
  . intro h
    exact hinv.batch (hbatch h)
  . exact hinv.empty1
  . exact hinv.empty2
  . exact hne

theorem Inv.drop (hinv : s.Inv) (hbatch : s.writer.hasBatch = true)
    : Inv { s with buffersToWrite := s.buffersToWrite.take 2 } := by
  have ⟨hnone, hne, htwo⟩ := hinv.batch hbatch
  have hpos := List.length_pos_iff.mpr hne
  refine { hinv with spares := ?_, batch := ?_ }
  . intro hspares
    rw [(hinv.spares hspares).2.2] at hne
    contradiction
  . intro _
    refine ⟨hnone, ?_, ?_⟩
    . rw [← List.length_pos_iff, List.length_take]
      omega
    . intro hnone2
      have := htwo hnone2
      rw [List.length_take]
      omega

theorem Inv.check (hinv : s.Inv) (hwriter : s.writer = .taken) (time : List UInt8)
    : (s.check time).Inv := by
  have hbatch : s.writer.hasBatch = true := by
    rw [hwriter]
    rfl
  have hne := (hinv.batch hbatch).2.1
  unfold Logger.check
  rw [if_neg (by simpa using hne)]
  split
  . apply (hinv.drop hbatch).goOn <;>
      simp [hwriter, Writer.hasBegun, Writer.hasSpares, Writer.hasBatch]
  . apply hinv.goOn <;> simp [hwriter, Writer.hasBegun, Writer.hasSpares, Writer.hasBatch]

theorem Inv.check_eq (hinv : s.Inv) (hwriter : s.writer = .taken) (hbatch : s.buffersToWrite.length ≤ 25)
    (time : List UInt8) : s.check time = { s with writer := .writing 0 } := by
  have ⟨_, hne, _⟩ := hinv.batch (by rw [hwriter]; rfl)
  unfold Logger.check
  rw [if_neg (by simpa using hne), if_neg (by omega)]

theorem Inv.write (hinv : s.Inv) {i : Nat} (hwriter : s.writer = .writing i)
    : (s.write i).Inv ∧ (s.write i).takenBytes = s.takenBytes ∧
        (s.write i).pendingBytes = s.pendingBytes := by
  unfold Logger.write
  split
  . next buffer hbuffer =>
    refine ⟨?_, ?_, rfl⟩
    . apply hinv.goOn <;> simp [hwriter, Writer.hasBegun, Writer.hasSpares, Writer.hasBatch]
    . have hlt := (List.getElem?_eq_some_iff.mp hbuffer).1
      have heq := (List.getElem?_eq_some_iff.mp hbuffer).2
      unfold takenBytes unwritten LogFile.append
      rw [hwriter]
      dsimp only
      rw [List.drop_eq_getElem_cons hlt, heq, List.append_assoc]
      rfl
  . next hnone =>
    refine ⟨?_, ?_, rfl⟩
    . apply hinv.goOn <;> simp [hwriter, Writer.hasBegun, Writer.hasSpares, Writer.hasBatch]
    . have hle := List.getElem?_eq_none_iff.mp hnone
      unfold takenBytes unwritten
      rw [hwriter]
      dsimp only
      rw [List.drop_of_length_le hle]

theorem recycleInto_spec {buffer : Option Buffer} {buffersToWrite : List Buffer} (hempty : Empty buffer)
    (hne : buffer = none → buffersToWrite ≠ [])
    : ∃ b, recycleInto buffer buffersToWrite
          = some (some b, if buffer = none then buffersToWrite.dropLast else buffersToWrite) ∧
        b.data = [] := by
  unfold recycleInto
  cases buffer with
  | some b => exact ⟨b, rfl, hempty b rfl⟩
  | none =>
    rw [List.getLast?_eq_getLast_of_ne_nil (hne rfl)]
    exact ⟨_, rfl, rfl⟩

-- Both calls of `pop_back` find a buffer.
theorem Inv.recycleInto_eq (hinv : s.Inv) (hwriter : s.writer = .recycling)
    : ∃ b1 b2 rest, b1.data = [] ∧ b2.data = [] ∧
        recycleInto s.buffer1 (s.buffersToWrite.take 2)
          = some (some b1, (s.buffersToWrite.take 2).dropLast) ∧
        recycleInto s.buffer2 (s.buffersToWrite.take 2).dropLast = some (some b2, rest) := by
  have hbatch : s.writer.hasBatch = true := by
    rw [hwriter]
    rfl
  have ⟨hnone, hne, htwo⟩ := (hinv.drop hbatch).batch hbatch
  dsimp only at hnone hne htwo
  have ⟨b1, hb1, hempty1⟩ := recycleInto_spec hinv.empty1 fun _ => hne
  rw [if_pos hnone] at hb1
  have hne2 : s.buffer2 = none → (s.buffersToWrite.take 2).dropLast ≠ [] := by
    intro hnone2
    have := htwo hnone2
    rw [← List.length_pos_iff, List.length_dropLast]
    omega
  have ⟨b2, hb2, hempty2⟩ := recycleInto_spec hinv.empty2 hne2
  exact ⟨b1, b2, _, hempty1, hempty2, hb1, hb2⟩

theorem Inv.recycle (hinv : s.Inv) (hwriter : s.writer = .recycling)
    : s.recycle.Inv ∧ s.recycle.writer = .flushing ∧ s.recycle.output = s.output ∧
        s.recycle.pendingBytes = s.pendingBytes := by
  have ⟨b1, b2, rest, hempty1, hempty2, hb1, hb2⟩ := hinv.recycleInto_eq hwriter
  unfold Logger.recycle
  rw [hb1]
  dsimp only
  rw [hb2]
  refine ⟨?_, rfl, rfl, rfl⟩
  constructor
  . intro hidle
    rw [hinv.idle hidle] at hwriter
    contradiction
  . simp [Writer.hasBegun]
  . exact hinv.current
  . exact hinv.next
  . exact hinv.nextEmpty
  . simp
  . simp [Writer.hasBatch]
  . exact empty_some hempty1
  . exact empty_some hempty2
  . simp

def Label.message : Label → List UInt8
  | append data => data
  | _ => []

-- What a step does to the bytes: it appends a message, takes what is pending, or leaves both.
inductive Effect (s s' : Logger) : Label → Prop
  | append {data : List UInt8} (htaken : s'.takenBytes = s.takenBytes)
      (hpending : s'.pendingBytes = s.pendingBytes ++ data) : Effect s s' (.append data)
  | take {label : Label} (hlabel : label = .lock ∨ label = .wake)
      (htaken : s'.takenBytes = s.takenBytes ++ s.pendingBytes) (hpending : s'.pendingBytes = [])
      : Effect s s' label
  | other {label : Label} (hlabel : label.message = []) (htaken : s'.takenBytes = s.takenBytes)
      (hpending : s'.pendingBytes = s.pendingBytes) : Effect s s' label

theorem Effect.bytes_eq {label : Label} (h : Effect s s' label)
    : s'.takenBytes ++ s'.pendingBytes = s.takenBytes ++ s.pendingBytes ++ label.message := by
  cases h with
  | append htaken hpending =>
    rw [htaken, hpending, List.append_assoc]
    rfl
  | take hlabel htaken hpending =>
    rw [htaken, hpending]
    cases hlabel with
    | inl hlabel => rw [hlabel]; rfl
    | inr hlabel => rw [hlabel]; rfl
  | other hlabel htaken hpending => rw [hlabel, htaken, hpending, List.append_nil]

theorem Inv.control (hinv : s.Inv) {running : Bool} {start : Start} {stop : Stop}
    (hidle : start = .idle → s.start = .idle)
    : Inv { s with running := running, start := start, stop := stop } := by
  constructor
  . exact fun h => hinv.idle (hidle h)
  . exact hinv.output
  . exact hinv.current
  . exact hinv.next
  . exact hinv.nextEmpty
  . exact hinv.spares
  . exact hinv.batch
  . exact hinv.empty1
  . exact hinv.empty2
  . exact hinv.runs

theorem Inv.start (hinv : s.Inv) (hidle : s.start = .idle)
    : Inv { s with running := true, start := .waiting, writer := .starting } := by
  have hwriter := hinv.idle hidle
  constructor
  . simp
  . intro _
    apply hinv.output
    rw [hwriter]
    rfl
  . exact hinv.current
  . exact hinv.next
  . exact hinv.nextEmpty
  . simp [Writer.hasSpares]
  . simp [Writer.hasBatch]
  . exact hinv.empty1
  . exact hinv.empty2
  . simp

theorem Inv.begin (hinv : s.Inv) (hwriter : s.writer = .starting)
    : s.begin.Inv ∧ s.begin.takenBytes = s.takenBytes ∧ s.begin.pendingBytes = s.pendingBytes := by
  have houtput := hinv.output (by rw [hwriter]; rfl)
  refine ⟨?_, ?_, rfl⟩
  . constructor
    . intro hidle
      rw [hinv.idle hidle] at hwriter
      contradiction
    . simp [Logger.begin, Writer.hasBegun]
    . exact hinv.current
    . exact hinv.next
    . exact hinv.nextEmpty
    . simp [Logger.begin]
    . simp [Logger.begin, Writer.hasBatch]
    . exact empty_some rfl
    . exact empty_some rfl
    . simp [Logger.begin]
  . unfold takenBytes unwritten
    rw [hwriter, houtput]
    rfl

theorem Inv.test_eq (hinv : s.Inv) (hwriter : s.writer = .testing)
    : s.test = { s with writer := if s.running then .locking else .finishing } := by
  have ⟨hbuffer1, hbuffer2, hbatch⟩ := hinv.spares (by rw [hwriter]; rfl)
  have hspare1 := isSpare_of_empty hbuffer1 hinv.empty1
  have hspare2 := isSpare_of_empty hbuffer2 hinv.empty2
  unfold Logger.test
  cases s.running with
  | true => simp [hspare1, hspare2, hbatch]
  | false => rfl

inductive Stepped (s : Logger) : Label → Logger → Prop
  | append {data : List UInt8} {s' : Logger} (happend : s.append data = some s')
      : Stepped s (.append data) s'
  | startAgain (hidle : s.start = .idle) (hrunning : s.running = true)
      : Stepped s .start { s with start := .returned }
  | start (hidle : s.start = .idle) (hrunning : s.running = false)
      : Stepped s .start { s with running := true, start := .waiting, writer := .starting }
  | startReturns (hwaiting : s.start = .waiting) (hlatch : s.latch = 0)
      : Stepped s .startReturns { s with start := .returned }
  | stop (hreturned : s.start = .returned) (hidle : s.stop = .idle)
      : Stepped s .stop { s with stop := .called }
  | clearRunning (hcalled : s.stop = .called) (hrunning : s.running = true)
      : Stepped s .clearRunning { s with running := false, stop := .notifying }
  | stopAgain (hcalled : s.stop = .called) (hrunning : s.running = false)
      : Stepped s .clearRunning { s with stop := .returned }
  | notify (hnotifying : s.stop = .notifying) : Stepped s .notify { s with stop := .joining }
  | join (hjoining : s.stop = .joining) (hfinished : s.writer = .finished)
      : Stepped s .join { s with stop := .returned }
  | begin (hwriter : s.writer = .starting) : Stepped s .begin s.begin
  | test (hwriter : s.writer = .testing) : Stepped s .test s.test
  | wait (hwriter : s.writer = .locking) : Stepped s .lock { s with writer := .waiting }
  | lock {s' : Logger} (hwriter : s.writer = .locking) (htake : s.take = some s') : Stepped s .lock s'
  | wake {s' : Logger} (hwriter : s.writer = .waiting) (htake : s.take = some s') : Stepped s .wake s'
  | check (hwriter : s.writer = .taken) (time : List UInt8) : Stepped s (.check time) (s.check time)
  | write {i : Nat} (hwriter : s.writer = .writing i) : Stepped s .write (s.write i)
  | recycle (hwriter : s.writer = .recycling) : Stepped s .recycle s.recycle
  | flush (hwriter : s.writer = .flushing)
      : Stepped s .flush { s with output := s.output.flush, writer := .testing }
  | finish (hwriter : s.writer = .finishing)
      : Stepped s .finish { s with output := s.output.flush, writer := .finished }

theorem stepped_of_step {label : Label} (hstep : step s label = some s') : Stepped s label s' := by
  cases label with
  | append data => exact .append hstep
  | start =>
    dsimp only [step] at hstep
    split at hstep
    . next hidle =>
      split at hstep
      . next hrunning =>
        injection hstep with heq
        rw [← heq]
        exact .startAgain hidle hrunning
      . next hrunning =>
        injection hstep with heq
        rw [← heq]
        exact .start hidle ((Bool.not_eq_true _).mp hrunning)
    . contradiction
  | clearRunning =>
    dsimp only [step] at hstep
    split at hstep
    . next hcalled =>
      split at hstep
      . next hrunning =>
        injection hstep with heq
        rw [← heq]
        exact .clearRunning hcalled hrunning
      . next hrunning =>
        injection hstep with heq
        rw [← heq]
        exact .stopAgain hcalled ((Bool.not_eq_true _).mp hrunning)
    . contradiction
  | lock =>
    dsimp only [step] at hstep
    rw [Option.ite_none_right_eq_some] at hstep
    have ⟨hwriter, hlock⟩ := hstep
    unfold lock at hlock
    split at hlock
    . injection hlock with heq
      rw [← heq]
      exact .wait hwriter
    . exact .lock hwriter hlock
  | write =>
    dsimp only [step] at hstep
    split at hstep
    . next i hwriter =>
      injection hstep with heq
      rw [← heq]
      exact .write hwriter
    . contradiction
  | wake =>
    dsimp only [step] at hstep
    rw [Option.ite_none_right_eq_some] at hstep
    exact .wake hstep.1 hstep.2
  | startReturns | stop | join =>
    dsimp only [step] at hstep
    rw [Option.ite_none_right_eq_some] at hstep
    have ⟨⟨hfirst, hsecond⟩, heq⟩ := hstep
    injection heq with heq
    rw [← heq]
    constructor
    . exact hfirst
    . exact hsecond
  | notify | begin | test | recycle | flush | finish | check =>
    dsimp only [step] at hstep
    rw [Option.ite_none_right_eq_some] at hstep
    have ⟨hphase, heq⟩ := hstep
    injection heq with heq
    rw [← heq]
    constructor
    exact hphase

theorem Inv.step (hinv : s.Inv) {label : Label} (hstep : step s label = some s') : s'.Inv := by
  cases stepped_of_step hstep with
  | append happend => exact hinv.append happend
  | startAgain => exact hinv.control (by simp)
  | start hidle => exact hinv.start hidle
  | startReturns => exact hinv.control (by simp)
  | stop => exact hinv.control id
  | clearRunning => exact hinv.control id
  | stopAgain => exact hinv.control id
  | notify => exact hinv.control id
  | join => exact hinv.control id
  | begin hwriter => exact (hinv.begin hwriter).1
  | test hwriter =>
    rw [hinv.test_eq hwriter]
    apply hinv.goOn
    . rw [hwriter]
      rfl
    . split <;> rfl
    . intro _
      rw [hwriter]
      rfl
    . split <;> simp [Writer.hasBatch]
    . split <;> simp
  | wait hwriter =>
    apply hinv.goOn <;> simp [hwriter, Writer.hasBegun, Writer.hasSpares, Writer.hasBatch]
  | lock hwriter htake => exact (hinv.take (by rw [hwriter]; rfl) htake)
  | wake hwriter htake => exact (hinv.take (by rw [hwriter]; rfl) htake)
  | check hwriter time => exact hinv.check hwriter time
  | write hwriter => exact (hinv.write hwriter).1
  | recycle hwriter => exact (hinv.recycle hwriter).1
  | flush hwriter =>
    apply hinv.goOn <;> simp [hwriter, Writer.hasBegun, Writer.hasSpares, Writer.hasBatch]
  | finish hwriter =>
    apply hinv.goOn <;> simp [hwriter, Writer.hasBegun, Writer.hasSpares, Writer.hasBatch]

theorem Inv.effect (hinv : s.Inv) {label : Label} (hstep : Logger.step s label = some s')
    (hmessage : label.message.length ≤ kLargeBuffer) (hbatch : s.buffersToWrite.length ≤ 25)
    : Effect s s' label := by
  cases stepped_of_step hstep with
  | append happend =>
    apply Effect.append _ (hinv.pendingBytes_append hmessage happend)
    rw [append_frame happend]
    rfl
  | startAgain => exact .other rfl rfl rfl
  | start hidle =>
    have htaken : s.takenBytes = s.output.appended ++ bytes [] := by
      unfold takenBytes unwritten
      rw [hinv.idle hidle]
    exact .other rfl htaken.symm rfl
  | startReturns => exact .other rfl rfl rfl
  | stop => exact .other rfl rfl rfl
  | clearRunning => exact .other rfl rfl rfl
  | stopAgain => exact .other rfl rfl rfl
  | notify => exact .other rfl rfl rfl
  | join => exact .other rfl rfl rfl
  | begin hwriter =>
    have ⟨_, htaken, hpending⟩ := hinv.begin hwriter
    exact .other rfl htaken hpending
  | test hwriter =>
    rw [hinv.test_eq hwriter]
    apply Effect.other rfl
    . unfold takenBytes unwritten
      rw [hwriter]
      cases s.running <;> rfl
    . rfl
  | wait hwriter =>
    apply Effect.other rfl
    . unfold takenBytes unwritten
      rw [hwriter]
    . rfl
  | lock hwriter htake =>
    have hunwritten : s.unwritten = [] := by
      unfold unwritten
      rw [hwriter]
    have ⟨htaken, hpending⟩ := hinv.bytes_take (by rw [hwriter]; rfl) hunwritten htake
    exact .take (Or.inl rfl) htaken hpending
  | wake hwriter htake =>
    have hunwritten : s.unwritten = [] := by
      unfold unwritten
      rw [hwriter]
    have ⟨htaken, hpending⟩ := hinv.bytes_take (by rw [hwriter]; rfl) hunwritten htake
    exact .take (Or.inr rfl) htaken hpending
  | check hwriter time =>
    rw [hinv.check_eq hwriter hbatch]
    apply Effect.other rfl
    . unfold takenBytes unwritten
      rw [hwriter]
      rfl
    . rfl
  | write hwriter =>
    have ⟨_, htaken, hpending⟩ := hinv.write hwriter
    exact .other rfl htaken hpending
  | recycle hwriter =>
    have ⟨_, hwriter', houtput, hpending⟩ := hinv.recycle hwriter
    apply Effect.other rfl _ hpending
    unfold takenBytes unwritten
    rw [hwriter, hwriter', houtput]
  | flush hwriter =>
    apply Effect.other rfl
    . unfold takenBytes unwritten
      rw [hwriter]
      rfl
    . rfl
  | finish hwriter =>
    apply Effect.other rfl
    . unfold takenBytes unwritten
      rw [hwriter]
      rfl
    . rfl

def messages (labels : List Label) : List UInt8 := labels.flatMap Label.message

def MessagesFit (labels : List Label) : Prop := ∀ label ∈ labels, label.message.length ≤ kLargeBuffer

-- No batch of the run has more than 25 buffers.
def BatchesFit (labels : List Label) : Prop :=
  ∀ before ∈ labels.inits, ∀ s ∈ run before, s.buffersToWrite.length ≤ 25

variable {labels labels' : List Label}

theorem MessagesFit.mono (h : MessagesFit labels) (hle : labels' <+: labels) : MessagesFit labels' := by
  intro label hlabel
  exact h label (hle.subset hlabel)

theorem BatchesFit.mono (h : BatchesFit labels) (hle : labels' <+: labels) : BatchesFit labels' := by
  intro before hbefore
  rw [List.mem_inits] at hbefore
  apply h before
  rw [List.mem_inits]
  exact hbefore.trans hle

theorem BatchesFit.le (h : BatchesFit labels) (hle : labels' <+: labels) (hrun : run labels' = some s)
    : s.buffersToWrite.length ≤ 25 :=
  h labels' ((List.mem_inits _ _).mpr hle) s hrun

theorem run_inv (hrun : run labels = some s) : s.Inv := by
  apply Machine.run_invariant _ create_inv hrun
  intro m label m' hm hstep
  exact hm.step hstep

theorem run_bytes (hrun : run labels = some s) (hmessages : MessagesFit labels)
    (hbatches : BatchesFit labels) : s.takenBytes ++ s.pendingBytes = messages labels := by
  revert hmessages hbatches
  apply Machine.run_induction (P := fun labels s => MessagesFit labels → BatchesFit labels →
    s.takenBytes ++ s.pendingBytes = messages labels) _ _ hrun
  . intro _ _
    rfl
  . intro before m label m' hm ih hstep hmessages hbatches
    have hle : before <+: before ++ [label] := List.prefix_append _ _
    have heffect := (run_inv hm).effect hstep (hmessages label (by simp)) (hbatches.le hle hm)
    rw [heffect.bytes_eq, ih (hmessages.mono hle) (hbatches.mono hle)]
    simp [messages]

theorem run_keepsBytes (hrun : run labels = some s) (hmessages : MessagesFit labels)
    (hbatches : BatchesFit labels)
    : s.output.appended ++ bytes s.unwritten ++ bytes s.buffers ++ s.currentBytes = messages labels := by
  rw [List.append_assoc]
  exact run_bytes hrun hmessages hbatches

-- A message is appended before the writer waits, one while it waits and one after it.
def waitOnce : List Label := [
  .append [1],
  .start,
  .begin,
  .startReturns,
  .test,
  .lock,
  .append [2, 3],
  .wake,
  .check [],
  .write,
  .append [4]]

theorem run_keepsBytes_waitOnce
    : ∃ s, run waitOnce = some s ∧
        s.output.appended ++ bytes s.unwritten ++ bytes s.buffers ++ s.currentBytes = messages waitOnce :=
  ⟨_, rfl, run_keepsBytes rfl (by unfold MessagesFit; decide) (by unfold BatchesFit; decide)⟩

end Logger
end Claire
