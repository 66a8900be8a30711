import ClaireCommon.Logging.Impl.LogMessage
import ClaireCommon.Logging.Lemmas.LogStream
import ClaireCommon.Time.Lemmas.Timestamp

/-!
This module contains that every message of a thread begins with its own time, whatever the thread has
logged before and whatever the message goes on with.
-/

namespace Claire

open FixedWidth

namespace LogStream

variable {text : UInt64 → List UInt8} {toDouble : UInt32 → UInt64} {cells : Nat → UInt8}

theorem append_normal {s : LogStream} (h : s.format = .kNormal) (msg : List UInt8)
    : s.append msg = { s with buffer := s.buffer.append msg } := by
  unfold append
  rw [h]

theorem append_append_create (d e : List UInt8)
    : ((create cells).append d).append e = (create cells).append (d ++ e) :=
  congrArg (LogStream.mk · .kNormal)
    ((RawBuffer.inside_create cells).append_append kSmallBuffer_lt d e)

theorem put_char_append_create (d : List UInt8) (c : UInt8)
    : ((create cells).append d).put text toDouble (.char c) = (create cells).append (d ++ [c]) :=
  append_append_create d [c]

theorem takes_put_int (text : UInt64 → List UInt8) (toDouble : UInt32 → UInt64) (cells : Nat → UInt8)
    (v : IntType.int.Value) {d e : List UInt8} (hd : d.length ≤ 4064) (he : e.length ≤ 12)
    : (create cells).buffer.Takes ((((create cells).append d).put text toDouble (.int v)).append e).buffer
        (d ++ decimal v.val ++ e) := by
  have hsize : kSmallBuffer = 4096 := rfl
  have hzero : (RawBuffer.create cells : RawBuffer kSmallBuffer).current = 0 := rfl
  have hmax := length_decimal_le v
  have hfirst := (RawBuffer.inside_create cells).takes_append kSmallBuffer_lt (d := d) (by omega)
  have hnumber := takes_formatInteger (s := (create cells).append d) hfirst.inside v (by
    have hcurrent : ((create cells).append d).buffer.current = _ := hfirst.current
    unfold kMaxNumericSize
    omega)
  have hboth := hfirst.trans hnumber
  have hcurrent : (((create cells).append d).formatInteger v).buffer.current
      = (RawBuffer.create cells : RawBuffer kSmallBuffer).current + _ := hboth.current
  have hlast := hboth.inside.takes_append kSmallBuffer_lt (d := e) (by
    rw [hcurrent, List.length_append]
    omega)
  have hformat : (((create cells).append d).formatInteger v).format = .kNormal := by
    unfold formatInteger
    split <;> rfl
  rw [put, append_normal hformat]
  exact hboth.trans hlast

end LogStream

namespace LogMessage

open Timestamp LogStream

structure Kept (tid : Int) (s : ThreadState) : Prop where
  time : s.time.length = 32
  second : s.lastSecond ≠ 0 → s.time.take 17 = dateText (Calendar.gmtime s.lastSecond)
  tidString : s.tidString.take 6 = (padded 0x20 5 tid ++ [0x20]).take 6

theorem take_print {array text : List UInt8} {n : Nat} (h : n ≤ text.length) (hlt : n < array.length)
    : (print array text).take n = text.take n := by
  unfold print
  rw [List.append_assoc, List.take_append_of_le_length (by rw [List.length_take]; omega), List.take_take,
    Nat.min_eq_left (by omega)]

theorem length_print {array text : List UInt8} (h : 0 < array.length)
    : (print array text).length = array.length := by
  simp [print]
  omega

-- Where `CacheTid` passes its assertion
def Logs (ndebug : Bool) (tid : Int) : Prop := ndebug = true ∨ (padded 0x20 5 tid).length = 5

theorem exists_cacheTid {ndebug : Bool} {tid : Int} (h : Logs ndebug tid)
    : ∃ s, cacheTid ndebug tid = some s ∧ Kept tid s := by
  have hlength := le_length_padded 0x20 5 tid
  unfold cacheTid
  dsimp only
  rw [if_pos (by rw [List.length_append, List.length_singleton]; exact h.imp_right fun h => by omega)]
  refine ⟨_, rfl, by simp, by simp, ?_⟩
  exact take_print (by rw [List.length_append, List.length_singleton]; omega) (by decide)

theorem cacheTid_eq_none {ndebug : Bool} {tid : Int} (h : ¬Logs ndebug tid)
    : cacheTid ndebug tid = none := by
  unfold cacheTid
  dsimp only
  rw [if_neg]
  rw [List.length_append, List.length_singleton]
  exact fun hpasses => h (hpasses.imp_right fun h => by omega)

-- A time that the texts can hold, after the second that stands for none
structure Loggable (t : Int) : Prop where
  inTexts : InTexts t
  second : kMicroSecondsPerSecond ≤ t

theorem Loggable.second_ne {t : Int} (h : Loggable t) : secondsSinceEpoch t ≠ 0 := by
  have hsecond := h.second
  rw [h.inTexts.parts.1]
  unfold kMicroSecondsPerSecond at hsecond
  omega

theorem micro_eq {t : Int} (h : InTexts t)
    : padded 0x30 6 (t.tmod kMicroSecondsPerSecond)
        = fixedText 6 (t.tmod kMicroSecondsPerSecond).toNat := by
  have ⟨hcast, hlt⟩ := h.micro
  rw [hcast]
  exact padded_zero hlt

theorem length_dateText {t : Int} (h : InTexts t)
    : (dateText (Calendar.gmtime (secondsSinceEpoch t))).length = 17 := by
  have hlength := length_text h
  rw [List.length_append, List.length_append, micro_eq h, length_fixedText, List.length_singleton]
    at hlength
  omega

theorem cString_buf {t : Int} (h : InTexts t)
    : cString (([0x2e] ++ padded 0x30 6 (t.tmod 1000000) ++ [0x5a, 0x20]).take 31)
        = [0x2e] ++ padded 0x30 6 (t.tmod kMicroSecondsPerSecond) ++ [0x5a, 0x20] := by
  have hmicro := micro_eq h
  have hk : kMicroSecondsPerSecond = 1000000 := rfl
  rw [hk] at hmicro ⊢
  rw [hmicro, List.take_of_length_le (by simp), cString_eq_self]
  simp [zero_not_mem_fixedText]

theorem Kept.cacheSecond {tid : Int} {s : ThreadState} (h : Kept tid s) (ndebug : Bool) {t : Int}
    (ht : Loggable t)
    : ∃ s', cacheSecond ndebug s (secondsSinceEpoch t) = some s' ∧ Kept tid s'
        ∧ s'.time.take 17 = dateText (Calendar.gmtime (secondsSinceEpoch t)) := by
  unfold LogMessage.cacheSecond
  dsimp only
  split
  . next hsame =>
    have hsecond := h.second (by rw [← hsame]; exact ht.second_ne)
    exact ⟨s, rfl, h, by rw [hsecond, hsame]⟩
  . have htake : (print s.time (dateText (Calendar.gmtime (secondsSinceEpoch t)))).take 17
        = dateText (Calendar.gmtime (secondsSinceEpoch t)) := by
      have hlength := length_dateText ht.inTexts
      rw [take_print (by omega) (by rw [h.time]; decide), ← hlength, List.take_length]
    have htime : (print s.time (dateText (Calendar.gmtime (secondsSinceEpoch t)))).length = s.time.length :=
      length_print (by rw [h.time]; decide)
    rw [if_pos (Or.inr (length_dateText ht.inTexts))]
    exact ⟨_, rfl, ⟨htime.trans h.time, fun _ => htake, h.tidString⟩, htake⟩

theorem Kept.formatTime {tid : Int} {s : ThreadState} (h : Kept tid s) (ndebug : Bool) {t : Int}
    (ht : Loggable t) (cells : Nat → UInt8)
    : ∃ s', formatTime ndebug s (.create cells) t
          = some ((LogStream.create cells).append (toFormattedString t ++ [0x5a, 0x20]), s')
        ∧ Kept tid s' := by
  have ⟨s', hs', hkept, htake⟩ := h.cacheSecond ndebug ht
  refine ⟨s', ?_, hkept⟩
  unfold LogMessage.formatTime
  rw [hs', Option.bind_eq_bind, Option.bind_some]
  dsimp only
  rw [cString_buf ht.inTexts, append_append_create, toFormattedString_eq ht.inTexts, htake]
  simp only [List.append_assoc, Option.pure_def]

def header (tid : Int) (message : Message) : List UInt8 :=
  toFormattedString message.time ++ [0x5a, 0x20] ++ (padded 0x20 5 tid ++ [0x20]).take 6
    ++ message.severity.name.take 5 ++ [0x2d, 0x20] ++ sourceFile message.file ++ [0x3a]

def beginning (tid : Int) (message : Message) : List UInt8 :=
  header tid message ++ decimal message.line.val ++ [0x20, 0x3a, 0x20]

section

variable (text : UInt64 → List UInt8) (toDouble : UInt32 → UInt64) (settings : Settings) (tid : Int)

def opening (message : Message) : LogStream :=
  (((LogStream.create message.cells).append (header tid message)).put text toDouble
    (.int message.line)).append [0x20, 0x3a, 0x20]

def plain (message : Message) : Output :=
  finish text toDouble settings (opening text toDouble tid message) message

def untilAborted : List Output → List Output
  | [] => []
  | output :: outputs => if output.aborted then [output] else output :: untilAborted outputs

end

variable {ndebug : Bool} {text : UInt64 → List UInt8} {toDouble : UInt32 → UInt64} {settings : Settings}
  {tid : Int} {s : ThreadState} {message : Message} {messages : List Message}

theorem untilAborted_isPrefix (outputs : List Output) : untilAborted outputs <+: outputs := by
  induction outputs with
  | nil => exact List.nil_prefix
  | cons output outputs ih =>
    unfold untilAborted
    split
    . exact ⟨outputs, rfl⟩
    . exact List.cons_prefix_cons.mpr ⟨rfl, ih⟩

theorem Kept.create (h : Kept tid s) (ndebug : Bool) (text : UInt64 → List UInt8)
    (toDouble : UInt32 → UInt64) (hmessage : Loggable message.time)
    : ∃ s', create ndebug text toDouble s message = some (opening text toDouble tid message, s')
        ∧ Kept tid s' := by
  have ⟨s', hs', hkept⟩ := h.formatTime ndebug hmessage message.cells
  refine ⟨s', ?_, hkept⟩
  unfold LogMessage.create
  rw [hs', Option.bind_eq_bind, Option.bind_some]
  simp only [opening, hkept.tidString, append_append_create, put_char_append_create, header,
    List.append_assoc, Option.pure_def]

theorem Kept.outputsFrom (h : Kept tid s) (ndebug : Bool) (text : UInt64 → List UInt8)
    (toDouble : UInt32 → UInt64) (settings : Settings)
    (hmessages : ∀ message ∈ messages, Loggable message.time)
    : outputsFrom ndebug text toDouble settings s messages
        = untilAborted (messages.map (plain text toDouble settings tid)) := by
  induction messages generalizing s with
  | nil => rfl
  | cons message messages ih =>
    have ⟨s', hs', hkept⟩ := h.create ndebug text toDouble (hmessages message List.mem_cons_self)
    rw [LogMessage.outputsFrom, hs', List.map_cons, untilAborted]
    dsimp only
    rw [ih hkept fun m hm => hmessages m (List.mem_cons_of_mem _ hm)]
    rfl

theorem length_header_le (hmessage : Loggable message.time)
    : (header tid message).length ≤ 40 + (sourceFile message.file).length := by
  have htime := length_toFormattedString hmessage.inTexts
  simp only [header, List.length_append, List.length_take, List.length_cons, List.length_nil, htime]
  omega

theorem extends_finish (text : UInt64 → List UInt8) (toDouble : UInt32 → UInt64) (settings : Settings)
    (message : Message) {stream : LogStream} (h : stream.buffer.Inside)
    : let output := (finish text toDouble settings stream message).output
      output.length ≤ kSmallBuffer
        ∧ stream.buffer.memory.read 0 stream.buffer.current <+: output := by
  have hoperands := extends_puts text toDouble h message.operands
  have hlast := extends_put text toDouble hoperands.inside (.char 0x0a)
  have hall := hoperands.trans hlast
  refine ⟨?_, hall.read_isPrefix⟩
  simp only [finish, Memory.length_read]
  exact hall.inside.le

theorem inside_opening (text : UInt64 → List UInt8) (toDouble : UInt32 → UInt64) (tid : Int)
    (message : Message) : (opening text toDouble tid message).buffer.Inside := by
  have hcreate : (LogStream.create message.cells).buffer.Inside := RawBuffer.inside_create _
  have hheader := extends_append hcreate (header tid message)
  have hline := extends_put text toDouble hheader.inside (.int message.line)
  exact (extends_append hline.inside _).inside

theorem read_opening (hmessage : Loggable message.time) (hfile : (sourceFile message.file).length ≤ 4000)
    : (opening text toDouble tid message).buffer.memory.read 0
          (opening text toDouble tid message).buffer.current = beginning tid message := by
  have hheader : (header tid message).length ≤ 40 + (sourceFile message.file).length :=
    length_header_le hmessage
  have htakes := takes_put_int text toDouble message.cells message.line
    (d := header tid message) (e := [0x20, 0x3a, 0x20]) (by omega) (by decide)
  have hnone : (LogStream.create message.cells).buffer.memory.read 0
      (LogStream.create message.cells).buffer.current = [] := rfl
  have hread := htakes.read
  rw [hnone, List.nil_append] at hread
  unfold opening beginning
  exact hread

theorem plain_output (hmessage : Loggable message.time)
    : (plain text toDouble settings tid message).output.length ≤ kSmallBuffer
        ∧ ((sourceFile message.file).length ≤ 4000 →
          beginning tid message <+: (plain text toDouble settings tid message).output) := by
  have ⟨hlength, hpre⟩ := extends_finish text toDouble settings message
    (inside_opening text toDouble tid message)
  refine ⟨hlength, fun hfile => ?_⟩
  rw [read_opening hmessage hfile] at hpre
  exact hpre

theorem stamped_of_logs (ndebug : Bool) (text : UInt64 → List UInt8) (toDouble : UInt32 → UInt64)
    (settings : Settings) (tid : Int) (messages : List Message)
    (hmessages : ∀ message ∈ messages, Loggable message.time)
    : (Logs ndebug tid → outputs ndebug text toDouble settings tid messages
          = untilAborted (messages.map (plain text toDouble settings tid)))
        ∧ (¬Logs ndebug tid → outputs ndebug text toDouble settings tid messages = [])
        ∧ ∀ (i : Nat) (output : Output),
          (outputs ndebug text toDouble settings tid messages)[i]? = some output →
          ∃ message, messages[i]? = some message ∧ output.output.length ≤ kSmallBuffer
            ∧ ((sourceFile message.file).length ≤ 4000 →
              beginning tid message <+: output.output) := by
  have hlogs : Logs ndebug tid → outputs ndebug text toDouble settings tid messages
      = untilAborted (messages.map (plain text toDouble settings tid)) := by
    intro hlogs
    have ⟨s, hs, hkept⟩ := exists_cacheTid hlogs
    unfold outputs
    rw [hs]
    exact hkept.outputsFrom ndebug text toDouble settings hmessages
  have hnothing : ¬Logs ndebug tid → outputs ndebug text toDouble settings tid messages = [] := by
    intro hnot
    unfold outputs
    rw [cacheTid_eq_none hnot]
  refine ⟨hlogs, hnothing, fun i output hi => ?_⟩
  by_cases h : Logs ndebug tid
  . rw [hlogs h] at hi
    have ⟨hlt, hget⟩ := List.getElem?_eq_some_iff.mp hi
    have hpre := untilAborted_isPrefix (messages.map (plain text toDouble settings tid))
    have hlt' := Nat.lt_of_lt_of_le hlt hpre.length_le
    rw [hpre.getElem hlt, List.getElem_map] at hget
    rw [List.length_map] at hlt'
    rw [← hget]
    exact ⟨messages[i], List.getElem?_eq_getElem hlt',
      plain_output (hmessages _ (List.getElem_mem hlt'))⟩
  . rw [hnothing h] at hi
    contradiction

-- The second message has the text of the second from the first one.
def exampleMessage (time : Int) : Message where
  time := time
  file := [0x61, 0x2f, 0x62]
  line := ⟨12, by decide, by decide⟩
  severity := .INFO
  operands := []
  cells := fun _ => 0

theorem loggable_example {n : Nat} (h : n < 1000000) : Loggable (1400000000000000 + n) where
  inTexts := ⟨by omega, by unfold endOfTexts kMicroSecondsPerSecond; omega⟩
  second := by unfold kMicroSecondsPerSecond; omega

def exampleOutput (time : Int) : Output :=
  plain (fun _ => []) (fun _ => 0) ⟨false, false, false⟩ 77 (exampleMessage time)

theorem stamped_of_logs_twice
    : ∃ first second, outputs false (fun _ => []) (fun _ => 0) ⟨false, false, false⟩ 77
          [exampleMessage 1400000000000000, exampleMessage 1400000000000007] = [first, second]
        ∧ beginning 77 (exampleMessage 1400000000000007) <+: second.output
        ∧ (toFormattedString 1400000000000007).drop 18 = [0x30, 0x30, 0x30, 0x30, 0x30, 0x37] := by
  have hall : ∀ message ∈ [exampleMessage 1400000000000000, exampleMessage 1400000000000007],
      Loggable message.time := by
    intro message hmessage
    simp only [List.mem_cons, List.not_mem_nil, or_false] at hmessage
    rcases hmessage with rfl | rfl
    . exact loggable_example (n := 0) (by decide)
    . exact loggable_example (n := 7) (by decide)
  have ⟨hlogs, _, hstamped⟩ :=
    stamped_of_logs false (fun _ => []) (fun _ => 0) ⟨false, false, false⟩ 77 _ hall
  have hpair := (hlogs (Or.inr (by decide +kernel))).trans
    (rfl : _ = [exampleOutput 1400000000000000, exampleOutput 1400000000000007])
  have ⟨message, hmessage, _, hpre⟩ :=
    hstamped 1 (exampleOutput 1400000000000007) (by rw [hpair]; rfl)
  cases hmessage
  exact ⟨_, _, hpair, hpre (by decide), by decide +kernel⟩

end LogMessage
end Claire
