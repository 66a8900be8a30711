import ClaireCommon.Logging.Impl.LogStream
import ClaireCommon.Time.Impl.Timestamp

/-!
This module contains the messages that a thread logs: each of them begins with the time, the thread, the
severity, the source file and the line. The thread keeps the text of the last second it has logged in.
Nothing more is logged when an assertion fails, which a build with `ndebug` does not look at.
-/

namespace Claire
namespace LogMessage

open FixedWidth

inductive LogSeverity where
  | TRACE
  | DEBUG
  | INFO
  | WARNING
  | ERROR
  | FATAL
  deriving DecidableEq, Repr

def LogSeverity.name : LogSeverity → List UInt8
  | .TRACE => [0x54, 0x52, 0x41, 0x43, 0x45, 0x20]
  | .DEBUG => [0x44, 0x45, 0x42, 0x55, 0x47, 0x20]
  | .INFO => [0x49, 0x4e, 0x46, 0x4f, 0x20]
  | .WARNING => [0x57, 0x41, 0x52, 0x4e, 0x49, 0x4e, 0x47, 0x20]
  | .ERROR => [0x45, 0x52, 0x52, 0x4f, 0x52, 0x20]
  | .FATAL => [0x46, 0x41, 0x54, 0x41, 0x4c, 0x20]

inductive LogColor where
  | COLOR_DEFAULT
  | COLOR_RED
  | COLOR_GREEN
  | COLOR_YELLOW
  deriving DecidableEq, Repr

def severityToColor : LogSeverity → LogColor
  | .TRACE | .DEBUG | .INFO => .COLOR_DEFAULT
  | .WARNING => .COLOR_YELLOW
  | .ERROR | .FATAL => .COLOR_RED

def getAnsiColorCode : LogColor → List UInt8
  | .COLOR_RED => [0x31]
  | .COLOR_GREEN => [0x32]
  | .COLOR_YELLOW => [0x33]
  | .COLOR_DEFAULT => []

-- The flags, and `TerminalSupportsColor()`
structure Settings where
  alsologtostderr : Bool
  colorlogtostderr : Bool
  terminalSupportsColor : Bool

def coloredWriteToStderr (settings : Settings) (severity : LogSeverity) (message : List UInt8)
    : List UInt8 :=
  let color :=
    if settings.terminalSupportsColor ∧ settings.colorlogtostderr then severityToColor severity
    else .COLOR_DEFAULT
  if color = .COLOR_DEFAULT then
    message
  else
    [0x1b, 0x5b, 0x30, 0x3b, 0x33] ++ getAnsiColorCode color ++ [0x6d] ++ message
      ++ [0x1b, 0x5b, 0x6d]

-- `SourceFile`: what stands behind the last slash
def sourceFile (file : List UInt8) : List UInt8 :=
  (file.reverse.takeWhile fun c => c ≠ 0x2f).reverse

-- The variables of a thread: `t_time`, `t_last_second`, and `t_tid_string` once it is set
structure ThreadState where
  time : List UInt8
  lastSecond : Int
  tidString : List UInt8

def print (array text : List UInt8) : List UInt8 :=
  let written := text.take (array.length - 1) ++ [0]
  written ++ array.drop written.length

def cacheTid (ndebug : Bool) (tid : Int) : Option ThreadState :=
  let text := padded 0x20 5 tid ++ [0x20]
  if ndebug ∨ text.length = 6 then
    some {
      time := List.replicate 32 0
      lastSecond := 0
      tidString := print (List.replicate 32 0) text }
  else
    none

structure Message where
  time : Int
  file : List UInt8
  line : IntType.int.Value
  severity : LogSeverity
  operands : List LogStream.Operand
  cells : Nat → UInt8

-- The first half of `FormatTime`
def cacheSecond (ndebug : Bool) (s : ThreadState) (seconds : Int) : Option ThreadState :=
  if seconds = s.lastSecond then
    some s
  else
    let text := Timestamp.dateText (Calendar.gmtime seconds)
    if ndebug ∨ text.length = 17 then
      some { s with time := print s.time text, lastSecond := seconds }
    else
      none

def formatTime (ndebug : Bool) (s : ThreadState) (stream : LogStream) (time : Int)
    : Option (LogStream × ThreadState) := do
  let s ← cacheSecond ndebug s (Timestamp.secondsSinceEpoch time)
  let microseconds := time.tmod 1000000
  let buf := ([0x2e] ++ padded 0x30 6 microseconds ++ [0x5a, 0x20]).take 31
  return ((stream.append (s.time.take 17)).append (cString buf), s)

section

variable (ndebug : Bool) (text : UInt64 → List UInt8) (toDouble : UInt32 → UInt64)

-- `Impl::Impl`
def create (s : ThreadState) (message : Message) : Option (LogStream × ThreadState) := do
  let (stream, s) ← formatTime ndebug s (.create message.cells) message.time
  let stream := stream.append (s.tidString.take 6)
  let stream := stream.append (message.severity.name.take 5)
  let stream := (stream.append [0x2d, 0x20]).append (sourceFile message.file)
  let stream := (stream.put text toDouble (.char 0x3a)).put text toDouble (.int message.line)
  return (stream.append [0x20, 0x3a, 0x20], s)

structure Output where
  stderr : List UInt8
  output : List UInt8
  aborted : Bool
  deriving DecidableEq

-- `~LogMessage`, after the operands
def finish (settings : Settings) (stream : LogStream) (message : Message) : Output :=
  let stream := stream.puts text toDouble message.operands
  let buffer := (stream.put text toDouble (.char 0x0a)).buffer
  let data := buffer.memory.read 0 buffer.length
  { stderr :=
      if settings.alsologtostderr then coloredWriteToStderr settings message.severity data else []
    output := data
    aborted := message.severity = .FATAL }

def outputsFrom (settings : Settings) (s : ThreadState) : List Message → List Output
  | [] => []
  | message :: messages =>
    match create ndebug text toDouble s message with
    | some (stream, s) =>
      let output := finish text toDouble settings stream message
      if output.aborted then [output] else output :: outputsFrom settings s messages
    | none => []

def outputs (settings : Settings) (tid : Int) (messages : List Message) : List Output :=
  match cacheTid ndebug tid with
  | some s => outputsFrom ndebug text toDouble settings s messages
  | none => []

end

end LogMessage
end Claire
