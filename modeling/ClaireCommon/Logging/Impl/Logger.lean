import ClaireCommon.Lib.Machine
import ClaireCommon.Logging.Impl.LogBuffer

/-!
This module contains the asynchronous logger: the threads that append, the thread that writes, and the
callers of `Start` and `Stop`. A critical section is a single step, the wait of the writer ends one and
begins another. It can end at any time, by the timeout, a signal or without a reason, so that `Notify`
changes nothing.

Of the file it counts what was passed to it and how much of that it has been told to flush. The use of a
pointer that is null has no meaning, the model stops there.
-/

namespace Claire

structure LogFile where
  appended : List UInt8
  -- The number of bytes at the last `Flush`
  flushed : Nat
  deriving DecidableEq, Repr

namespace LogFile

def create : LogFile where
  appended := []
  flushed := 0

def append (file : LogFile) (data : List UInt8) : LogFile :=
  { file with appended := file.appended ++ data }

def flush (file : LogFile) : LogFile := { file with flushed := file.appended.length }

end LogFile

namespace Logger

abbrev Buffer := LogBuffer kLargeBuffer

-- Where `ThreadMain` is
inductive Writer where
  | notStarted
  | starting
  | testing
  | locking
  | waiting
  | taken
  | writing (i : Nat)
  | recycling
  | flushing
  | finishing
  | finished
  | aborted
  deriving DecidableEq, Repr

inductive Start where
  | idle
  | waiting
  | returned
  deriving DecidableEq, Repr

inductive Stop where
  | idle
  | called
  | notifying
  | joining
  | returned
  deriving DecidableEq, Repr

end Logger

structure Logger where
  running : Bool
  latch : Nat
  currentBuffer : Option Logger.Buffer
  nextBuffer : Option Logger.Buffer
  buffers : List Logger.Buffer
  -- The variables of `ThreadMain`
  output : LogFile
  buffer1 : Option Logger.Buffer
  buffer2 : Option Logger.Buffer
  buffersToWrite : List Logger.Buffer
  writer : Logger.Writer
  start : Logger.Start
  stop : Logger.Stop

namespace Logger

def create : Logger where
  running := false
  latch := 1
  currentBuffer := some .create
  nextBuffer := some .create
  buffers := []
  output := .create
  buffer1 := none
  buffer2 := none
  buffersToWrite := []
  writer := .notStarted
  start := .idle
  stop := .idle

def append (s : Logger) (data : List UInt8) : Option Logger :=
  match s.currentBuffer with
  | none => none
  | some current =>
    if current.avail > data.length then
      some { s with currentBuffer := some (current.append data) }
    else
      let s := { s with buffers := s.buffers ++ [current] }
      match s.nextBuffer with
      | some next => some { s with currentBuffer := some (next.append data), nextBuffer := none }
      | none => some { s with currentBuffer := some (LogBuffer.create.append data) }

def begin (s : Logger) : Logger :=
  { s with
    running := true, latch := s.latch - 1, output := .create, buffer1 := some .create,
    buffer2 := some .create, buffersToWrite := [], writer := .testing }

def isSpare : Option Buffer → Bool
  | some buffer => buffer.length = 0
  | none => false

-- `while (running_)` with the assertions behind it
def test (s : Logger) : Logger :=
  if s.running then
    if isSpare s.buffer1 ∧ isSpare s.buffer2 ∧ s.buffersToWrite.isEmpty then
      { s with writer := .locking }
    else
      { s with writer := .aborted }
  else
    { s with writer := .finishing }

def refillNext (s : Logger) : Logger :=
  match s.nextBuffer with
  | some _ => s
  | none => { s with nextBuffer := s.buffer2, buffer2 := none }

def take (s : Logger) : Option Logger :=
  match s.currentBuffer with
  | none => none
  | some current =>
    some { s with
      buffersToWrite := s.buffers ++ [current], buffers := s.buffersToWrite
      currentBuffer := s.buffer1, buffer1 := none, writer := .taken }.refillNext

def lock (s : Logger) : Option Logger :=
  if s.buffers.isEmpty then some { s with writer := .waiting } else s.take

def droppedText (time : List UInt8) (dropped : Nat) : List UInt8 :=
  ("Dropped log messages at ".toUTF8.toList ++ time ++ ", ".toUTF8.toList
    ++ (toString dropped).toUTF8.toList ++ " larger buffers\n".toUTF8.toList).take 255

def check (s : Logger) (time : List UInt8) : Logger :=
  if s.buffersToWrite.isEmpty then
    { s with writer := .aborted }
  else if s.buffersToWrite.length > 25 then
    { s with
      output := s.output.append (droppedText time (s.buffersToWrite.length - 2))
      buffersToWrite := s.buffersToWrite.take 2, writer := .writing 0 }
  else
    { s with writer := .writing 0 }

def write (s : Logger) (i : Nat) : Logger :=
  match s.buffersToWrite[i]? with
  | some buffer => { s with output := s.output.append buffer.data, writer := .writing (i + 1) }
  | none => { s with writer := .recycling }

-- `none` if `pop_back` finds no buffer
def recycleInto (buffer : Option Buffer) (buffersToWrite : List Buffer)
    : Option (Option Buffer × List Buffer) :=
  match buffer with
  | some buffer => some (some buffer, buffersToWrite)
  | none =>
    match buffersToWrite.getLast? with
    | some last => some (some last.reset, buffersToWrite.dropLast)
    | none => none

def recycle (s : Logger) : Logger :=
  match recycleInto s.buffer1 (s.buffersToWrite.take 2) with
  | none => { s with writer := .aborted }
  | some (buffer1, buffersToWrite) =>
    match recycleInto s.buffer2 buffersToWrite with
    | none => { s with writer := .aborted }
    | some (buffer2, _) =>
      { s with buffer1 := buffer1, buffer2 := buffer2, buffersToWrite := [], writer := .flushing }

inductive Label where
  | append (data : List UInt8)
  | start
  | startReturns
  | stop
  | clearRunning
  | notify
  | join
  | begin
  | test
  | lock
  | wake
  | check (time : List UInt8)
  | write
  | recycle
  | flush
  | finish
  deriving DecidableEq, Repr

def step (s : Logger) : Label → Option Logger
  | .append data => s.append data
  | .start =>
    if s.start = .idle then
      if s.running then
        some { s with start := .returned }
      else
        some { s with running := true, start := .waiting, writer := .starting }
    else
      none
  | .startReturns =>
    if s.start = .waiting ∧ s.latch = 0 then some { s with start := .returned } else none
  | .stop => if s.start = .returned ∧ s.stop = .idle then some { s with stop := .called } else none
  | .clearRunning =>
    if s.stop = .called then
      if s.running then
        some { s with running := false, stop := .notifying }
      else
        some { s with stop := .returned }
    else
      none
  | .notify => if s.stop = .notifying then some { s with stop := .joining } else none
  | .join =>
    if s.stop = .joining ∧ s.writer = .finished then some { s with stop := .returned } else none
  | .begin => if s.writer = .starting then some s.begin else none
  | .test => if s.writer = .testing then some s.test else none
  | .lock => if s.writer = .locking then s.lock else none
  | .wake => if s.writer = .waiting then s.take else none
  | .check time => if s.writer = .taken then some (s.check time) else none
  | .write =>
    match s.writer with
    | .writing i => some (s.write i)
    | _ => none
  | .recycle => if s.writer = .recycling then some s.recycle else none
  | .flush =>
    if s.writer = .flushing then some { s with output := s.output.flush, writer := .testing } else none
  | .finish =>
    if s.writer = .finishing then some { s with output := s.output.flush, writer := .finished } else none

abbrev run (labels : List Label) : Option Logger := Machine.run step create labels

end Logger
end Claire
