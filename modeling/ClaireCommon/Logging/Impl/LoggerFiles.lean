import ClaireCommon.Logging.Impl.LogFile

/-!
This module contains the logger together with the series of files that its thread writes to. There are no
files before `ThreadMain` has made its `LogFile`.
-/

namespace Claire
namespace Logger

-- What a step of `ThreadMain` calls `output` with
def call? (s : Logger) : Label → Option LogFile.Call
  | .check time =>
    if s.buffersToWrite.length > 25 then
      some (.append (droppedText time (s.buffersToWrite.length - 2)))
    else
      none
  | .write =>
    match s.writer with
    | .writing i => s.buffersToWrite[i]?.map fun buffer => .append buffer.data
    | _ => none
  | .flush | .finish => some .flush
  | _ => none

structure OnFiles where
  logger : Logger
  files : Option LogFile.Rolling

namespace OnFiles

variable (system : LogFile.System) (settings : LogFile.Settings) (link : Option LogFile.Entry)
  (others : List (List UInt8 × Nat))

def create : OnFiles where
  logger := .create
  files := none

def stepFiles (s : OnFiles) (label : Label) : Option (Option LogFile.Rolling) :=
  if label = .begin then
    (LogFile.Rolling.create system settings link others).map some
  else
    match s.logger.call? label with
    | some call => (s.files.bind fun files => files.step system settings call).map some
    | none => some s.files

def step (s : OnFiles) (label : Label) : Option OnFiles := do
  let logger ← s.logger.step label
  let files ← s.stepFiles system settings link others label
  return ⟨logger, files⟩

abbrev run (labels : List Label) : Option OnFiles :=
  Machine.run (step system settings link others) create labels

end OnFiles
end Logger
end Claire
