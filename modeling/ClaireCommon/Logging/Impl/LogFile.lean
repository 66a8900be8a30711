import ClaireCommon.Files.Impl.FileUtil
import ClaireCommon.Logging.Impl.Logger
import ClaireCommon.Time.Impl.Timestamp

/-!
This module contains the log file as a series of files: each has the time at which it is opened in its
name, and a symbolic link leads to the last one. It is rolled when it has grown over a size, or when a
day has passed.

What the system does is an argument: what the clock shows at its n-th reading, what the calls on the
n-th file do, and what the calls on names do when the n-th file is opened. Where no file can be opened
the process ends. `DropFileMemory` is left out, it only gives the kernel advice.
-/

namespace Claire
namespace LogFile

structure Settings where
  maxLogSize : Int
  logbufsecs : Int
  logDir : List UInt8
  baseName : List UInt8
  host : List UInt8
  pid : List UInt8
  user : List UInt8

def kCheckTimeRoll : Nat := 1024

def kSecondsPerDay : Int := 60 * 60 * 24

namespace Settings

variable (settings : Settings)

-- `static_cast<uint32_t>(FLAGS_max_log_size)*1024*1024`
def sizeLimit : Nat := (settings.maxLogSize % 2 ^ 32 * 1024 * 1024 % 2 ^ 32).toNat

def directory : List UInt8 :=
  if settings.logDir ≠ [] ∧ settings.logDir.getLast? ≠ some 0x2f then settings.logDir ++ [0x2f]
  else settings.logDir

def dotLog : List UInt8 := [0x2e, 0x6c, 0x6f, 0x67]

def getLogFileName (now : Int) : List UInt8 :=
  settings.directory ++ settings.baseName ++ [0x2e] ++ Timestamp.toFormattedString now ++ [0x2e]
    ++ settings.host ++ [0x2e] ++ settings.pid ++ [0x2e] ++ settings.user ++ dotLog

def resolve (name : List UInt8) : List UInt8 :=
  if name.head? = some 0x2f then name else settings.directory ++ name

end Settings

-- What succeeds of the calls on names in `RollFile`
structure NameCalls where
  access : Bool
  readlink : Bool
  stat : Bool
  unlinkTarget : Bool
  unlinkLink : Bool
  symlink : Bool

structure System where
  clock : Nat → Int
  lib : Nat → FileUtil.CLibrary
  fflushSucceeds : Nat → Bool
  nameCalls : Nat → NameCalls

inductive Call where
  | append (data : List UInt8)
  | flush
  deriving DecidableEq

-- One of the files: at least `flushed` bytes of it are on the disk.
structure Part where
  name : List UInt8
  file : FileUtil.WritableFile
  flushed : Nat
  deleted : Bool

def Part.create (name : List UInt8) : Part where
  name := name
  file := .create
  flushed := 0
  deleted := false

def Part.flush (part : Part) (succeeds : Bool) : Part :=
  { part with flushed := if succeeds then part.file.accepted.length else part.flushed }

-- `delete` of the file
def Part.close (lib : FileUtil.CLibrary) (part : Part) : Part :=
  let (succeeds, file) := part.file.fclose lib
  { part with file := file }.flush succeeds

inductive Entry where
  | symlink (text : List UInt8)
  | file
  deriving DecidableEq

-- `parts` are the files before the one that is open, `link` is what `GetLinkLogFileName` names, `others`
-- are the sizes of the files that were there before, and `reads` and `fflushes` count calls.
structure Rolling where
  count : Nat
  lastPeriod : Int
  lastRoll : Int
  lastFlush : Int
  parts : List Part
  file : Option Part
  link : Option Entry
  others : List (List UInt8 × Nat)
  reads : Nat
  fflushes : Nat

namespace Rolling

variable (system : System) (settings : Settings)

def allParts (s : Rolling) : List Part := s.parts ++ s.file.toList

-- `stat`, it fails where there is no file. What is opened is appended to.
def sizeOf (s : Rolling) (name : List UInt8) : Option Nat :=
  let named := s.allParts.filter fun part => part.name = name ∧ !part.deleted
  let other := s.others.lookup name
  if named = [] then other else some ((named.map Part.flushed).sum + other.getD 0)

def delete (s : Rolling) (name : List UInt8) : Rolling :=
  let mark := fun part : Part => if part.name = name then { part with deleted := true } else part
  { s with
    parts := s.parts.map mark, file := s.file.map mark
    others := s.others.filter fun other => other.1 ≠ name }

def openFile (s : Rolling) (name : List UInt8) : Option Rolling :=
  if (system.lib s.allParts.length).fopenSucceeds then
    some { s with
      parts := s.parts ++ (s.file.map (Part.close (system.lib s.parts.length))).toList
      file := some (.create name) }
  else
    none

-- `FileExists` follows a link, the other calls do not. `ReadLink` fails for a file.
def unlink (calls : NameCalls) (s : Rolling) : Rolling :=
  match s.link with
  | some (.symlink fname) =>
    if calls.access ∧ (s.sizeOf (settings.resolve fname)).isSome then
      let s :=
        if calls.readlink ∧ calls.stat ∧ s.sizeOf fname = some 0 ∧ calls.unlinkTarget then s.delete fname
        else s
      if calls.unlinkLink then { s with link := none } else s
    else
      s
  | some .file => if calls.access ∧ calls.unlinkLink then { s with link := none } else s
  | none => s

def symlink (calls : NameCalls) (name : List UInt8) (s : Rolling) : Rolling :=
  if calls.symlink ∧ s.link = none then { s with link := some (.symlink name) } else s

def now (s : Rolling) : Int := Timestamp.secondsSinceEpoch (system.clock s.reads)

def period (now : Int) : Int := now.tdiv kSecondsPerDay * kSecondsPerDay

-- The name takes the time once more.
def rollFile (s : Rolling) : Option Rolling :=
  let now := s.now system
  let name := settings.getLogFileName (system.clock (s.reads + 1))
  let calls := system.nameCalls s.allParts.length
  let s := { s with reads := s.reads + 2 }
  if now > s.lastRoll then
    let s := { s with lastRoll := now, lastFlush := now, lastPeriod := period now }
    (s.openFile system name).map fun s => (s.unlink settings calls).symlink calls name
  else
    some s

def flushFile (s : Rolling) : Option Rolling :=
  match s.file with
  | some part =>
    some { s with
      file := some (part.flush (system.fflushSucceeds s.fflushes)), fflushes := s.fflushes + 1 }
  | none => none

def checkTime (s : Rolling) : Option Rolling :=
  let now := s.now system
  let s := { s with count := 0, reads := s.reads + 1 }
  if period now ≠ s.lastPeriod then
    s.rollFile system settings
  else if now - s.lastFlush > settings.logbufsecs then
    { s with lastFlush := now }.flushFile system
  else
    some s

def appendUnLocked (s : Rolling) (data : List UInt8) : Option Rolling :=
  match s.file with
  | some part =>
    let file := (part.file.append (system.lib s.parts.length) data).2
    let s := { s with file := some { part with file := file } }
    if file.writtenBytes > settings.sizeLimit then
      s.rollFile system settings
    else if s.count > kCheckTimeRoll then
      s.checkTime system settings
    else
      some { s with count := s.count + 1 }
  | none => none

def unopened (link : Option Entry) (others : List (List UInt8 × Nat)) : Rolling where
  count := 0
  lastPeriod := 0
  lastRoll := 0
  lastFlush := 0
  parts := []
  file := none
  link := link
  others := others
  reads := 0
  fflushes := 0

def create (link : Option Entry) (others : List (List UInt8 × Nat)) : Option Rolling :=
  (unopened link others).rollFile system settings

def step (s : Rolling) : Call → Option Rolling
  | .append data => s.appendUnLocked system settings data
  | .flush => s.flushFile system

def run (link : Option Entry) (others : List (List UInt8 × Nat)) (calls : List Call)
    : Option Rolling :=
  (create system settings link others).bind (Machine.run (step system settings) · calls)

end Rolling
end LogFile
end Claire
