import ClaireCommon.Lib.Guarded
import ClaireCommon.Logging.Impl.LogFile

/-!
This module contains the log file that several threads share, which holds its mutex while it appends or
flushes. Its object is none when the process has ended because no file could be opened.
-/

namespace Claire

namespace LogFile.Shared

def body (system : System) (settings : Settings) (call : Call) (file : Option Rolling)
    : Guarded.Section (Option Rolling) Unit :=
  .finish (file.bind (Rolling.step system settings · call)) () .nobody

end LogFile.Shared

abbrev SharedLogFile (ω : Type) : Type := Guarded ω LogFile.Call Unit (Option LogFile.Rolling)

namespace LogFile.Shared

abbrev Label (ω : Type) : Type := Guarded.Label ω Call Unit

variable {ω : Type} (system : System) (settings : Settings)

def create (link : Option Entry) (others : List (List UInt8 × Nat)) : SharedLogFile ω :=
  .init (Rolling.create system settings link others)

abbrev run [DecidableEq ω] (s : SharedLogFile ω) (labels : List (Label ω)) : Option (SharedLogFile ω) :=
  Guarded.run (body system settings) s labels

end LogFile.Shared
end Claire
