import ClaireCommon.Lib.Calendar
import ClaireCommon.Lib.FixedWidth

/-!
This module contains how points in time are written. A timestamp is its number of microseconds since the
epoch.
-/

namespace Claire
namespace Timestamp

open FixedWidth

def kMicroSecondsPerSecond : Int := 1000 * 1000

def secondsSinceEpoch (t : Int) : Int := t.tdiv kMicroSecondsPerSecond

-- `"%4d%02d%02d %02d:%02d:%02d"`
def dateText (tm : Calendar.Tm) : List UInt8 :=
  padded 0x20 4 tm.year ++ padded 0x30 2 (tm.mon + 1) ++ padded 0x30 2 tm.mday ++ [0x20]
    ++ padded 0x30 2 tm.hour ++ [0x3a] ++ padded 0x30 2 tm.min ++ [0x3a] ++ padded 0x30 2 tm.sec

-- `snprintf` leaves the last one of the 32 characters to the zero.
def toFormattedString (t : Int) : List UInt8 :=
  let seconds := t.tdiv kMicroSecondsPerSecond
  let microseconds := t.tmod kMicroSecondsPerSecond
  (dateText (Calendar.gmtime seconds) ++ [0x2e] ++ padded 0x30 6 microseconds).take 31

end Timestamp
end Claire
