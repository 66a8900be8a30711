import ClaireCommon.Events.Impl.TimeoutQueue

/-!
This module contains the sleep of `ThisThread.cc`: the `Timespec` it hands to `nanosleep`.
-/

namespace Claire

def sleepForMicroSeconds (microseconds : Int) : Timespec :=
  { sec := microseconds.tdiv 10000000, nsec := (microseconds.tmod 1000000) * 1000 }

end Claire
