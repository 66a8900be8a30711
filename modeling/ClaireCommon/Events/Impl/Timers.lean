import ClaireCommon.Events.Impl.TimeoutQueue

/-!
This module contains the functions of the event loop that hand a timer to its queue. `now` is what
`Timestamp::Now()` returns to the call. The arguments in milliseconds are of the type `int`, and so is
what they are multiplied to.
-/

namespace Claire

universe u

def addTime (timestamp microseconds : Int) : Int := int64 (timestamp + microseconds)

namespace EventLoop

variable {κ : Type u} (timeouts : TimeoutQueue κ)

def runAt (time : Int) (callback : κ) : Int × TimeoutQueue κ :=
  timeouts.add time callback

def runAfter (now delayInMilliseconds : Int) (callback : κ) : Int × TimeoutQueue κ :=
  runAt timeouts (addTime now (int32 (delayInMilliseconds * 1000))) callback

def runEvery (now intervalInMilliseconds : Int) (callback : κ) : Int × TimeoutQueue κ :=
  timeouts.addRepeating now (int32 (intervalInMilliseconds * 1000)) callback

end EventLoop
end Claire
