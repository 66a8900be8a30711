import Mathlib.Algebra.Group.Int.Defs
import Mathlib.Logic.Function.Basic
import ClaireCommon.Lib.Machine

/-!
This module contains the traces and their recorder. The traces are numbered in the order in which they
are constructed, a pointer to a trace is its number. A call that uses a trace that was deleted has no
meaning, nor has an overflow of a signed number, the model stops there.
-/

namespace Claire

structure Trace where
  name : String
  traceId : Int
  spanId : Int
  parentSpanId : Int
  deriving DecidableEq, Repr

def Trace.ids (trace : Trace) : Int × Int := (trace.traceId, trace.spanId)

structure TraceRecorder where
  traces : Int × Int → Option Nat

namespace TraceRecorder

def create : TraceRecorder where
  traces _ := none

def find (r : TraceRecorder) (ids : Int × Int) : Option Nat := r.traces ids

-- The trace to return and the one to delete, `ids` are the ones of `trace`.
def registerOrDeleteDuplicate (r : TraceRecorder) (ids : Int × Int) (trace : Nat)
    : Nat × Option Nat × TraceRecorder :=
  match r.traces ids with
  | none => (trace, none, { r with traces := Function.update r.traces ids (some trace) })
  | some registered =>
    if trace = registered then (trace, none, r) else (registered, some trace, r)

def erase (r : TraceRecorder) (ids : Int × Int) : Option Nat × TraceRecorder :=
  match r.traces ids with
  | none => (none, r)
  | some registered => (some registered, { r with traces := Function.update r.traces ids none })

end TraceRecorder

structure Tracing where
  recorder : TraceRecorder
  heap : Nat → Option Trace
  constructed : Nat
  drawn : Nat

namespace Tracing

def create : Tracing where
  recorder := .create
  heap _ := none
  constructed := 0
  drawn := 0

def construct (s : Tracing) (trace : Trace) : Nat × Tracing :=
  (s.constructed, { s with
    heap := Function.update s.heap s.constructed (some trace), constructed := s.constructed + 1 })

def delete (s : Tracing) : Option Nat → Tracing
  | none => s
  | some trace => { s with heap := Function.update s.heap trace none }

def factoryGetParent (s : Tracing) (name : String) (traceId spanId parentSpanId : Int)
    : Nat × Tracing :=
  let (trace, s) := s.construct ⟨name, traceId, spanId, parentSpanId⟩
  let (toReturn, toDelete, recorder) := s.recorder.registerOrDeleteDuplicate (traceId, spanId) trace
  (toReturn, { s with recorder := recorder }.delete toDelete)

def factoryGetSpan (s : Tracing) (name : String) (traceId spanId : Int) : Nat × Tracing :=
  s.factoryGetParent name traceId spanId 0

-- `generator` gives the numbers that `UniqueId` draws.
def uniqueId (generator : Nat → Int) (s : Tracing) : Int × Tracing :=
  (generator s.drawn, { s with drawn := s.drawn + 1 })

-- The source leaves open which of the two is drawn first.
def factoryGet (generator : Nat → Int) (s : Tracing) (name : String) : Nat × Tracing :=
  let (traceId, s) := uniqueId generator s
  let (spanId, s) := uniqueId generator s
  s.factoryGetParent name traceId spanId 0

def makeChild (s : Tracing) (trace : Nat) (name : String) : Option (Nat × Tracing) := do
  let parent ← s.heap trace
  if parent.spanId + 1 < 2 ^ 63 then
    some (s.factoryGetParent name parent.traceId (parent.spanId + 1) parent.spanId)
  else
    none

def erase (s : Tracing) (traceId spanId : Int) : Tracing :=
  let (toDelete, recorder) := s.recorder.erase (traceId, spanId)
  { s.delete toDelete with recorder := recorder }

inductive Operation where
  | factoryGet (name : String)
  | factoryGetSpan (name : String) (traceId spanId : Int)
  | factoryGetParent (name : String) (traceId spanId parentSpanId : Int)
  | makeChild (trace : Nat) (name : String)
  | erase (traceId spanId : Int)
  deriving DecidableEq, Repr

def step (generator : Nat → Int) (s : Tracing) : Operation → Option Tracing
  | .factoryGet name => some (factoryGet generator s name).2
  | .factoryGetSpan name traceId spanId => some (s.factoryGetSpan name traceId spanId).2
  | .factoryGetParent name traceId spanId parentSpanId =>
    some (s.factoryGetParent name traceId spanId parentSpanId).2
  | .makeChild trace name => (s.makeChild trace name).map Prod.snd
  | .erase traceId spanId => some (s.erase traceId spanId)

abbrev run (generator : Nat → Int) (operations : List Operation) : Option Tracing :=
  Machine.run (step generator) create operations

end Tracing
end Claire
