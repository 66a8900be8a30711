import Mathlib.Logic.Function.Basic
import ClaireCommon.Lib.Machine
import ClaireCommon.Lib.UnorderedMap

/-!
This module contains the recorder of the histograms, and the threads that get histograms from
`FactoryGet`. `π` is the type of the pointers to histograms and `τ` the type of the threads.
-/

namespace Claire

structure HistogramRecorder (π : Type) where
  histograms : UnorderedMap String π

namespace HistogramRecorder

variable {π : Type} [DecidableEq π]

def create : HistogramRecorder π where
  histograms := .empty

def findHistogram (r : HistogramRecorder π) (name : String) : Option π := r.histograms.find name

-- The histogram to return and the one to delete, `name` is the one of `histogram`.
def registerOrDeleteDuplicate (r : HistogramRecorder π) (name : String) (histogram : π)
    : π × Option π × HistogramRecorder π :=
  match r.histograms.find name with
  | none => (histogram, none, { r with histograms := r.histograms.insert name histogram })
  | some registered =>
    if histogram = registered then (histogram, none, r) else (registered, some histogram, r)

end HistogramRecorder

inductive FactoryGet (π : Type) where
  | find (name : String)
  | construct (name : String)
  | register (name : String) (tentativeHistogram : π)
  | delete (name : String) (histogram histogramToDelete : π)
  | ret (name : String) (histogram : π)
  deriving DecidableEq

structure Factory (π τ : Type) where
  recorder : HistogramRecorder π
  -- The names of the histograms that live
  heap : π → Option String
  calls : τ → Option (FactoryGet π)

namespace Factory

variable {π τ : Type} [DecidableEq π] [DecidableEq τ]

def create : Factory π τ where
  recorder := .create
  heap _ := none
  calls _ := none

inductive Label (π τ : Type) where
  | call (thread : τ) (name : String)
  | find (thread : τ)
  | construct (thread : τ) (histogram : π)
  | register (thread : τ)
  | delete (thread : τ) (histogram : π)
  | ret (thread : τ) (name : String) (histogram : π)
  deriving DecidableEq

def goOn (s : Factory π τ) (thread : τ) (call : Option (FactoryGet π)) : Factory π τ :=
  { s with calls := Function.update s.calls thread call }

def find (s : Factory π τ) (thread : τ) (name : String) : Factory π τ :=
  match s.recorder.findHistogram name with
  | some histogram => s.goOn thread (some (.ret name histogram))
  | none => s.goOn thread (some (.construct name))

-- `new` gives an address where no histogram lives.
def construct (s : Factory π τ) (thread : τ) (name : String) (histogram : π)
    : Option (Factory π τ) :=
  match s.heap histogram with
  | some _ => none
  | none => some { s.goOn thread (some (.register name histogram)) with
      heap := Function.update s.heap histogram (some name) }

def register (s : Factory π τ) (thread : τ) (name : String) (histogram : π)
    : Option (Factory π τ) :=
  match s.heap histogram with
  | none => none
  | some histogramName =>
    let (toReturn, toDelete, recorder) :=
      s.recorder.registerOrDeleteDuplicate histogramName histogram
    let call :=
      match toDelete with
      | some toDelete => .delete name toReturn toDelete
      | none => .ret name toReturn
    some { s.goOn thread (some call) with recorder := recorder }

def step (s : Factory π τ) : Label π τ → Option (Factory π τ)
  | .call thread name =>
    match s.calls thread with
    | none => some (s.goOn thread (some (.find name)))
    | some _ => none
  | .find thread =>
    match s.calls thread with
    | some (.find name) => some (s.find thread name)
    | _ => none
  | .construct thread histogram =>
    match s.calls thread with
    | some (.construct name) => s.construct thread name histogram
    | _ => none
  | .register thread =>
    match s.calls thread with
    | some (.register name histogram) => s.register thread name histogram
    | _ => none
  | .delete thread histogram =>
    match s.calls thread with
    | some (.delete name toReturn toDelete) =>
      if toDelete = histogram then
        some { s.goOn thread (some (.ret name toReturn)) with
          heap := Function.update s.heap histogram none }
      else
        none
    | _ => none
  | .ret thread name histogram =>
    if s.calls thread = some (.ret name histogram) then some (s.goOn thread none) else none

abbrev run (s : Factory π τ) (labels : List (Label π τ)) : Option (Factory π τ) :=
  Machine.run step s labels

end Factory
end Claire
