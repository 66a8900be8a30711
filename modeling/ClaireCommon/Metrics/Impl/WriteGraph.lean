import Mathlib.Data.List.Lex
import Mathlib.Data.List.Infix
import Mathlib.Data.List.Sort
import ClaireCommon.Metrics.Impl.HistogramRecorder
import ClaireCommon.Metrics.Impl.WriteJSON

/-!
This module contains `WriteGraph`, which threads call while others get histograms from `FactoryGet`. A
character of a name is one byte. What a histogram writes of itself is in the label, since other threads may
add samples to it meanwhile.
-/

namespace Claire
namespace HistogramRecorder

variable {π : Type}

def nameBytes (name : String) : List Nat := name.toList.map Char.toNat

def InOrder (a b : String × π) : Prop := nameBytes a.1 ≤ nameBytes b.1

instance : DecidableRel (InOrder (π := π)) := fun a b =>
  inferInstanceAs (Decidable (nameBytes a.1 ≤ nameBytes b.1))

def Asked (query name : String) : Prop := query.toList <:+: name.toList

instance (query name : String) : Decidable (Asked query name) :=
  inferInstanceAs (Decidable (query.toList <:+: name.toList))

-- The map enumerates its entries in the order of the names.
def getSnapshot (r : HistogramRecorder π) (query : String) : List π :=
  ((r.histograms.entries.insertionSort InOrder).filter fun entry => Asked query entry.1).map Prod.snd

end HistogramRecorder

inductive WriteGraph (π : Type) where
  | header (query : String) (output : List UInt8)
  -- The histograms that are still to be written
  | histograms (snapshot : List π) (output : List UInt8)
  deriving DecidableEq

structure Graphing (π τ : Type) where
  factory : Factory π τ
  writers : τ → Option (WriteGraph π)

namespace Graphing

variable {π τ : Type}

def create : Graphing π τ where
  factory := .create
  writers _ := none

inductive Label (π τ : Type) where
  | factory (label : Factory.Label π τ)
  | writeGraph (thread : τ) (query : String) (output : List UInt8)
  | getSnapshot (thread : τ)
  | writeAscii (thread : τ) (histogram : π) (text : List UInt8)
  | ret (thread : τ) (output : List UInt8)

open DeclaredHistogram in
def header (query : String) : List UInt8 :=
  if query.length ≠ 0 then key "Collections of histograms for " ++ cString (key query) ++ key "\n"
  else key "Collections of all histograms\n"

variable [DecidableEq π] [DecidableEq τ]

def goOn (s : Graphing π τ) (thread : τ) (writer : Option (WriteGraph π)) : Graphing π τ :=
  { s with writers := Function.update s.writers thread writer }

-- A thread is in one call at a time.
def admits (s : Graphing π τ) : Factory.Label π τ → Bool
  | .call thread _ => (s.writers thread).isNone
  | _ => true

-- A histogram that was deleted has nothing to write.
def writeAscii (s : Graphing π τ) (thread : τ) (histogram : π) (text : List UInt8)
    : Option (Graphing π τ) :=
  match s.writers thread with
  | some (.histograms (next :: snapshot) output) =>
    if next = histogram ∧ (s.factory.heap next).isSome then
      some (s.goOn thread (some (.histograms snapshot (output ++ text ++ DeclaredHistogram.key "\n"))))
    else
      none
  | _ => none

def step (s : Graphing π τ) : Label π τ → Option (Graphing π τ)
  | .factory label =>
    if s.admits label then (s.factory.step label).map fun factory => { s with factory := factory }
    else none
  | .writeGraph thread query output =>
    match s.factory.calls thread, s.writers thread with
    | none, none => some (s.goOn thread (some (.header query (output ++ header query))))
    | _, _ => none
  | .getSnapshot thread =>
    match s.writers thread with
    | some (.header query output) =>
      some (s.goOn thread (some (.histograms (s.factory.recorder.getSnapshot query) output)))
    | _ => none
  | .writeAscii thread histogram text => s.writeAscii thread histogram text
  | .ret thread result =>
    match s.writers thread with
    | some (.histograms [] output) => if output = result then some (s.goOn thread none) else none
    | _ => none

abbrev run (s : Graphing π τ) (labels : List (Label π τ)) : Option (Graphing π τ) :=
  Machine.run step s labels

end Graphing
end Claire
