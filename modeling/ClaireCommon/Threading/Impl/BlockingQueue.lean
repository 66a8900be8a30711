import ClaireCommon.Lib.Guarded

/-!
This module contains the blocking queue: the critical sections of its functions, on the queue as a list.
`τ` is the type of its elements and `ω` the one of the threads.
-/

namespace Claire

universe u v

namespace BlockingQueue

open Guarded

variable {τ : Type u} {ω : Type v}

inductive Operation (τ : Type u) where
  | put (x : τ)
  | take
  | size
  deriving DecidableEq

inductive Result (τ : Type u) where
  | put
  | take (front : τ)
  | size (size : Nat)
  deriving DecidableEq

def put (x : τ) (queue : List τ) : Section (List τ) (Result τ) :=
  .finish (queue ++ [x]) .put .one

def take : List τ → Section (List τ) (Result τ)
  | [] => .wait
  | front :: queue => .finish queue (.take front) .nobody

def size (queue : List τ) : Section (List τ) (Result τ) :=
  .finish queue (.size queue.length) .nobody

def body : Operation τ → List τ → Section (List τ) (Result τ)
  | .put x => put x
  | .take => take
  | .size => size

end BlockingQueue

abbrev BlockingQueue (ω : Type v) (τ : Type u) : Type (max u v) :=
  Guarded ω (BlockingQueue.Operation τ) (BlockingQueue.Result τ) (List τ)

namespace BlockingQueue

variable {τ : Type u} {ω : Type v}

abbrev Label (ω : Type v) (τ : Type u) : Type (max u v) := Guarded.Label ω (Operation τ) (Result τ)

def create : BlockingQueue ω τ := .init []

abbrev run [DecidableEq ω] [DecidableEq τ] (s : BlockingQueue ω τ) (labels : List (Label ω τ))
    : Option (BlockingQueue ω τ) :=
  Guarded.run body s labels

end BlockingQueue
end Claire
