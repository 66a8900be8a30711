import ClaireCommon.Base.Types
import ClaireCommon.Lib.Traced

/-!
This module contains string pieces that point into the sections of a file, and the memory they are
read from.

A pointer is a block and the distance from its start. Behind the content of a section there may be
further mapped bytes, an access behind these faults. In a build with `ndebug` the asserts and DCHECKs
are not executed. A variable that the source leaves uninitialized has the value `uninitialized`.
-/

namespace Claire

inductive Block where
  | null
  | literal
  | debugInfo
  | debugAbbrev
  | debugAranges
  | debugLine
  | debugStr
  deriving DecidableEq, Repr

structure Ptr where
  block : Block
  offset : Nat
  deriving DecidableEq, Repr

def Ptr.add (p : Ptr) (n : Nat) : Ptr := { p with offset := p.offset + n }

structure StringPiece where
  data : Ptr
  size : Nat
  deriving DecidableEq, Repr

inductive Stop where
  | check
  | assertion
  | fault
  | abort
  | badGet
  | divisionByZero
  | shiftTooWide
  | stuck
  deriving DecidableEq, Repr

inductive Observation where
  | access (p : Ptr)
  -- A `Read<T>` that was completed, `n` is `sizeof(T)`
  | read (before after : StringPiece) (n : Nat)
  deriving DecidableEq, Repr

abbrev Reader := Traced Stop Observation

structure Mapping where
  content : List UInt8
  behind : List UInt8
  length_lt : (content ++ behind).length < 2 ^ 64

structure Env where
  ndebug : Bool
  uninitialized : Nat
  mapping : Block → Mapping

def Reader.check (condition : Bool) : Reader PUnit :=
  if condition then pure ⟨⟩ else Traced.stop .check

namespace Env

variable (env : Env)

def dassert (condition : Bool) : Reader PUnit :=
  if env.ndebug || condition then pure ⟨⟩ else Traced.stop .assertion

def dcheck (condition : Bool) : Reader PUnit :=
  if env.ndebug || condition then pure ⟨⟩ else Traced.stop .check

def mapped (block : Block) : List UInt8 := (env.mapping block).content ++ (env.mapping block).behind

def peek (p : Ptr) : Reader UInt8 := do
  Traced.emit (.access p)
  match (env.mapped p.block)[p.offset]? with
  | some byte => return byte
  | none => Traced.stop .fault

def peekMany (p : Ptr) : Nat → Reader (List UInt8)
  | 0 => return []
  | n + 1 => do
    let byte ← env.peek p
    let bytes ← peekMany (p.add 1) n
    return byte :: bytes

def memchr (p : Ptr) (c : UInt8) : Nat → Reader (Option Ptr)
  | 0 => return none
  | n + 1 => do
    let byte ← env.peek p
    if byte = c then return some p else memchr (p.add 1) c n

end Env

namespace StringPiece

def null : StringPiece := ⟨⟨.null, 0⟩, 0⟩

def literal : StringPiece := ⟨⟨.literal, 0⟩, 0⟩

def isEmpty (s : StringPiece) : Bool := s.size = 0

def stop (s : StringPiece) : Ptr := s.data.add s.size

def distance (left right : Ptr) : Nat := (sizeT ((right.offset : Int) - left.offset)).toNat

def assign (left right : Ptr) : StringPiece := ⟨left, distance left right⟩

def ofRange (env : Env) (left right : Ptr) : Reader StringPiece := do
  env.dassert (left.offset ≤ right.offset)
  return assign left right

def advance (env : Env) (s : StringPiece) (offset : Nat) : Reader StringPiece := do
  env.dassert (offset < s.size)
  return { s with data := s.data.add offset }

end StringPiece
end Claire
