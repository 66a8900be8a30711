import ClaireCommon.Strings.Impl.StringPiece

/-!
This module contains the comparisons of string pieces. The C standard only fixes the sign of what
`memcmp` returns, here it is the difference of the first bytes that differ.
-/

namespace Claire

def Env.memcmp (env : Env) (p q : Ptr) : Nat → Reader Int
  | 0 => return 0
  | n + 1 => do
    let x ← env.peek p
    let y ← env.peek q
    if x = y then env.memcmp (p.add 1) (q.add 1) n else return (x.toNat : Int) - y.toNat

namespace StringPiece

variable (env : Env)

def startsWith (s x : StringPiece) : Reader Bool := do
  if s.size ≥ x.size then
    let r ← env.memcmp s.data x.data x.size
    return r = 0
  else
    return false

def endWith (s x : StringPiece) : Reader Bool := do
  if s.size ≥ x.size then
    let r ← env.memcmp (s.data.add (s.size - x.size)) x.data x.size
    return r = 0
  else
    return false

def compare (s x : StringPiece) : Reader Int := do
  let r ← env.memcmp s.data x.data (min s.size x.size)
  if r = 0 then
    if s.size < x.size then
      return -1
    else if s.size > x.size then
      return r + 1
    else
      return r
  else
    return r

def equalFrom (p p2 : Ptr) : Nat → Reader Bool
  | 0 => return true
  | n + 1 => do
    let x ← env.peek p
    let y ← env.peek p2
    if x ≠ y then return false else equalFrom (p.add 1) (p2.add 1) n

def equal (x y : StringPiece) : Reader Bool := do
  let len := x.size
  if len ≠ y.size then
    return false
  else
    -- Test last byte in case strings share large common prefix
    let differs ← if len > 0 then do
        let last ← env.peek (x.data.add (len - 1))
        let last2 ← env.peek (y.data.add (len - 1))
        pure (decide (last ≠ last2))
      else
        pure false
    if differs then return false else equalFrom env x.data y.data len

def operatorEq (x y : StringPiece) : Reader Bool := equal env x y

def operatorNe (x y : StringPiece) : Reader Bool := do
  let equal ← operatorEq env x y
  return !equal

def operatorLt (x y : StringPiece) : Reader Bool := do
  let r ← env.memcmp x.data y.data (min x.size y.size)
  return r < 0 || r = 0 && x.size < y.size

def operatorGt (x y : StringPiece) : Reader Bool := operatorLt env y x

def operatorLe (x y : StringPiece) : Reader Bool := do
  let greater ← operatorGt env x y
  return !greater

def operatorGe (x y : StringPiece) : Reader Bool := do
  let less ← operatorLt env x y
  return !less

end StringPiece
end Claire
