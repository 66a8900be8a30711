import Mathlib.Algebra.Group.Int.Defs
import Mathlib.Algebra.Group.Nat.Defs
import ClaireCommon.Strings.Impl.CString

/-!
This module contains the values of rapidjson.
-/

namespace Claire
namespace Protobuf

-- The integers that rapidjson does not turn into floating point numbers
structure JsonInteger where
  value : Int
  lower : -2 ^ 63 ≤ value
  upper : value < 2 ^ 64

namespace JsonInteger

def ofInt64 (n : Int64) : JsonInteger where
  value := n.toInt
  lower := n.le_toInt
  upper := by
    have := n.toInt_lt
    omega

def ofInt32 (n : Int32) : JsonInteger where
  value := n.toInt
  lower := by
    have := n.le_toInt
    omega
  upper := by
    have := n.toInt_lt
    omega

def ofUInt64 (n : UInt64) : JsonInteger where
  value := n.toNat
  lower := by omega
  upper := by
    have := n.toNat_lt
    omega

def ofUInt32 (n : UInt32) : JsonInteger where
  value := n.toNat
  lower := by omega
  upper := by
    have := n.toNat_lt
    omega

end JsonInteger

inductive Json where
  | null
  | bool (b : Bool)
  | number (n : JsonInteger)
  | double (x : Float)
  | string (s : List UInt8)
  | dangling
  | array (items : List Json)
  | object (members : List (List UInt8 × Json))

namespace Json

-- `IsInt` with `GetInt`, and so on
def getInt : Json → Option Int32
  | .number n => if -2 ^ 31 ≤ n.value ∧ n.value < 2 ^ 31 then some (.ofInt n.value) else none
  | _ => none

def getUint : Json → Option UInt32
  | .number n => if 0 ≤ n.value ∧ n.value < 2 ^ 32 then some (.ofNat n.value.toNat) else none
  | _ => none

def getInt64 : Json → Option Int64
  | .number n => if n.value < 2 ^ 63 then some (.ofInt n.value) else none
  | _ => none

def getUint64 : Json → Option UInt64
  | .number n => if 0 ≤ n.value then some (.ofNat n.value.toNat) else none
  | _ => none

def isDouble : Json → Bool
  | .double _ => true
  | _ => false

def getDouble : Json → Option Float
  | .double x => some x
  | .number n => some (.ofInt n.value)
  | _ => none

def getBool : Json → Option Bool
  | .bool b => some b
  | _ => none

-- `GetString` gives a `const char*`.
def getString : Json → Option (List UInt8)
  | .string s => some (cString s)
  | _ => none

mutual

def depth : Json → Nat
  | .array items => depthOfItems items
  | .object members => depthOfMembers members + 1
  | _ => 0

def depthOfItems : List Json → Nat
  | [] => 0
  | item :: items => max item.depth (depthOfItems items)

def depthOfMembers : List (List UInt8 × Json) → Nat
  | [] => 0
  | (_, value) :: members => max value.depth (depthOfMembers members)

end

mutual

def intact : Json → Bool
  | .dangling => false
  | .array items => intactItems items
  | .object members => intactMembers members
  | _ => true

def intactItems : List Json → Bool
  | [] => true
  | item :: items => item.intact && intactItems items

def intactMembers : List (List UInt8 × Json) → Bool
  | [] => true
  | (_, value) :: members => value.intact && intactMembers members

end

end Json

end Protobuf
end Claire
