import ClaireCommon.Protobuf.Impl.Json
import ClaireCommon.Protobuf.Message
import ClaireCommon.Strings.Impl.UriEscape

/-!
This module contains how messages are written as JSON and read back.

The text of a value is up to rapidjson, and the numbers that `boost::lexical_cast` reads are up to
boost. A JSON string that is made without an allocator refers to the bytes it is given, it is
`dangling` where these are gone when the value is written. The recursions over messages and values are
given their depth.
-/

namespace Claire
namespace Protobuf

inductive Failure where
  | assertion
  | badLexicalCast
  | invalidArgument (exception : InvalidArgument)
  -- The writer reads bytes that are gone.
  | dangling
  | stuck
  deriving DecidableEq, Repr

structure Library where
  -- The text of a value, which `buffer.GetString()` gives without its NUL
  print : Json → List UInt8
  -- `none` is a parse error.
  parse : List UInt8 → Option Json
  lexicalCastInt64 : List UInt8 → Option Int64
  lexicalCastUint64 : List UInt8 → Option UInt64
  -- A copy of a `std::string` shares the bytes of the original.
  sharesCopies : Bool

variable {μ : Type} (lib : Library) (schema : Schema μ)

-- `static_cast<unsigned int>` of the length
def withUnsignedLength (s : List UInt8) : List UInt8 := s.take (s.length % 2 ^ 32)

-- A value made from a local variable without an allocator, where there are no bytes none is read
def ofLocal (s : List UInt8) : Json :=
  if withUnsignedLength s = [] then .string [] else .dangling

def singularString (s : List UInt8) : Json :=
  if lib.sharesCopies then .string (withUnsignedLength s) else ofLocal s

abbrev Serialized := Except Failure (Option Json)

-- `none` where the source returns `false`
def serializeValue (serializeMessage : Message μ → Serialized) (isRepeated : Bool)
    : Value μ → Serialized
  | .int32 n => .ok (some (.number (.ofInt32 n)))
  | .uint32 n => .ok (some (.number (.ofUInt32 n)))
  | .int64 n => .ok (some (.number (.ofInt64 n)))
  | .uint64 n => .ok (some (.number (.ofUInt64 n)))
  | .float x => .ok (some (.double x.toFloat))
  | .double x => .ok (some (.double x))
  | .bool b => .ok (some (.bool b))
  | .enum number => .ok (some (.number (.ofInt32 number)))
  | .string s =>
    .ok (some (if isRepeated then .string (withUnsignedLength s) else singularString lib s))
  | .bytes s =>
    let escapedData := uriEscape s .all
    .ok (some (if isRepeated then .string (withUnsignedLength escapedData) else ofLocal escapedData))
  | .message type slots => serializeMessage ⟨type, slots⟩

def serializeItems (serializeMessage : Message μ → Serialized)
    : List (Value μ) → Except Failure (Option (List Json))
  | [] => .ok (some [])
  | value :: slot => do
    let some item ← serializeValue lib serializeMessage true value | return none
    let some items ← serializeItems serializeMessage slot | return none
    return some (item :: items)

def serializeField (serializeMessage : Message μ → Serialized) (field : FieldDescriptor μ)
    (slot : List (Value μ)) : Serialized :=
  if field.isRepeated then do
    let some items ← serializeItems lib serializeMessage slot | return none
    return some (.array items)
  else
    match slot with
    | value :: _ => serializeValue lib serializeMessage false value
    | [] => .ok none

abbrev Slot (μ : Type) := FieldDescriptor μ × List (Value μ)

-- `ListFields`: the fields that are set, by their number
def listFields (message : Message μ) : List (Slot μ) :=
  (((schema.fields message.type).zip message.slots).filter (!·.2.isEmpty)).mergeSort
    (·.1.number ≤ ·.1.number)

def serializeFields (serializeMessage : Message μ → Serialized)
    : List (Slot μ) → Except Failure (Option (List (List UInt8 × Json)))
  | [] => .ok (some [])
  | (field, slot) :: fields =>
    if !field.isRepeated ∧ slot.isEmpty then
      if field.isRequired then .ok none else serializeFields serializeMessage fields
    else do
      let some value ← serializeField lib serializeMessage field slot | return none
      let some members ← serializeFields serializeMessage fields | return none
      return some ((withUnsignedLength field.name.bytes, value) :: members)

def serializeToJsonValue : Nat → Message μ → Serialized
  | 0, _ => .error .stuck
  | depth + 1, message => do
    let fields := listFields schema message
    let some members ← serializeFields lib (serializeToJsonValue depth) fields | return none
    return some (.object members)

-- `*output`, or `none` where the source returns `false`
def serializeToJson (message : Message μ) : Except Failure (Option (List UInt8)) := do
  let some root ← serializeToJsonValue lib schema message.depth message | return none
  if root.intact then return some (cString (lib.print root)) else .error .dangling

-- What the source returns, with the value that it has added or set
abbrev Parsed (μ : Type) := Bool × Option (Value μ)

def accept (value : Value μ) : Except Failure (Parsed μ) := .ok (true, some value)

def refuse : Except Failure (Parsed μ) := .ok (false, none)

-- The type is only checked for the items of a repeated field.
def acceptInt (isRepeated : Bool) : Option (Value μ) → Except Failure (Parsed μ)
  | some value => accept value
  | none => if isRepeated then refuse else .error .assertion

def findDouble (isRepeated : Bool) (value : Json) : Option Float :=
  if isRepeated && !value.isDouble then none else value.getDouble

def acceptInt64 (lexicalCast : List UInt8 → Option (Value μ)) (value : Json)
    : Option (Value μ) → Except Failure (Parsed μ)
  | some value => accept value
  | none =>
    match value.getString with
    | some s =>
      match lexicalCast s with
      | some value => accept value
      | none => .error .badLexicalCast
    | none => refuse

def findEnumValue (type : EnumDescriptor) (isRepeated : Bool) (value : Json) : Option Int32 :=
  if isRepeated then
    value.getInt.bind type.findValueByNumber
  else
    value.getString.bind type.findValueByName

def acceptEnum (type : EnumDescriptor) (isRepeated : Bool) (value : Json) : Except Failure (Parsed μ) :=
  match findEnumValue type isRepeated value with
  | some number => accept (.enum number)
  | none => refuse

def acceptString (value : Json) : Except Failure (Parsed μ) :=
  match value.getString with
  | some s => accept (.string s)
  | none => refuse

def acceptBytes (value : Json) : Except Failure (Parsed μ) :=
  match value.getString with
  | some s =>
    match uriUnescape s .all with
    | .ok unescapedItem => accept (.bytes unescapedItem)
    | .error exception => .error (.invalidArgument exception)
  | none => refuse

abbrev ParseMessage (μ : Type) := Json → Message μ → Except Failure (Bool × Message μ)

-- `AddMessage`, or `MutableMessage` where `old` is the value that is set
def mutableMessage (type : μ) (old : Option (Value μ)) : Message μ :=
  match old with
  | some (.message type slots) => ⟨type, slots⟩
  | _ => .empty schema type

def acceptMessage (parseMessage : ParseMessage μ) (type : μ) (value : Json) (old : Option (Value μ))
    : Except Failure (Parsed μ) :=
  match value with
  | .object members => do
    let (ret, message) ← parseMessage (.object members) (mutableMessage schema type old)
    return (ret, some (.message message.type message.slots))
  | _ => refuse

def parseValue (parseMessage : ParseMessage μ) (isRepeated : Bool) (type : FieldType μ)
    (value : Json) (old : Option (Value μ)) : Except Failure (Parsed μ) :=
  match type with
  | .int32 => acceptInt isRepeated (value.getInt.map .int32)
  | .uint32 => acceptInt isRepeated (value.getUint.map .uint32)
  | .float => acceptInt isRepeated ((findDouble isRepeated value).map (.float ·.toFloat32))
  | .double => acceptInt isRepeated ((findDouble isRepeated value).map .double)
  | .bool => acceptInt isRepeated (value.getBool.map .bool)
  | .int64 => acceptInt64 (fun s => (lib.lexicalCastInt64 s).map .int64) value (value.getInt64.map .int64)
  | .uint64 =>
    acceptInt64 (fun s => (lib.lexicalCastUint64 s).map .uint64) value (value.getUint64.map .uint64)
  | .enum type => acceptEnum type isRepeated value
  | .string => acceptString value
  | .bytes => acceptBytes value
  | .message type => acceptMessage schema parseMessage type value old

def parseItems (parseMessage : ParseMessage μ) (type : FieldType μ)
    : List Json → List (Value μ) → Except Failure (Bool × List (Value μ))
  | [], slot => .ok (true, slot)
  | item :: items, slot => do
    let (ret, value) ← parseValue lib schema parseMessage true type item none
    let slot := slot ++ value.toList
    if ret then parseItems parseMessage type items slot else return (false, slot)

def parseField (parseMessage : ParseMessage μ) (field : FieldDescriptor μ) (value : Json)
    (slot : List (Value μ)) : Except Failure (Bool × List (Value μ)) :=
  if field.isRepeated then
    match value with
    | .array items => parseItems lib schema parseMessage field.type items slot
    | _ => .ok (false, slot)
  else do
    let (ret, value) ← parseValue lib schema parseMessage false field.type value slot.head?
    return (ret, if value.isSome then value.toList else slot)

def findMember (root : Json) (name : CString) : Except Failure (Option Json) :=
  match root with
  | .object members => .ok (members.lookup name.bytes)
  | _ => .error .assertion

def parseFields (parseMessage : ParseMessage μ) (root : Json)
    : List (FieldDescriptor μ) → List (List (Value μ)) → Except Failure (Bool × List (List (Value μ)))
  | field :: fields, slot :: slots => do
    match ← findMember root field.name with
    | none =>
      if field.isRequired then
        return (false, slot :: slots)
      else
        let (ret, slots) ← parseFields parseMessage root fields slots
        return (ret, slot :: slots)
    | some value =>
      let (ret, slot) ← parseField lib schema parseMessage field value slot
      if ret then
        let (ret, slots) ← parseFields parseMessage root fields slots
        return (ret, slot :: slots)
      else
        return (false, slot :: slots)
  | _, slots => .ok (true, slots)

def parseFromJsonValue : Nat → ParseMessage μ
  | 0, _, _ => .error .stuck
  | depth + 1, root, message => do
    let (ret, slots) ←
      parseFields lib schema (parseFromJsonValue depth) root (schema.fields message.type) message.slots
    return (ret, ⟨message.type, slots⟩)

-- A NUL follows the bytes of the piece.
def parseFromJson (json : List UInt8) (message : Message μ) : Except Failure (Bool × Message μ) :=
  match lib.parse (cString json) with
  | none => .ok (false, message)
  | some root => parseFromJsonValue lib schema (root.depth + 1) root message

end Protobuf
end Claire
