import ClaireCommon.Protobuf.Impl.ProtobufIO

/-!
This module contains the values of a document that `ParseFromJson` meets, in its order, and what each of
them is to it: it passes, `false` is returned, or the source leaves its protocol.
-/

namespace Claire
namespace Protobuf

variable {μ : Type}

-- The values have the types of the fields and enum values are declared. Required fields can be unset.
inductive Conforms (schema : Schema μ) : FieldType μ → Value μ → Prop
  | int32 (n : Int32) : Conforms schema .int32 (.int32 n)
  | uint32 (n : UInt32) : Conforms schema .uint32 (.uint32 n)
  | int64 (n : Int64) : Conforms schema .int64 (.int64 n)
  | uint64 (n : UInt64) : Conforms schema .uint64 (.uint64 n)
  | float (x : Float32) : Conforms schema .float (.float x)
  | double (x : Float) : Conforms schema .double (.double x)
  | bool (b : Bool) : Conforms schema .bool (.bool b)
  | enum {type : EnumDescriptor} {name : CString} {number : Int32} (h : (name, number) ∈ type.values)
      : Conforms schema (.enum type) (.enum number)
  | string (s : List UInt8) : Conforms schema .string (.string s)
  | bytes (s : List UInt8) : Conforms schema .bytes (.bytes s)
  | message {type : μ} {slots : List (List (Value μ))}
      (hlength : slots.length = (schema.fields type).length)
      (hsingular : ∀ field slot, (field, slot) ∈ (schema.fields type).zip slots →
        field.isRepeated = false → slot.length ≤ 1)
      (hvalues : ∀ field slot, (field, slot) ∈ (schema.fields type).zip slots →
        ∀ value ∈ slot, Conforms schema field.type value)
      : Conforms schema (.message type) (.message type slots)

inductive Outcome where
  | passes
  | refused
  | fails
  deriving DecidableEq, Repr

def Outcome.andThen : Outcome → Outcome → Outcome
  | .passes, next => next
  | .refused, _ => .refused
  | .fails, _ => .fails

inductive Visit (μ : Type) where
  | notObject
  | missing (field : FieldDescriptor μ)
  | notArray (field : FieldDescriptor μ)
  | value (isRepeated : Bool) (type : FieldType μ) (json : Json)

namespace Visit

-- The field can take a value of that type. A `double` that is repeated takes no integer.
def takes (isRepeated : Bool) (type : FieldType μ) (value : Json) : Bool :=
  match type with
  | .int32 => value.getInt.isSome
  | .uint32 => value.getUint.isSome
  | .int64 => value.getInt64.isSome || value.getString.isSome
  | .uint64 => value.getUint64.isSome || value.getString.isSome
  | .float => (findDouble isRepeated value).isSome
  | .double => (findDouble isRepeated value).isSome
  | .bool => value.getBool.isSome
  | .enum _ => if isRepeated then value.getInt.isSome else value.getString.isSome
  | .string => value.getString.isSome
  | .bytes => value.getString.isSome
  | .message _ =>
    match value with
    | .object _ => true
    | _ => false

def guarded (isRepeated : Bool) (type : FieldType μ) : Bool :=
  match type with
  | .int32 => isRepeated
  | .uint32 => isRepeated
  | .float => isRepeated
  | .double => isRepeated
  | .bool => isRepeated
  | _ => true

def contents (lib : Library) (isRepeated : Bool) (type : FieldType μ) (value : Json) : Outcome :=
  match type with
  | .int64 =>
    if value.getInt64.isSome ∨ (value.getString.bind lib.lexicalCastInt64).isSome then .passes else .fails
  | .uint64 =>
    if value.getUint64.isSome ∨ (value.getString.bind lib.lexicalCastUint64).isSome then .passes else .fails
  | .enum type => if (findEnumValue type isRepeated value).isSome then .passes else .refused
  | .bytes =>
    match value.getString with
    | some s => if (uriUnescape s .all).toBool then .passes else .fails
    | none => .passes
  | _ => .passes

def outcome (lib : Library) : Visit μ → Outcome
  | .notObject => .fails
  | .missing _ => .refused
  | .notArray _ => .refused
  | .value isRepeated type json =>
    if takes isRepeated type json then
      contents lib isRepeated type json
    else
      if guarded isRepeated type then .refused else .fails

def mistyped : Visit μ → Bool
  | .notObject => false
  | .missing _ => false
  | .notArray _ => true
  | .value isRepeated type json => !takes isRepeated type json

end Visit

def verdict (lib : Library) : List (Visit μ) → Outcome
  | [] => .passes
  | visit :: visits => (visit.outcome lib).andThen (verdict lib visits)

section

variable (visitsOfMessage : μ → Json → List (Visit μ))

def visitsOfValue (isRepeated : Bool) (type : FieldType μ) (value : Json) : List (Visit μ) :=
  .value isRepeated type value ::
    match type, value with
    | .message type, .object members => visitsOfMessage type (.object members)
    | _, _ => []

def visitsOfMember (field : FieldDescriptor μ) (value : Json) : List (Visit μ) :=
  if field.isRepeated then
    match value with
    | .array items => items.flatMap (visitsOfValue visitsOfMessage true field.type)
    | _ => [.notArray field]
  else
    visitsOfValue visitsOfMessage false field.type value

def visitsOfField (root : Json) (field : FieldDescriptor μ) : List (Visit μ) :=
  match findMember root field.name with
  | .error _ => [.notObject]
  | .ok none => if field.isRequired then [.missing field] else []
  | .ok (some value) => visitsOfMember visitsOfMessage field value

end

def visits (schema : Schema μ) : Nat → μ → Json → List (Visit μ)
  | 0, _, _ => []
  | depth + 1, type, root => (schema.fields type).flatMap (visitsOfField (visits schema depth) root)

section

variable (matchedInMessage : μ → Json → List (Visit μ))

-- Of all members with the name of the field, the source only meets the first.
def matchedByField (root : Json) (field : FieldDescriptor μ) : List (Visit μ) :=
  match root with
  | .object members =>
    (members.filter (·.1 = field.name.bytes)).flatMap (visitsOfMember matchedInMessage field ·.2)
  | _ => []

end

def matched (schema : Schema μ) : Nat → μ → Json → List (Visit μ)
  | 0, _, _ => []
  | depth + 1, type, root => (schema.fields type).flatMap (matchedByField (matched schema depth) root)

variable {lib : Library}

@[simp]
theorem Outcome.andThen_passes (o : Outcome) : o.andThen .passes = o := by
  cases o <;> rfl

theorem Outcome.andThen_assoc (a b c : Outcome)
    : (a.andThen b).andThen c = a.andThen (b.andThen c) := by
  cases a <;> rfl

theorem verdict_append (front back : List (Visit μ))
    : verdict lib (front ++ back) = (verdict lib front).andThen (verdict lib back) := by
  induction front with
  | nil => rfl
  | cons visit front ih =>
    rw [List.cons_append, verdict, verdict, ih, Outcome.andThen_assoc]

theorem verdict_eq_passes {visits : List (Visit μ)}
    : verdict lib visits = .passes ↔ ∀ visit ∈ visits, visit.outcome lib = .passes := by
  induction visits with
  | nil => simp [verdict]
  | cons visit visits ih =>
    rw [verdict, List.forall_mem_cons, ← ih]
    cases visit.outcome lib <;> simp [Outcome.andThen]

theorem exists_of_verdict_eq_refused {visits : List (Visit μ)} (h : verdict lib visits = .refused)
    : ∃ visit ∈ visits, visit.outcome lib = .refused := by
  induction visits with
  | nil => contradiction
  | cons visit visits ih =>
    rw [verdict] at h
    cases houtcome : visit.outcome lib with
    | refused => exact ⟨visit, List.mem_cons_self, houtcome⟩
    | fails =>
      rw [houtcome] at h
      contradiction
    | passes =>
      rw [houtcome] at h
      have ⟨later, hmem, hrefused⟩ := ih h
      exact ⟨later, List.mem_cons_of_mem _ hmem, hrefused⟩

-- What fails only comes after something that is refused.
def RefusesBeforeFailing (lib : Library) (visits : List (Visit μ)) : Prop :=
  ∀ (front : List (Visit μ)) (visit : Visit μ) (back : List (Visit μ)),
    visits = front ++ visit :: back → visit.outcome lib = .fails →
    ∃ earlier ∈ front, earlier.outcome lib = .refused

theorem refusesBeforeFailing_cons {visit : Visit μ} {visits : List (Visit μ)}
    : RefusesBeforeFailing lib (visit :: visits) ↔
        visit.outcome lib = .refused ∨
          (visit.outcome lib = .passes ∧ RefusesBeforeFailing lib visits) := by
  unfold RefusesBeforeFailing
  constructor
  . intro h
    cases houtcome : visit.outcome lib with
    | fails =>
      have ⟨earlier, hmem, _⟩ := h [] visit visits rfl houtcome
      contradiction
    | refused => exact Or.inl rfl
    | passes =>
      refine Or.inr ⟨rfl, ?_⟩
      intro front later back heq hfails
      have ⟨earlier, hmem, hrefused⟩ := h (visit :: front) later back (by rw [heq]; rfl) hfails
      cases List.mem_cons.mp hmem with
      | inl heq =>
        rw [heq, houtcome] at hrefused
        contradiction
      | inr hmem => exact ⟨earlier, hmem, hrefused⟩
  . intro h front later back heq hfails
    cases front with
    | nil =>
      rw [List.nil_append] at heq
      injection heq with heq _
      rw [← heq] at hfails
      rw [hfails] at h
      simp at h
    | cons first front =>
      rw [List.cons_append] at heq
      injection heq with hfirst heq
      rw [← hfirst]
      cases h with
      | inl hrefused => exact ⟨visit, List.mem_cons_self, hrefused⟩
      | inr h =>
        have ⟨earlier, hmem, hrefused⟩ := h.2 front later back heq hfails
        exact ⟨earlier, List.mem_cons_of_mem _ hmem, hrefused⟩

theorem verdict_ne_fails {visits : List (Visit μ)}
    : verdict lib visits ≠ .fails ↔ RefusesBeforeFailing lib visits := by
  induction visits with
  | nil =>
    constructor
    . intro _ front visit back heq
      simp at heq
    . intro _
      simp [verdict]
  | cons visit visits ih =>
    rw [refusesBeforeFailing_cons, ← ih, verdict]
    cases visit.outcome lib <;> simp [Outcome.andThen]

end Protobuf
end Claire
