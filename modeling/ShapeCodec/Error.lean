import ShapeCodec.ShapeId
import ShapeCodec.ShapeType

/-!
# Errors

Every operation of the library that can fail does so with one `Error`. A constructor names the
kind of failure, its fields what it is about; `Error.message` is the one place with wording.
-/

namespace ShapeCodec

/-- Why an operation on schemas, documents or wire text failed. -/
inductive Error where
  /-- The value at hand is not of the kind that was asked for. -/
  | typeMismatch (expected actual : String)
  /-- A required member is absent. -/
  | missingRequiredMember (member : String) (shape : ShapeId)
  /-- A union needs exactly one member. -/
  | unionArity (shape : ShapeId) (count : Nat)
  /-- No type or schema is known under this id. -/
  | unknownType (id : ShapeId)
  /-- Something went wrong while output was produced. -/
  | serialization (reason : String)
  /-- The input is malformed. -/
  | deserialization (reason : String)
  /-- A container operation met a scalar. -/
  | notAContainer (type : ShapeType)
  /-- The one member of a union cannot be taken away. -/
  | invalidUnionMutation (shape : ShapeId)
  /-- A value that its shape does not declare cannot be written. -/
  | unknownVariant (shape : ShapeId) (tag : String)
  /-- A schema is declared or used inconsistently. -/
  | invalidSchema (reason : String)
  /-- A number does not fit the type asked for. -/
  | outOfRange (value : String) (target : ShapeType)
  /-- A list has no element at this index. -/
  | indexOutOfBounds (index length : Nat)
  /-- A collection that is not sparse holds a null. -/
  | nullNotAllowed (collection : ShapeId)
  /-- The input nests more aggregates than the limit allows. -/
  | nestingTooDeep (limit : Nat)
deriving DecidableEq, Repr, Inhabited

/-- The result of an operation that may fail. -/
abbrev Result := Except Error

namespace Error

/-- The text shown for an error. -/
def message : Error → String
  | typeMismatch expected actual => s!"type mismatch: expected {expected}, found {actual}"
  | missingRequiredMember member shape =>
    s!"missing required member `{member}` of {shape.text}"
  | unionArity shape count =>
    s!"union {shape.text} must have exactly one member set, found {count}"
  | unknownType id => s!"unknown type: {id.text}"
  | serialization reason => s!"serialization error: {reason}"
  | deserialization reason => s!"deserialization error: {reason}"
  | notAContainer type => s!"{type.keyword} document is not a container"
  | invalidUnionMutation shape => s!"cannot remove the member of union {shape.text}"
  | unknownVariant shape tag =>
    s!"cannot serialize unknown variant `{tag}` of union {shape.text}"
  | invalidSchema reason => s!"invalid schema: {reason}"
  | outOfRange value target => s!"value {value} is out of range for {target.keyword}"
  | indexOutOfBounds index length => s!"index {index} is out of bounds for length {length}"
  | nullNotAllowed collection =>
    s!"null value not allowed in non-sparse collection {collection.text}"
  | nestingTooDeep limit => s!"maximum nesting depth of {limit} exceeded"

/-- The name of an error's kind. -/
def kind : Error → String
  | typeMismatch .. => "TypeMismatch"
  | missingRequiredMember .. => "MissingRequiredMember"
  | unionArity .. => "UnionArity"
  | unknownType .. => "UnknownType"
  | serialization .. => "Serialization"
  | deserialization .. => "Deserialization"
  | notAContainer .. => "NotAContainer"
  | invalidUnionMutation .. => "InvalidUnionMutation"
  | unknownVariant .. => "UnknownVariant"
  | invalidSchema .. => "InvalidSchema"
  | outOfRange .. => "OutOfRange"
  | indexOutOfBounds .. => "IndexOutOfBounds"
  | nullNotAllowed .. => "NullNotAllowed"
  | nestingTooDeep .. => "NestingTooDeep"

/-- The stable number of an error's kind. -/
def code : Error → Nat
  | typeMismatch .. => 1
  | missingRequiredMember .. => 2
  | unionArity .. => 3
  | unknownType .. => 4
  | serialization .. => 5
  | deserialization .. => 6
  | notAContainer .. => 7
  | invalidUnionMutation .. => 8
  | unknownVariant .. => 9
  | invalidSchema .. => 10
  | outOfRange .. => 11
  | indexOutOfBounds .. => 12
  | nullNotAllowed .. => 13
  | nestingTooDeep .. => 14

/-- Whether the input is to blame, and not the value or schema that the caller handed over. -/
def isInputError : Error → Bool
  | typeMismatch .. | missingRequiredMember .. | unionArity .. | deserialization ..
  | outOfRange .. | nullNotAllowed .. | nestingTooDeep .. => true
  | _ => false

end Error

/-- Reads a shape id, refusing a text that is not one. -/
def ShapeId.parse (text : String) : Result ShapeId :=
  match ShapeId.parse? text with
  | some id => .ok id
  | none => .error (.invalidSchema s!"invalid shape id `{text}`")

/-- Reads the keyword of a shape type. -/
def ShapeType.parse (word : String) : Result ShapeType :=
  match ShapeType.ofKeyword? word with
  | some type => .ok type
  | none => .error (.invalidSchema s!"unknown shape type `{word}`")

end ShapeCodec
