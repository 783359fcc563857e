import ShapeCodec.Entries
import ShapeCodec.Schema.Prelude
import ShapeCodec.Schema.Traits

/-!
# Models

A model holds the shapes that are declared next to the prelude. Shapes refer to each other by key,
so that they may be recursive; a schema reference names a shape or one of its members. References
that lead nowhere stand for the document shape, so every function here is total.
-/

namespace ShapeCodec

/-- Where a shape is found. -/
inductive ShapeKey where
  | prelude (shape : PreludeShape)
  | declared (index : Nat)
deriving DecidableEq, Repr

/-- A schema: a shape, or a member in its place within the shape that declares it. -/
inductive SchemaRef where
  | shape (key : ShapeKey)
  | member (container : ShapeKey) (index : Nat)
deriving DecidableEq, Repr

instance : Inhabited SchemaRef :=
  ⟨.shape (.prelude .document)⟩

namespace SchemaRef

/-- The schema of a prelude shape. -/
@[match_pattern] def prelude (shape : PreludeShape) : SchemaRef :=
  .shape (.prelude shape)

/-- The schema of the scalars of a type. -/
def scalar (type : ScalarType) : SchemaRef :=
  prelude (.scalar type)

def isMember : SchemaRef → Bool
  | .shape _ => false
  | .member .. => true

/-- The place of a member among its siblings. -/
def memberIndex? : SchemaRef → Option Nat
  | .shape _ => none
  | .member _ index => some index

end SchemaRef

/-- What a member refers to; a deferred target is looked up by name whenever it is used. -/
inductive Target where
  | resolved (schema : SchemaRef)
  | deferred (name : String)
deriving DecidableEq, Repr

/-- A member of a shape. -/
structure Member where
  name : String
  target : Target
  traits : Traits := {}
deriving DecidableEq, Repr

/-- The key of a member on the wire. -/
def Member.wireName (m : Member) : String :=
  m.traits.jsonName.getD m.name

/-- A shape. Its members are missing until they have been filled in, which happens once. -/
structure Shape where
  id : ShapeId
  type : ShapeType
  traits : Traits := {}
  members : Option (List Member) := none
deriving DecidableEq, Repr

/-- The members filled in so far. -/
def Shape.memberList (s : Shape) : List Member :=
  s.members.getD []

/-- The members of a prelude shape; only the generic containers have any. -/
def PreludeShape.members : PreludeShape → List Member
  | documentList => [{ name := "member", target := .resolved (.prelude document) }]
  | documentMap =>
    [{ name := "key", target := .resolved (.scalar .string) },
      { name := "value", target := .resolved (.prelude document) }]
  | _ => []

/-- The generic containers keep their nulls. -/
def PreludeShape.isSparse : PreludeShape → Bool
  | documentList | documentMap => true
  | _ => false

/-- A prelude shape as a shape. -/
def PreludeShape.shape (p : PreludeShape) : Shape :=
  { id := p.id, type := p.type, traits := { sparse := p.isSparse }, members := some p.members }

/-- The declared shapes, and the names that deferred targets are looked up by. -/
structure Model where
  shapes : Array Shape := #[]
  names : Entries SchemaRef := []
deriving Inhabited

namespace Model

variable (m : Model)

/-- The shape with a key. -/
def shape : ShapeKey → Shape
  | .prelude p => p.shape
  | .declared index => m.shapes.getD index PreludeShape.document.shape

/-- The member declared at a place. -/
def declaration? (container : ShapeKey) (index : Nat) : Option Member :=
  (m.shape container).memberList[index]?

/-- The last position whose element satisfies `p`. -/
def lastIndex? {α : Type} (p : α → Bool) : List α → Option Nat
  | [] => none
  | x :: xs =>
    match lastIndex? p xs with
    | some i => some (i + 1)
    | none => if p x then some 0 else none

/-- The members that a shape has for itself, without looking at targets. -/
def ownMember? (container : ShapeKey) (name : String) : Option SchemaRef :=
  (lastIndex? (·.name == name) (m.shape container).memberList).map (.member container)

/-- The schema with a name: a name of this model, or the id of a prelude shape. -/
def named? (name : String) : Option SchemaRef :=
  match m.names.find? name with
  | some schema => some schema
  | none =>
    if name = PreludeShape.documentList.id.text then some (.prelude .documentList)
    else if name = PreludeShape.documentMap.id.text then some (.prelude .documentMap)
    else (PreludeShape.lookup? ⟨name⟩).map .prelude

/-- A name cut at its last `$`. -/
def cutMember? (name : String) : Option (String × String) :=
  (ShapeId.cut? '$' name.toList.reverse).map fun (member, left) =>
    (String.ofList left.reverse, String.ofList member.reverse)

/-- The schema that a deferred target names: a named schema, or a member of a named shape. -/
def deferred? (name : String) : Option SchemaRef :=
  match m.named? name with
  | some schema => some schema
  | none =>
    match cutMember? name with
    | none => none
    | some (left, member) =>
      match m.named? left with
      | some (.shape key) => m.ownMember? key member
      | _ => none

/-- The schema that a target stands for at the moment. -/
def resolve : Target → SchemaRef
  | .resolved schema => schema
  | .deferred name => (m.deferred? name).getD default

/-- The target of a member. -/
def target? : SchemaRef → Option SchemaRef
  | .shape _ => none
  | .member container index => (m.declaration? container index).map fun d => m.resolve d.target

/-- The schema that describes the values: the target of a member, a shape itself. -/
def described (schema : SchemaRef) : SchemaRef :=
  match schema with
  | .shape _ => schema
  | .member .. => (m.target? schema).getD default

/-- The id of a schema. -/
def id : SchemaRef → ShapeId
  | .shape key => (m.shape key).id
  | .member container index =>
    let owner := (m.shape container).id
    match m.declaration? container index with
    | some d => owner.withMember d.name
    | none => owner

/-- The id of the shape that describes the values. -/
def shapeId (schema : SchemaRef) : ShapeId :=
  m.id (m.described schema)

/-- The traits declared on a schema itself. -/
def traits : SchemaRef → Traits
  | .shape key => (m.shape key).traits
  | .member container index =>
    match m.declaration? container index with
    | some d => d.traits
    | none => {}

/-- How many members are declared in all. -/
def memberCount : Nat :=
  m.shapes.foldl (fun n s => n + s.memberList.length) 0

/--
The shape type found by following targets, at most `fuel` of them. A target may be a member in turn,
and a chain of targets that never reaches a shape has no type of its own.
-/
def typeAt : (fuel : Nat) → SchemaRef → ShapeType
  | _, .shape key => (m.shape key).type
  | 0, .member .. => .document
  | fuel + 1, schema => typeAt fuel (m.described schema)

/-- The shape type of a schema; a member has the one of its target. -/
def typeOf : SchemaRef → ShapeType
  | .shape key => (m.shape key).type
  | .member container index => m.typeAt (m.memberCount + 2) (.member container index)

end Model
end ShapeCodec
