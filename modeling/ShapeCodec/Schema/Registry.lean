import ShapeCodec.Schema.Layout

/-!
# Registries

Schemas by their ids, in the order they were declared. A registry is made from schemas at hand, or
from declarations whose members name their targets by id: all shapes are declared first, then the
targets are looked up and the members filled in, so shapes may be recursive.
-/

namespace ShapeCodec

/-- The schemas of a model by their ids. -/
structure Registry where
  schemas : Entries SchemaRef
deriving Inhabited

namespace Registry

/-- The registry of schemas at hand; the last schema with an id is the one found. -/
def ofSchemas (m : Model) (schemas : List SchemaRef) : Registry :=
  ⟨.ofList (schemas.map fun s => ((m.id s).text, s))⟩

def contains (r : Registry) (id : ShapeId) : Bool :=
  r.schemas.contains id.text

def get (r : Registry) (id : ShapeId) : Result SchemaRef :=
  match r.schemas.find? id.text with
  | some schema => .ok schema
  | none => .error (.unknownType id)

def size (r : Registry) : Nat :=
  r.schemas.length

/-- The schemas in the order they were declared. -/
def toList (r : Registry) : List SchemaRef :=
  r.schemas.map Prod.snd

end Registry

/-- A member to come, with the id of its target. -/
structure PendingMember where
  name : String
  target : ShapeId
  traits : Traits

/-- A shape to come. -/
structure PendingShape where
  id : ShapeId
  type : ShapeType
  traits : Traits
  members : List PendingMember := []

/-- Declarations collected so far, and what has gone wrong with them. -/
structure RegistryBuilder where
  shapes : List PendingShape := []
  problems : List String := []

namespace RegistryBuilder

def isDeclared (b : RegistryBuilder) (id : ShapeId) : Bool :=
  b.shapes.any (·.id == id)

/-- Declares a shape; an id is declared only once. -/
def declare (b : RegistryBuilder) (id : ShapeId) (type : ShapeType) (traits : Traits) :
    RegistryBuilder :=
  if b.isDeclared id then { b with problems := b.problems ++ [s!"shape {id.text} declared twice"] }
  else { b with shapes := b.shapes ++ [{ id, type, traits }] }

/-- Adds a member to a shape that is already declared. -/
def member (b : RegistryBuilder) (container : ShapeId) (member : PendingMember) :
    RegistryBuilder :=
  if b.isDeclared container then
    { b with shapes := b.shapes.map fun s =>
        if s.id = container then { s with members := s.members ++ [member] } else s }
  else
    { b with problems := b.problems
        ++ [s!"member `{member.name}` added to undeclared shape {container.text}"] }

/-- The schemas that the declared ids get when shapes are added after `size` others. -/
def schemasFrom (size : Nat) : List PendingShape → Entries SchemaRef
  | [] => []
  | s :: rest => (s.id.text, .shape (.declared size)) :: schemasFrom (size + 1) rest

/-- The schema a target id stands for: a declared shape, else a prelude shape. -/
def resolveTarget (declared : Entries SchemaRef) (id : ShapeId) : Result SchemaRef :=
  match declared.find? id.text with
  | some schema => .ok schema
  | none =>
    match PreludeShape.lookup? id with
    | some shape => .ok (.prelude shape)
    | none => .error (.unknownType id)

/-- A member with its target looked up. -/
def resolveMember (declared : Entries SchemaRef) (p : PendingMember) : Result Member := do
  let target ← resolveTarget declared p.target
  return { name := p.name, target := .resolved target, traits := p.traits }

/-- Fills in the members of the shapes, in order. -/
def finalizeAll (declared : Entries SchemaRef) : Model → List PendingShape → Result Model
  | m, [] => .ok m
  | m, s :: rest => do
    let members ← s.members.mapM (resolveMember declared)
    let schema ← resolveTarget declared s.id
    let m ← m.finalize schema members
    finalizeAll declared m rest

/-- Adds all declared shapes to a model. The first problem met while collecting is the error. -/
def build (b : RegistryBuilder) (m : Model) : Result (Model × Registry) :=
  match b.problems with
  | problem :: _ => .error (.invalidSchema problem)
  | [] => do
    let declared := schemasFrom m.shapes.size b.shapes
    let placeholders := b.shapes.map fun s => { id := s.id, type := s.type, traits := s.traits }
    let m ← finalizeAll declared { m with shapes := m.shapes ++ placeholders.toArray } b.shapes
    return (m, ⟨declared⟩)

end RegistryBuilder
end ShapeCodec
