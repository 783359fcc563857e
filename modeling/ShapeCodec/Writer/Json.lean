import ShapeCodec.Json.Untyped
import ShapeCodec.Writer.Document

/-!
# Writing JSON

Members go under their wire keys, or under their names if that is asked for. A document that is
written as it is follows its own schema; one whose schema allows anything is written by its value.
-/

namespace ShapeCodec.Json

/-- What every step of writing depends on. -/
structure Scope where
  model : Model
  config : Config
  wireNames : Bool := true

namespace Scope

variable (s : Scope)

/-- The key of a member. -/
def memberKey? (schema : SchemaRef) : Option String :=
  if s.wireNames then s.model.wireName? schema else s.model.memberName? schema

/-- A scalar under a schema. -/
def scalar (schema : SchemaRef) (value : Scalar) : Json :=
  Json.ofScalar (s.config.timestampFormatFor s.model schema) value

/-- Writes JSON, given what documents are written as. -/
def sinkWith (document : Document → Result Json) : Sink Json where
  name := "JSON"
  memberKey? := s.memberKey?
  null := fun _ => .null
  scalar := fun schema value => .ok (s.scalar schema value)
  document := fun _ value => document value
  list := fun _ items => .array items
  map := fun _ entries => .object entries

/-- Writes the values of entries, up to the first error. -/
def entriesWith (document : Document → Result Json) :
    List (String × Document) → Result (List (String × Json))
  | [] => .ok []
  | (key, value) :: rest => do
    let j ← document value
    return (key, j) :: (← entriesWith document rest)

/-- A document whose schema allows anything, given what its parts are written as. -/
def byValueWith (document : Document → Result Json) : Document → Result Json
  | .null _ => .ok .null
  | .leaf _ value => .ok (Json.ofScalar s.config.timestampFormat value)
  | .list _ items => do return .array (← items.mapM document)
  | .map _ entries => do return .object (← entriesWith document entries)

/--
A document as it is. Each step goes from a document to parts of it, so as many steps are enough as
the document is high; the last case is never met with so many.
-/
def documentAt : (fuel : Nat) → Document → Result Json
  | 0, _ => .error (.serialization "document is higher than it was measured")
  | fuel + 1, d =>
    if s.model.typeOf d.schema = .document then s.byValueWith (documentAt fuel) d
    else Writer.write s.model (s.sinkWith (documentAt fuel)) (d.calls s.model d.schema)

/-- A document as it is. -/
def document (d : Document) : Result Json :=
  s.documentAt d.height d

/-- Writes JSON. -/
def sink : Sink Json :=
  s.sinkWith s.document

/-- The JSON that a call writes. -/
def ofCall (call : Call) : Result Json :=
  Writer.write s.model s.sink call

end Scope
end ShapeCodec.Json
