import ShapeCodec.Document.Access
import ShapeCodec.Writer.Machine

/-!
# Writing documents

Documents are written by walking them along a schema: only the members that the schema has are
written, in the order it declares them, and scalars as the type it asks for. Where the schema allows
anything, the document is written as it is. Writing into a document keeps the schema of every part.
-/

namespace ShapeCodec

namespace Document

open ShapeCodec.Tree (Visited)

/-- The calls that write a document, for each schema it may be written under. -/
abbrev Writing :=
  (schema : SchemaRef) → Call

/-- The calls that write the members of a structure or union. -/
def memberCalls (m : Model) (schema : SchemaRef) (entries : Entries (Visited Label Scalar Writing)) :
    List Call :=
  (m.members schema).filterMap fun member =>
    match (m.memberName? member).bind entries.find? with
    | some v => if v.tree.isNull then none else some (v.result member)
    | none => none

/-- The calls that write a null. -/
def nullCalls : Writing :=
  fun schema => .null schema

/-- The calls that write a scalar as the type that a schema asks for. -/
def scalarCalls (m : Model) (label : Label) (value : Scalar) : Writing := fun schema =>
  let d : Document := .leaf label value
  match (m.typeOf schema).form with
  | .structure | .union => .structure schema [.fail (mismatch d .map)]
  | .list => .fail (mismatch d .list)
  | .map => .fail (mismatch d .map)
  | .document => .document schema d
  | .scalar type => .ofResult ((value.as type).map (.scalar schema))

/-- The calls that write a list. -/
def listCalls (m : Model) (label : Label) (items : List (Visited Label Scalar Writing)) :
    Writing := fun schema =>
  let d : Document := .list label (items.map Visited.tree)
  match (m.typeOf schema).form with
  | .structure | .union => .structure schema [.fail (mismatch d .map)]
  | .list =>
    .ofResult do
      let member ← m.listMember schema
      return .list schema (items.map fun v => v.result member)
  | .map => .fail (mismatch d .map)
  | .document => .document schema d
  | .scalar type => .ofResult ((d.asScalar type).map (.scalar schema))

/-- The calls that write the entries of a map or the members of a structure. -/
def mapCalls (m : Model) (label : Label) (entries : Entries (Visited Label Scalar Writing)) :
    Writing := fun schema =>
  let d : Document := .map label (entries.map fun (k, v) => (k, v.tree))
  match (m.typeOf schema).form with
  | .structure | .union => .structure schema (memberCalls m schema entries)
  | .list => .fail (mismatch d .list)
  | .map =>
    .ofResult do
      let member ← m.mapValue schema
      return .map schema (entries.map fun (k, v) => .entry k [v.result member])
  | .document => .document schema d
  | .scalar type => .ofResult ((d.asScalar type).map (.scalar schema))

/-- How each kind of node is written. -/
def callsWalk (m : Model) : Tree.Walk Label Scalar Writing where
  null := fun _ => nullCalls
  leaf := scalarCalls m
  list := listCalls m
  map := mapCalls m

/-- The calls that write a document under a schema. -/
def calls (m : Model) (d : Document) : Writing :=
  d.walk (callsWalk m)

end Document

/-- Writes documents: each part carries the schema it was written under. -/
def Document.sink (m : Model) : Sink Document where
  name := "document"
  memberKey? := m.memberName?
  null := fun schema => .null { schema }
  scalar := fun schema value => .ok (.leaf { schema } value)
  document := fun _ value => .ok value
  list := fun schema items => .list { schema } items
  map := fun schema entries => .map { schema } entries

/-- The document that a call writes. -/
def Document.ofCall (m : Model) (call : Call) : Result Document :=
  Writer.write m (Document.sink m) call

/-- The document that a document is written as under another schema. -/
def Document.writeAs (m : Model) (schema : SchemaRef) (d : Document) : Result Document :=
  Document.ofCall m (d.calls m schema)

end ShapeCodec
