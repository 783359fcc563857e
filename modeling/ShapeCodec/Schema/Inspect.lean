import ShapeCodec.Schema.Layout

/-!
# Showing schemas

The text that shows a schema for inspection: its id, its type or its place and target, and what of
traits and members it has.
-/

namespace ShapeCodec.Model

variable (m : Model)

/-- The text that shows a target. -/
def inspectTarget : Target → String
  | .resolved schema => s!"Resolved({(m.id schema).text})"
  | .deferred _ => "Deferred"

/-- What a schema is: its type, or its place and target. -/
def inspectKind : SchemaRef → List String
  | .shape key => [s!"shape_type: {(m.shape key).type.title}"]
  | .member container index =>
    [s!"index: {index}"] ++ (match m.declaration? container index with
      | some d => [s!"target: {m.inspectTarget d.target}"]
      | none => [])

/-- The names of the members that have been filled in. -/
def inspectMembers : SchemaRef → List String
  | .shape key =>
    match (m.shape key).members with
    | none => []
    | some members => [s!"members: {bracketed (members.map fun d => Text.quote d.name)}"]
  | .member .. => []

/-- The text that shows a schema. -/
def inspect (schema : SchemaRef) : String :=
  let traits := m.traits schema
  let parts := [s!"id: ShapeId({Text.quote (m.id schema).text})"]
    ++ m.inspectKind schema
    ++ (if traits.isEmpty then [] else [s!"traits: {traits.inspect}"])
    ++ m.inspectMembers schema
  "Schema \x7b " ++ ", ".intercalate parts ++ " \x7d"

end ShapeCodec.Model
