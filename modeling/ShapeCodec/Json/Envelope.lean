import ShapeCodec.Json.Untyped

/-!
# Envelopes

JSON that names the type it encodes. Structures and unions carry the shape id next to their members;
every other value is put into an object that holds the id and the value.
-/

namespace ShapeCodec.Json

/-- The key of the value in an envelope. -/
def valueKey : String :=
  "__value"

/-- Names the type of a value that was written under a schema. -/
def wrap (m : Model) (schema : SchemaRef) (j : Json) : Json :=
  let tag : String × Json := (typeKey, .string (m.shapeId schema).text)
  match j, (m.typeOf (m.described schema)).isStructureLike with
  | Tree.map _ members, true => .object (Entries.ofList (tag :: members))
  | j, _ => .object [tag, (valueKey, j)]

/-- The shape id that a value names, if it does. -/
def discriminator (j : Json) : Result (Option ShapeId) :=
  match j.members?.bind (Entries.find? typeKey) with
  | none => .ok none
  | some (.string tag) => (ShapeId.parse tag).map some
  | some _ => .error (.deserialization s!"`{typeKey}` must be a string")

/-- The value without its envelope. An id next to members stays where it is. -/
def payload (j : Json) : Json :=
  match j.members? with
  | some members =>
    if members.length = 2 && members.contains typeKey then
      (members.find? valueKey).getD j
    else j
  | none => j

end ShapeCodec.Json
