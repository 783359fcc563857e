import ShapeCodec.Document.Access

/-!
# Changing documents

Changes return a new document. What has been a valid structure stays one as far as its keys go, and
a union always has its one member: setting a member of a union replaces the one it had.
-/

namespace ShapeCodec

namespace Model

/-- The error about a required member of a structure that is absent. -/
def missingMember (m : Model) (member container : SchemaRef) : Error :=
  .missingRequiredMember ((m.memberName? member).getD "") (m.shapeId container)

/-- Checks that every member that has to be present is. -/
def checkRequired (m : Model) (container : SchemaRef) (present : String → Bool) : Result Unit :=
  let missing := (m.members container).find? fun member =>
    (m.traits member).mustBePresent && (m.memberName? member).any fun name => !present name
  match missing with
  | some member => .error (m.missingMember member container)
  | none => .ok ()

end Model

namespace Document

/-- How many values are not null. -/
def presentCount (entries : Entries Document) : Nat :=
  (entries.filter fun e => !e.2.isNull).length

/-- Checks that each key names a member. -/
def checkKeys (m : Model) (schema : SchemaRef) : List String → Result Unit
  | [] => .ok ()
  | key :: keys => do
    let _ ← m.expectMember schema key
    checkKeys m schema keys

/-- A structure or union with the given members. -/
def ofMembers (m : Model) (schema : SchemaRef) (entries : Entries Document) : Result Document := do
  let type := m.typeOf schema
  if !type.isStructureLike then
    throw (.typeMismatch "structure or union" type.keyword)
  checkKeys m schema entries.keys
  m.checkRequired schema fun name => (entries.find? name).any fun d => !d.isNull
  let count := presentCount entries
  if type = .union ∧ count ≠ 1 then
    throw (.unionArity (m.shapeId schema) count)
  return .map { schema } entries

/-- Sets a key. A key of a structure has to name a member; a union changes its member. -/
def withEntry (m : Model) (d : Document) (key : String) (value : Document) : Result Document := do
  let entries ← d.entries m
  match m.typeOf d.schema with
  | .union =>
    let changed ← ofMembers m d.schema [(key, value)]
    return changed.relabel { changed.label with discriminator := d.label.discriminator }
  | .structure =>
    let _ ← m.expectMember d.schema key
    return .map d.label (entries.insert key value)
  | _ => return .map d.label (entries.insert key value)

/-- Takes a key away. -/
def withoutEntry (m : Model) (d : Document) (key : String) : Result Document := do
  let entries ← d.entries m
  if m.typeOf d.schema = .union then throw (.invalidUnionMutation (m.shapeId d.schema))
  return .map d.label (entries.erase key)

/-- Replaces the element at an index. -/
def withElement (m : Model) (d : Document) (index : Nat) (value : Document) : Result Document := do
  let items ← d.elements m
  if items.length ≤ index then throw (.indexOutOfBounds index items.length)
  return .list d.label (items.set index value)

/-- Adds an element at the end. -/
def withAppended (m : Model) (d : Document) (value : Document) : Result Document := do
  let items ← d.elements m
  return .list d.label (items ++ [value])

/-- Takes the element at an index away. -/
def withoutElement (m : Model) (d : Document) (index : Nat) : Result Document := do
  let items ← d.elements m
  if items.length ≤ index then throw (.indexOutOfBounds index items.length)
  return .list d.label (items.eraseIdx index)

end Document
end ShapeCodec
