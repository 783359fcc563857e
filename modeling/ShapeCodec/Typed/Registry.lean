import ShapeCodec.Typed.Codec
import ShapeCodec.Typed.Inspect

/-!
# Type registries

Types by the ids of their schemas, for values whose type is only known from the input. Registries
nest: an id that a registry does not know is looked up in its parent.
-/

namespace ShapeCodec.Typed

/-- A type that values can be read as. Types are told apart by their names. -/
structure Registered where
  name : String
  type : ValueType
  schema : SchemaRef
deriving DecidableEq, Repr

/-- The text that shows a registered type. -/
def Registered.inspect (m : Model) (r : Registered) : String :=
  "TypeEntry \x7b schema: ShapeId(" ++ Text.quote (m.id r.schema).text ++ "), type_name: "
    ++ Text.quote r.name ++ " \x7d"

/-- A registry and its parents, the nearest first. -/
structure TypeRegistry where
  levels : List (Entries Registered) := []

namespace TypeRegistry

/-- A registry without types of its own on top of another. -/
def extend (r : TypeRegistry) : TypeRegistry :=
  ⟨[] :: r.levels⟩

/-- Registers a type; the last type with an id is the one that counts. -/
def register (m : Model) (entry : Registered) (r : TypeRegistry) : TypeRegistry :=
  match r.levels with
  | [] => ⟨[Entries.insert (m.id entry.schema).text entry []]⟩
  | level :: parents => ⟨level.insert (m.id entry.schema).text entry :: parents⟩

/-- The number of types of the registry itself. -/
def size (r : TypeRegistry) : Nat :=
  match r.levels with
  | [] => 0
  | level :: _ => level.length

/-- The registry that lookups go on to. -/
def parent? (r : TypeRegistry) : Option TypeRegistry :=
  match r.levels with
  | _ :: parent :: rest => some ⟨parent :: rest⟩
  | _ => none

/-- The type with an id in the nearest level that has one. -/
def find? (id : ShapeId) (r : TypeRegistry) : Option Registered :=
  r.levels.findSome? fun level => level.find? id.text

def get (id : ShapeId) (r : TypeRegistry) : Result Registered :=
  match r.find? id with
  | some entry => .ok entry
  | none => .error (.unknownType id)

/-- Whether a type with an id is found. -/
def contains (id : ShapeId) (r : TypeRegistry) : Bool :=
  (r.get id).isOk

end TypeRegistry

/-- A value together with the type it was read as. -/
structure Dynamic where
  entry : Registered
  value : Value

namespace Dynamic

/-- The calls that write a value under the schema of its type. -/
def calls (m : Model) (types : Table) (d : Dynamic) : Call :=
  d.value.calls m types d.entry.schema

/-- The text of a value that names its type. -/
def encode (c : Codec) (m : Model) (types : Table) (d : Dynamic) : Result String :=
  (c.toJson m (d.calls m types)).map fun j => c.print (j.wrap m d.entry.schema)

end Dynamic

namespace TypeRegistry

/-- Reads a value as the type with an id. -/
def readAs {Label Leaf : Type} (r : TypeRegistry) (src : Source Label Leaf) (s : Scope)
    (id : ShapeId) (t : Tree Label Leaf) : Result Dynamic := do
  let entry ← r.get id
  return { entry, value := ← read src s entry.type entry.schema t }

/-- Reads a document as the type with an id. -/
def ofDocumentAs (r : TypeRegistry) (m : Model) (types : Table) (id : ShapeId) (d : Document) :
    Result Dynamic :=
  r.readAs (Document.source m) { model := m, config := {}, types } id d

/-- Reads a document as the type that its discriminator names. -/
def ofDocument (r : TypeRegistry) (m : Model) (types : Table) (d : Document) : Result Dynamic :=
  r.ofDocumentAs m types (d.discriminator m) d

/-- Reads a document as a type that the caller expects. -/
def expect (r : TypeRegistry) (m : Model) (types : Table) (name : String) (d : Document) :
    Result Value := do
  let found ← r.ofDocument m types d
  if found.entry.name = name then return found.value
  else throw (.typeMismatch name (m.id found.entry.schema).text)

/-- Reads a text as the type that it names. -/
def decode (r : TypeRegistry) (c : Codec) (m : Model) (types : Table) (bytes : Bytes) :
    Result Dynamic := do
  let parsed ← c.decodeDocument bytes
  match parsed.typeTag with
  | none => throw (.deserialization "JSON document has no `__type` discriminator")
  | some id =>
    r.readAs (parsed.source m) { model := m, config := c.config, types } id parsed.payload

end TypeRegistry
end ShapeCodec.Typed
