import ShapeCodec.Document.Access
import ShapeCodec.Json.Untyped

/-!
# Sources

Values are read from JSON or from documents. A source says where the two differ: how members are
found, how scalars are read, and what things are called in messages. Everything else about reading
is the same for both and written once.
-/

namespace ShapeCodec

/-- What there is to know about a kind of input in order to read values from it. -/
structure Source (Label Leaf : Type) where
  /-- The word for the kind of container, or of anything else, that was found. -/
  kind : Tree Label Leaf → String
  /-- The word for what is found where a null is needed. -/
  kindForNull : Tree Label Leaf → String
  /-- What is asked for where a structure is read under a schema of the given type. -/
  structureType : ShapeType → ShapeType
  /-- What is asked for where a union is read. -/
  unionType : ShapeType
  /-- The member of a schema that a key stands for. -/
  member? : SchemaRef → String → Option SchemaRef
  /-- Keys that do not count as the member of a union. -/
  ignoresKey : String → Bool
  /-- A scalar under a schema. -/
  scalar : ScalarType → SchemaRef → Tree Label Leaf → Result Scalar
  /-- The value as a document of its own. -/
  untyped : Tree Label Leaf → Document

/-- The member that a key stands for, by wire key or by name. -/
def Model.memberByKey? (m : Model) (wireNames : Bool) (schema : SchemaRef) (key : String) :
    Option SchemaRef :=
  if wireNames then m.memberByWireName? schema key else m.member? schema key

/-- Reads from JSON. Members go by their wire keys or, if `wireNames` is off, by their names. -/
def Json.source (m : Model) (c : Config) (wireNames : Bool) : Source Unit Json.Leaf where
  kind := Json.kind
  kindForNull := Json.kind
  structureType := id
  unionType := .union
  member? := m.memberByKey? wireNames
  ignoresKey := fun key => key == Json.typeKey
  scalar := fun type schema j => Json.readScalar (c.timestampFormatFor m schema) type j
  untyped := Json.toDocument

/-- A scalar of a document; seconds are read as timestamps too. -/
def Document.readScalar (m : Model) (type : ScalarType) (d : Document) : Result Scalar :=
  match type with
  | .timestamp => (d.asInstant m).map .timestamp
  | type => d.asScalar type

/-- Reads from documents, whose members go by their names. -/
def Document.source (m : Model) : Source Label Scalar where
  kind := Document.kind
  kindForNull := fun d => (Document.shapeType m d).keyword
  structureType := fun _ => .map
  unionType := .map
  member? := m.member?
  ignoresKey := fun _ => false
  scalar := fun type _ d => Document.readScalar m type d
  untyped := id

end ShapeCodec
