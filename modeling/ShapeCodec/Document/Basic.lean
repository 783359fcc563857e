import ShapeCodec.Schema.Members
import ShapeCodec.Tree

/-!
# Documents

A document is a value that describes itself: a tree whose nodes carry the schema they were made
under, and sometimes the id of the type that they stand for. Documents with the same values are
equal whatever they are labelled with.
-/

namespace ShapeCodec

/-- What a node of a document carries besides its value. -/
structure Label where
  schema : SchemaRef
  /-- The id of the type the node stands for, when it is not the one of its schema. -/
  discriminator : Option ShapeId := none
deriving DecidableEq, Repr, Inhabited

/-- A value that describes itself. -/
abbrev Document := Tree Label Scalar

namespace Document

/-- The schema of a document. -/
def schema (d : Document) : SchemaRef :=
  d.label.schema

/-- The null that no schema describes. -/
def plainNull : Document :=
  Tree.null { schema := .prelude .document }

/-- A scalar under the schema of its type. -/
def ofScalar (s : Scalar) : Document :=
  .leaf { schema := .scalar s.type } s

def ofString (s : String) : Document :=
  ofScalar (.string s)

/-- A list of documents of any kind. -/
def ofList (items : List Document) : Document :=
  .list { schema := .prelude .documentList } items

/-- A map of documents of any kind. -/
def ofEntries (entries : Entries Document) : Document :=
  .map { schema := .prelude .documentMap } entries

/-- The same value under another schema. -/
def withSchema (s : SchemaRef) (d : Document) : Document :=
  d.relabel { d.label with schema := s }

/-- The same document, standing for the type with an id. -/
def withDiscriminator (id : ShapeId) (d : Document) : Document :=
  d.relabel { d.label with discriminator := some id }

/-- The value alone, under a schema. -/
def retype (s : SchemaRef) (d : Document) : Document :=
  d.relabel { schema := s }

/-- The shape type that naturally describes the value. -/
def valueType : Document → ShapeType
  | .null _ => .document
  | .leaf _ s => s.shapeType
  | .list .. => .list
  | .map .. => .map

/-- The word for the kind of value. -/
def kind : Document → String
  | .null _ => "null"
  | d => (valueType d).keyword

/-- The shape type of the schema; where that allows anything, the one of the value. -/
def shapeType (m : Model) (d : Document) : ShapeType :=
  match m.typeOf d.schema with
  | .document => d.valueType
  | type => type

/-- The id of the type a document stands for. -/
def discriminator (m : Model) (d : Document) : ShapeId :=
  d.label.discriminator.getD (m.shapeId d.schema)

/-- The document of a default. -/
def ofDefault : Default → Document
  | .null => plainNull
  | .boolean v => ofScalar (.boolean v)
  | .integer n => ofScalar (.integer .long n)
  | .float v => ofScalar (.double v)
  | .string v => ofString v
  | .blob v => ofScalar (.blob v)
  | .emptyList => ofList []
  | .emptyMap => ofEntries []

/-! ### Equality -/

/-- How each kind of node is compared with another document. -/
def sameWalk : Tree.Walk Label Scalar (Document → Bool) where
  null := fun _ other => other.isNull
  leaf := fun _ value other =>
    match other with
    | .leaf _ v => value.same v
    | _ => false
  list := fun _ items other =>
    match other with
    | .list _ others =>
      items.length == others.length && (items.zip others).all fun (i, o) => i.result o
    | _ => false
  map := fun _ entries other =>
    match other with
    | .map _ others => Entries.sameBy (fun e o => e.result o) entries others
    | _ => false

/-- Whether two documents hold the same values; the order of keys does not matter. -/
def same (a b : Document) : Bool :=
  a.walk sameWalk b

/-! ### Showing documents -/

/-- What is shown in place of a hidden value. -/
def redacted : String :=
  "*** Sensitive Data Redacted ***"

/-- The entries of a map between braces. -/
def braced (entries : Entries String) : String :=
  "\x7b" ++ ", ".intercalate (entries.map fun (k, v) => s!"{Text.quote k}: {v}") ++ "\x7d"

/-- How each kind of node is shown, unless its schema hides it. -/
def inspectWalk (m : Model) : Tree.Walk Label Scalar String where
  null := fun l => guarded l "Null"
  leaf := fun l s => guarded l s.inspect
  list := fun l items => guarded l (bracketed (items.map Tree.Visited.result))
  map := fun l entries => guarded l (braced (entries.map fun (k, v) => (k, v.result)))
where
  /-- The text of a node, or the notice that it is hidden. -/
  guarded (l : Label) (text : String) : String :=
    if m.isSensitive l.schema then redacted else text

/-- The text that shows a document. -/
def inspect (m : Model) (d : Document) : String :=
  d.walk (inspectWalk m)

end Document
end ShapeCodec
