import ShapeCodec.Document.Update
import ShapeCodec.Reader.Traversal

/-!
# Reading documents

Reads a document under a schema: every node gets the schema it was read under, members that have to
be there are checked, and values without a schema are taken as they are.
-/

namespace ShapeCodec

namespace Reader

open ShapeCodec.Tree (Parts Visited)

variable {Label Leaf : Type} (src : Source Label Leaf) (s : Scope)

/-- Makes a document at a depth and under a schema. -/
abbrev DocumentReader :=
  (depth : Nat) → (schema : SchemaRef) → Result Document

/-- The document of a value at hand. -/
abbrev Node (Label Leaf : Type) :=
  Visited Label Leaf DocumentReader

/-- Reads members one after the other, keyed by their names. -/
def readMembers (depth : Nat) (read : Entries Document) :
    List (SchemaRef × Node Label Leaf) → Result (Entries Document)
  | [] => .ok read
  | (member, v) :: rest => do
    let d ← v.result depth member
    readMembers depth (read.insert ((s.model.memberName? member).getD "") d) rest

/-- Reads the elements of a list up to the first error. -/
def readItems (depth : Nat) (member : SchemaRef) :
    List (Result (Node Label Leaf)) → Result (List Document)
  | [] => .ok []
  | item :: rest => do
    let d ← (← item).result depth member
    return d :: (← readItems depth member rest)

/-- Reads the entries of a map up to the first error. -/
def readEntries (depth : Nat) (member : SchemaRef) (read : Entries Document) :
    List (Result (String × Node Label Leaf)) → Result (Entries Document)
  | [] => .ok read
  | entry :: rest => do
    let (key, v) ← entry
    let d ← v.result depth member
    readEntries depth member (read.insert key d) rest

/-- The members of a structure. -/
def readStructure (depth : Nat) (schema : SchemaRef) (node : Parts Label Leaf DocumentReader) :
    Result (Entries Document) := do
  let present ← src.openStructure s depth schema node
  let entries ← readMembers s (depth + 1) [] present
  s.model.checkRequired schema entries.contains
  return entries

/-- The one member of a union; one that is not known keeps its tag. -/
def readUnion (depth : Nat) (schema : SchemaRef) (node : Parts Label Leaf DocumentReader) :
    Result (Entries Document) := do
  match ← src.openUnion s depth schema node with
  | .known member v => readMembers s (depth + 1) [] [(member, v)]
  | .unknown tag v => return [(tag, src.untyped v.tree)]

/-- Reads a node that is not null. -/
def readValue (node : Parts Label Leaf DocumentReader) : DocumentReader := fun depth schema =>
  match (s.model.typeOf schema).form with
  | .document => .ok (src.untyped node.tree)
  | .structure => do return .map { schema } (← readStructure src s depth schema node)
  | .union => do return .map { schema } (← readUnion src s depth schema node)
  | .list => do
    let member ← s.model.listMember schema
    let items ← src.openList s depth schema node
    return .list { schema } (← readItems (depth + 1) member items)
  | .map => do
    let member ← s.model.mapValue schema
    let entries ← src.openMap s depth schema node
    return .map { schema } (← readEntries (depth + 1) member [] entries)
  | .scalar type => do return .leaf { schema } (← src.scalar type schema node.tree)

/-- Reads a node; a null stays one under any schema. -/
def readNode (node : Parts Label Leaf DocumentReader) : DocumentReader := fun depth schema =>
  match node with
  | .null _ => .ok (.null { schema })
  | node => readValue src s node depth schema

/-- Reads a document at a depth and under a schema. -/
def documentAt (t : Tree Label Leaf) : DocumentReader :=
  t.walk (.ofParts (readNode src s))

/-- Reads a document under a schema. -/
def document (schema : SchemaRef) (t : Tree Label Leaf) : Result Document :=
  documentAt src s t 0 schema

end Reader

/-- The document that a document holds under another schema. -/
def Document.readAs (m : Model) (config : Config) (schema : SchemaRef) (d : Document) :
    Result Document :=
  Reader.document (Document.source m) { model := m, config } schema d

end ShapeCodec
