import ShapeCodec.Reader.Document
import ShapeCodec.Typed.Basic

/-!
# Reading typed values

Reads a value of a type under a schema. Fields and variants are found by the places of members.
A field whose member is absent takes the member's default, if it has one; only fields that may be
missing are left out, and only if the member is not required.
-/

namespace ShapeCodec.Typed

/-- What every step of reading depends on. -/
structure Scope extends ShapeCodec.Scope where
  types : Table

/-! ### Absent members -/

/-- Reads a document, which stands in for an absent member, as a value of a type. -/
abbrev Standin :=
  ValueType → SchemaRef → Document → Result Value

/-- The value of a member: the one read, else the one its default stands for. -/
def resolveDefault (m : Model) (standin : Standin) (type : ValueType) (member : SchemaRef)
    (value : Option Value) : Result (Option Value) :=
  match value, (m.traits member).default with
  | some v, _ => .ok (some v)
  | none, none => .ok none
  | none, some d =>
    if d.isNull then .ok none else (standin type member (.ofDefault d)).map some

/-- The value of a member that cannot be missing. -/
def requiredOrDefault (m : Model) (standin : Standin) (type : ValueType)
    (member container : SchemaRef) (value : Option Value) : Result Value := do
  match ← resolveDefault m standin type member value with
  | some v => return v
  | none => throw (m.missingMember member container)

/-- The value of a member that may be missing unless it is required. -/
def optionalOrDefault (m : Model) (standin : Standin) (type : ValueType)
    (member container : SchemaRef) (value : Option Value) : Result (Option Value) :=
  match value, (m.traits member).required with
  | some v, _ => .ok (some v)
  | none, false => .ok none
  | none, true => (requiredOrDefault m standin type member container none).map some

/-- The error about a tag, word or number that is not known. -/
def unknownVariant (m : Model) (schema : SchemaRef) (tag : String) : Error :=
  .unknownVariant (m.shapeId schema) tag

/-! ### Reading nodes -/

open ShapeCodec.Tree (Parts Visited)

/-- Makes a value of a type, at a depth and under a schema. -/
abbrev ValueReader :=
  (type : ValueType) → (depth : Nat) → (schema : SchemaRef) → Result Value

/-- The value at hand. -/
abbrev Node (Label Leaf : Type) :=
  Visited Label Leaf ValueReader

section

variable {Label Leaf : Type} (src : Source Label Leaf) (s : Scope) (standin : Standin)

/-- Reads the members that belong to fields, with the places of the fields. -/
def readSlots (fields : List (Field ValueType)) (depth : Nat) :
    List (SchemaRef × Node Label Leaf) → Result (List (Nat × Value))
  | [] => .ok []
  | (member, v) :: rest => do
    let index ← s.model.expectMemberIndex member
    match fields[index]? with
    | none => readSlots fields depth rest
    | some field =>
      let value ← v.result field.type.present depth member
      return (index, value) :: (← readSlots fields depth rest)

/-- The value read for a place; the last one counts. -/
def slot? (index : Nat) (slots : List (Nat × Value)) : Option Value :=
  (slots.reverse.find? (·.1 == index)).map Prod.snd

/-- The value of a field, from what was read for it. -/
def buildField (schema member : SchemaRef) (field : Field ValueType) (value : Option Value) :
    Result Value :=
  match field.type with
  | .option type =>
    (optionalOrDefault s.model standin type member schema value).map Value.ofOption
  | type => requiredOrDefault s.model standin type member schema value

/-- The values of the fields from a place on. -/
def buildFields (schema : SchemaRef) (slots : List (Nat × Value)) :
    (index : Nat) → List (Field ValueType) → Result (List Value)
  | _, [] => .ok []
  | index, field :: fields => do
    let member ← s.model.memberAt schema index
    let value ← buildField s standin schema member field (slot? index slots)
    return value :: (← buildFields schema slots (index + 1) fields)

/-- Reads the elements of a list up to the first error. -/
def readItems (type : ValueType) (depth : Nat) (member : SchemaRef) :
    List (Result (Node Label Leaf)) → Result (List Value)
  | [] => .ok []
  | item :: rest => do
    let value ← (← item).result type depth member
    return value :: (← readItems type depth member rest)

/-- Reads the entries of a map up to the first error. -/
def readEntries (sorted : Bool) (type : ValueType) (depth : Nat) (member : SchemaRef)
    (read : Entries Value) : List (Result (String × Node Label Leaf)) → Result (Entries Value)
  | [] => .ok read
  | entry :: rest => do
    let (key, v) ← entry
    let value ← v.result type depth member
    readEntries sorted type depth member (Value.insertEntry sorted key value read) rest

/-- Reads a record. -/
def readRecord (type : Nat) (fields : List (Field ValueType)) (depth : Nat) (schema : SchemaRef)
    (node : Parts Label Leaf ValueReader) : Result Value := do
  let present ← src.openStructure s.toScope depth schema node
  let slots ← readSlots s fields (depth + 1) present
  return .record type (← buildFields s standin schema slots 0 fields)

/-- Reads a union. -/
def readUnion (type : Nat) (variants : List (Field ValueType)) (keepsUnknown : Bool) (depth : Nat)
    (schema : SchemaRef) (node : Parts Label Leaf ValueReader) : Result Value := do
  match ← src.openUnion s.toScope depth schema node with
  | .known member v =>
    let index ← s.model.expectMemberIndex member
    match variants[index]? with
    | some variant => return .variant type index (← v.result variant.type (depth + 1) member)
    | none =>
      throw (.invalidSchema s!"{(s.model.id schema).text} has no union member at {index}")
  | .unknown tag _ =>
    if keepsUnknown then return .unknown type (.string tag)
    else throw (unknownVariant s.model schema tag)

/-- The text of a scalar that names a member of an enumeration. -/
def constantText : Scalar → String
  | .string text => text
  | .integer _ n => toString n.value
  | other => other.inspect

/-- The member of an enumeration with a value, else the unknown one. -/
def readConstant {α : Type} (type : Nat) (constants : List (Constant α)) (keepsUnknown : Bool)
    (schema : SchemaRef) (matching : α → Bool) (value : Scalar) : Result Value :=
  match constants.findIdx? fun c => matching c.value with
  | some index => .ok (.constant type index)
  | none =>
    if keepsUnknown then .ok (.unknown type value)
    else .error (unknownVariant s.model schema (constantText value))

/-- Reads a value of a declared type. -/
def readDeclared (type : Nat) (depth : Nat) (schema : SchemaRef)
    (node : Parts Label Leaf ValueReader) : Result Value :=
  match (s.types.get type).body with
  | .record fields => readRecord src s standin type fields depth schema node
  | .union variants unknown => readUnion src s type variants unknown.isSome depth schema node
  | .words constants unknown => do
    let value ← src.scalar .string schema node.tree
    readConstant s type constants unknown.isSome schema (fun w => Scalar.string w == value) value
  | .numbers constants unknown => do
    let value ← src.scalar (.integer .integer) schema node.tree
    readConstant s type constants unknown.isSome schema
      (fun n => Scalar.integer .integer n == value) value

/-- Reads a node. -/
def readNode (node : Parts Label Leaf ValueReader) : ValueReader
  | .scalar type, _, schema => (src.scalar type schema node.tree).map .scalar
  | .document, depth, schema =>
    (ShapeCodec.Reader.documentAt src s.toScope node.tree depth schema).map .document
  | .list element, depth, schema => do
    let member ← s.model.listMember schema
    let items ← src.openList s.toScope depth schema node
    return .list (← readItems element (depth + 1) member items)
  | .map sorted value, depth, schema => do
    let member ← s.model.mapValue schema
    let entries ← src.openMap s.toScope depth schema node
    return .map (← readEntries sorted value (depth + 1) member [] entries)
  | .option type, depth, schema =>
    match node with
    | .null _ => .ok .missing
    | node => (readNode node type depth schema).map .present
  | .named type, depth, schema => readDeclared src s standin type depth schema node

theorem readNode_scalar (node : Parts Label Leaf ValueReader) (type : ScalarType) (depth : Nat)
    (schema : SchemaRef) : readNode src s standin node (.scalar type) depth schema =
      (src.scalar type schema node.tree).map .scalar := by
  rw [readNode]

theorem readNode_named (node : Parts Label Leaf ValueReader) (type : Nat) (depth : Nat)
    (schema : SchemaRef) : readNode src s standin node (.named type) depth schema =
      readDeclared src s standin type depth schema node := by
  rw [readNode]

/-- Reads a value of a type, given how defaults are read. -/
def valueWith (t : Tree Label Leaf) : ValueReader :=
  t.walk (.ofParts (readNode src s standin))

end

/-- Reads a value of a type out of a document that a program made. -/
def standinWith (m : Model) (types : Table) (standin : Standin) : Standin :=
  fun type schema d =>
    valueWith (Document.source m) { model := m, config := {}, types } standin d type 0 schema

/--
Reads defaults, which may lead to defaults of other types. Only records under declared shapes have
defaults to go on to, and one that leads back to itself has no value, so as many steps are enough as
there are records to be read under shapes.
-/
def standinAt (m : Model) (types : Table) : (fuel : Nat) → Standin
  | 0 => fun _ schema _ =>
    .error (.invalidSchema s!"the default of {(m.id schema).text} leads back to itself")
  | fuel + 1 => standinWith m types (standinAt m types fuel)

/-- How defaults are read. -/
def standin (m : Model) (types : Table) : Standin :=
  standinAt m types (types.size * m.shapes.size + 1)

/-- Reads a value of a type under a schema. -/
def read {Label Leaf : Type} (src : Source Label Leaf) (s : Scope) (type : ValueType)
    (schema : SchemaRef) (t : Tree Label Leaf) : Result Value :=
  valueWith src s (standin s.model s.types) t type 0 schema

end ShapeCodec.Typed
