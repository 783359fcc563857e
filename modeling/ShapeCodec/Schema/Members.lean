import ShapeCodec.Error
import ShapeCodec.Schema.Basic

/-!
# Members

The views of a shape's members: by place, by name, and by the key they have on the wire. A member
schema shows the members of the shape that it targets. When two members share a name or a key, the
later one is found.
-/

namespace ShapeCodec.Model

variable (m : Model)

/-- The key of the shape whose members a schema shows; a member that targets a member shows none. -/
def table? (schema : SchemaRef) : Option ShapeKey :=
  match m.described schema with
  | .shape key => some key
  | .member .. => none

/-- The declarations that a schema shows, in order. -/
def declarations (schema : SchemaRef) : List Member :=
  match m.table? schema with
  | some key => (m.shape key).memberList
  | none => []

/-- The member schemas that a schema shows, in order. -/
def members (schema : SchemaRef) : List SchemaRef :=
  match m.table? schema with
  | some key => (List.range (m.shape key).memberList.length).map (.member key)
  | none => []

/-- The place of the member with a name. -/
def memberIndexOf? (schema : SchemaRef) (name : String) : Option Nat :=
  lastIndex? (·.name == name) (m.declarations schema)

/-- The member at a place, when the schema has one there. -/
def memberAt? (schema : SchemaRef) (index : Nat) : Option SchemaRef :=
  match m.table? schema with
  | some key => if index < (m.shape key).memberList.length then some (.member key index) else none
  | none => none

/-- The member with a name. -/
def member? (schema : SchemaRef) (name : String) : Option SchemaRef :=
  (m.memberIndexOf? schema name).bind (m.memberAt? schema)

/-- The member with a key on the wire. -/
def memberByWireName? (schema : SchemaRef) (key : String) : Option SchemaRef :=
  (lastIndex? (·.wireName == key) (m.declarations schema)).bind (m.memberAt? schema)

/-- The declaration behind a member schema. -/
def declarationOf? : SchemaRef → Option Member
  | .shape _ => none
  | .member container index => m.declaration? container index

/-- The name of a member schema. -/
def memberName? (schema : SchemaRef) : Option String :=
  (m.declarationOf? schema).map Member.name

/-- The wire key of a schema: the one its traits set, else the name of the member. -/
def wireName? (schema : SchemaRef) : Option String :=
  match (m.traits schema).jsonName with
  | some key => some key
  | none => m.memberName? schema

/-- The schema with a name, which may go on to a member after each `$`. -/
def find? (name : String) : Option SchemaRef :=
  search (name.toList.count '$') name
where
  /-- Looks a name up, cutting members off its end at most `fuel` times. -/
  search : (fuel : Nat) → String → Option SchemaRef
    | fuel, name =>
      match m.named? name, fuel with
      | some schema, _ => some schema
      | none, 0 => none
      | none, fuel + 1 =>
        match cutMember? name with
        | none => none
        | some (left, member) => (search fuel left).bind fun schema => m.member? schema member

/-! ### Members that have to be there -/

/-- The place of a member schema. -/
def expectMemberIndex (schema : SchemaRef) : Result Nat :=
  match schema.memberIndex? with
  | some index => .ok index
  | none => .error (.invalidSchema s!"{(m.id schema).text} is not a member schema")

/-- The member at a place. -/
def memberAt (schema : SchemaRef) (index : Nat) : Result SchemaRef :=
  match m.memberAt? schema index with
  | some member => .ok member
  | none =>
    .error (.invalidSchema
      s!"{(m.id schema).text} has no member at index {index} ({(m.members schema).length} members)")

/-- The member with a name, which has to exist. -/
def expectMember (schema : SchemaRef) (name : String) : Result SchemaRef :=
  match m.member? schema name with
  | some member => .ok member
  | none => .error (.invalidSchema s!"{(m.id schema).text} has no member `{name}`")

/-- Checks that a schema is of a type. -/
def expectType (schema : SchemaRef) (type : ShapeType) : Result Unit :=
  let actual := m.typeOf schema
  if actual = type then .ok () else .error (.typeMismatch type.keyword actual.keyword)

/-- The schema of the elements of a list. -/
def listMember (schema : SchemaRef) : Result SchemaRef := do
  m.expectType schema .list
  m.memberAt schema 0

/-- The schema of the keys of a map. -/
def mapKey (schema : SchemaRef) : Result SchemaRef := do
  m.expectType schema .map
  m.memberAt schema 0

/-- The schema of the values of a map. -/
def mapValue (schema : SchemaRef) : Result SchemaRef := do
  m.expectType schema .map
  m.memberAt schema 1

/-! ### Traits of a member or of its target -/

/-- A trait that holds when the schema or its target has it. -/
def hasTrait (trait : Traits → Bool) (schema : SchemaRef) : Bool :=
  trait (m.traits schema) || (m.target? schema).any fun t => trait (m.traits t)

/-- A trait of the schema, or else of its target. -/
def findTrait {α : Type} (trait : Traits → Option α) (schema : SchemaRef) : Option α :=
  (trait (m.traits schema)).or ((m.target? schema).bind fun t => trait (m.traits t))

/-- Whether values are hidden when they are shown. -/
def isSensitive (schema : SchemaRef) : Bool :=
  m.hasTrait Traits.sensitive schema

/-- Whether a collection keeps its nulls. -/
def isSparse (schema : SchemaRef) : Bool :=
  m.hasTrait Traits.sparse schema

def timestampFormat? (schema : SchemaRef) : Option TimestampFormat :=
  m.findTrait Traits.timestampFormat schema

def errorFault? (schema : SchemaRef) : Option ErrorFault :=
  m.findTrait Traits.error schema

end ShapeCodec.Model
