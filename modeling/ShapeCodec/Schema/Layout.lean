import ShapeCodec.Schema.Members

/-!
# Layouts

Which members a shape may declare: a list has `member`, a map has `key` and `value` with keys that
are strings, the members of structures and unions have distinct names, and other shapes have no
members at all.
-/

namespace ShapeCodec

/-- The first element that occurs earlier in the list; `seen` is what came before. -/
def firstRepeated? {α : Type} [BEq α] (seen : List α) : List α → Option α
  | [] => none
  | x :: xs => if seen.contains x then some x else firstRepeated? (seen ++ [x]) xs

namespace Model

variable (m : Model)

/-- What is wrong with the target of a map's keys. A deferred target is not looked at. -/
def keyFault? : Target → Option String
  | .deferred _ => none
  | .resolved schema =>
    match m.typeOf schema with
    | .string | .enum => none
    | other => some s!"key must target a string or enum, not {other.keyword}"

/-- What is wrong with the members of a shape of the given type. -/
def layoutFault? (type : ShapeType) (members : List Member) : Option String :=
  match type with
  | .list =>
    match members with
    | [⟨"member", _, _⟩] => none
    | _ => some "must have exactly one member named `member`"
  | .map =>
    match members with
    | [⟨"key", key, _⟩, ⟨"value", _, _⟩] => m.keyFault? key
    | _ => some "must have members `key` and `value`"
  | .structure | .union =>
    (firstRepeated? [] (members.map Member.name)).map fun name =>
      s!"declares member `{name}` twice"
  | _ => if members.isEmpty then none else some "cannot declare members"

/-- Checks the members of a shape against its type. -/
def checkLayout (id : ShapeId) (type : ShapeType) (members : List Member) : Result Unit :=
  match m.layoutFault? type members with
  | none => .ok ()
  | some fault => .error (.invalidSchema s!"{type.keyword} {id.text} {fault}")

/-! ### Declaring shapes -/

/-- Adds a shape, returning its schema. -/
def declare (shape : Shape) : SchemaRef × Model :=
  (.shape (.declared m.shapes.size), { m with shapes := m.shapes.push shape })

/-- Adds a shape whose members are filled in later. -/
def declarePlaceholder (id : ShapeId) (type : ShapeType) (traits : Traits) : SchemaRef × Model :=
  m.declare { id, type, traits }

/-- Adds a shape with its members, without looking at the layout. -/
def build (id : ShapeId) (type : ShapeType) (traits : Traits) (members : List Member) :
    SchemaRef × Model :=
  m.declare { id, type, traits, members := some members }

/-- Adds a shape whose members fit its type. -/
def buildChecked (id : ShapeId) (type : ShapeType) (traits : Traits) (members : List Member) :
    Result (SchemaRef × Model) := do
  m.checkLayout id type members
  return m.build id type traits members

/-- Whether the members of a schema have been filled in; a member schema has none to fill in. -/
def isFinalized : SchemaRef → Bool
  | .shape key => (m.shape key).members.isSome
  | .member .. => false

/-- Fills in the members of a placeholder, which can be done once. -/
def finalize (schema : SchemaRef) (members : List Member) : Result Model :=
  match schema with
  | .member .. =>
    .error (.invalidSchema s!"member schema {(m.id schema).text} cannot declare members")
  | .shape key => do
    let shape := m.shape key
    m.checkLayout shape.id shape.type members
    match shape.members, key with
    | none, .declared index =>
      return { m with shapes := m.shapes.setIfInBounds index { shape with members := some members } }
    | _, _ => throw (.invalidSchema s!"schema {shape.id.text} is already finalized")

/-- Gives a schema a name, in the place of any schema that had it. -/
def bind (name : String) (schema : SchemaRef) : Model :=
  { m with names := m.names.insert name schema }

end Model
end ShapeCodec
