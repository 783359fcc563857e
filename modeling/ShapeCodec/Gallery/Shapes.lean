import ShapeCodec.Schema.Layout

/-!
# A gallery of shapes

Shapes that between them have every kind of container, every trait, every kind of default and both
kinds of recursion, under ids of their own. They are the ground that concrete facts about the
library stand on.
-/

namespace ShapeCodec.Gallery

/-- What a member of the gallery refers to, before keys have been given out. -/
inductive Pointer where
  | prelude (shape : PreludeShape)
  /-- A shape that comes earlier. -/
  | shape (id : String)
  /-- A shape that may come later, looked up when it is used. -/
  | later (id : String)

def scalar (type : ScalarType) : Pointer :=
  .prelude (.scalar type)

def text : Pointer :=
  scalar .string

def number : Pointer :=
  scalar (.integer .integer)

/-- A member as it is put down. -/
structure Part where
  name : String
  target : Pointer
  traits : Traits := {}

/-- A shape as it is put down. -/
structure Exhibit where
  id : String
  type : ShapeType
  parts : List Part := []
  traits : Traits := {}

/-- The trait of members that have to be present. -/
def required : Traits :=
  { required := true }

/-- The trait of members that something stands in for. -/
def standsIn (value : Default) : Traits :=
  { default := some value }

/-- The default that is a whole number. -/
def whole (n : Int) (h : IntWidth.long.fits n = true := by decide) : Default :=
  .integer ⟨n, h⟩

def listOf (id : String) (element : Pointer) (traits : Traits := {}) : Exhibit :=
  { id, type := .list, parts := [⟨"member", element, {}⟩], traits }

def mapOf (id : String) (value : Pointer) (traits : Traits := {}) : Exhibit :=
  { id, type := .map, parts := [⟨"key", text, {}⟩, ⟨"value", value, {}⟩], traits }

def structureOf (id : String) (parts : List Part) (traits : Traits := {}) : Exhibit :=
  { id, type := .structure, parts, traits }

def unionOf (id : String) (parts : List Part) : Exhibit :=
  { id, type := .union, parts }

def sparse : Traits :=
  { sparse := true }

def sensitive : Traits :=
  { sensitive := true }

/-- Lists and maps, dense and sparse. -/
def collections : List Exhibit :=
  [ listOf "t#Tags" text
  , listOf "t#SparseTags" text sparse
  , listOf "t#Numbers" number
  , listOf "t#SparseNumbers" number sparse
  , listOf "t#Matrix" (.shape "t#Numbers")
  , mapOf "t#Labels" text
  , mapOf "t#SparseLabels" text sparse
  , mapOf "t#Counts" number ]

/-- Enumerations, whose constants are up to the types bound to them. -/
def enumerations : List Exhibit :=
  [ { id := "t#Color", type := .enum }
  , { id := "t#StrictColor", type := .enum }
  , { id := "t#Level", type := .intEnum }
  , { id := "t#StrictLevel", type := .intEnum } ]

/-- Structures and unions of members with traits. -/
def records : List Exhibit :=
  [ structureOf "t#Widget"
      [ ⟨"name", text, { required := true, jsonName := some "widgetName" }⟩
      , ⟨"count", number, standsIn (whole 1)⟩
      , ⟨"tags", .shape "t#Tags", {}⟩
      , ⟨"color", .shape "t#Color", standsIn (.string "red")⟩
      , ⟨"level", .shape "t#Level", {}⟩
      , ⟨"secret", text, sensitive⟩ ]
  , unionOf "t#Choice"
      [ ⟨"text", text, {}⟩
      , ⟨"number", number, { jsonName := some "num" }⟩
      , ⟨"widget", .shape "t#Widget", {}⟩
      , ⟨"unit", .prelude .unit, {}⟩
      , ⟨"extra", scalar (.integer .long), {}⟩ ]
  , unionOf "t#StrictChoice" [⟨"text", text, {}⟩, ⟨"tags", .shape "t#Tags", {}⟩]
  , structureOf "t#Event"
      [ ⟨"at", scalar .timestamp, required⟩
      , ⟨"stamped", scalar .timestamp, { timestampFormat := some .dateTime }⟩
      , ⟨"http", scalar .timestamp, { timestampFormat := some .httpDate }⟩
      , ⟨"payload", scalar .blob, {}⟩ ]
  , structureOf "t#Note"
      [ ⟨"title", text, required⟩
      , ⟨"body", text, {}⟩
      , ⟨"priority", number, { required := true, default := some (whole 7) }⟩
      , ⟨"nothing", text, standsIn .null⟩ ]
  , structureOf "t#Bag"
      [ ⟨"numbers", .shape "t#Numbers", {}⟩
      , ⟨"sparseNumbers", .shape "t#SparseNumbers", {}⟩
      , ⟨"labels", .shape "t#Labels", {}⟩
      , ⟨"sparseLabels", .shape "t#SparseLabels", {}⟩
      , ⟨"counts", .shape "t#Counts", {}⟩ ]
  , structureOf "t#Scalars"
      [ ⟨"flag", scalar .boolean, standsIn (.boolean true)⟩
      , ⟨"b", scalar (.integer .byte), standsIn (whole (-128))⟩
      , ⟨"s", scalar (.integer .short), standsIn (whole 40000)⟩
      , ⟨"l", scalar (.integer .long), standsIn (whole (-9223372036854775808))⟩
      , ⟨"big", scalar (.integer .big), standsIn (whole 12)⟩
      , ⟨"f", scalar .float, standsIn (.float (.ofBits .double 0x3fb999999999999a))⟩
      , ⟨"d", scalar .double, standsIn (whole 3)⟩
      , ⟨"dec", scalar .bigDecimal, standsIn (.float (.ofBits .double 0x4004000000000000))⟩
      , ⟨"blob", scalar .blob, standsIn (.blob [0x68, 0x69])⟩
      , ⟨"at", scalar .timestamp, standsIn (.float (.ofBits .double 0xbff4000000000000))⟩
      , ⟨"tags", .shape "t#Tags", standsIn .emptyList⟩
      , ⟨"labels", .shape "t#Labels", standsIn .emptyMap⟩
      , ⟨"doc", .prelude .document, standsIn (.string "dd")⟩ ] ]

/-- Shapes that hold themselves, directly and through a list. -/
def recursive : List Exhibit :=
  [ structureOf "t#Node" [⟨"value", number, required⟩, ⟨"next", .later "t#Node", {}⟩]
  , structureOf "t#Tree" [⟨"label", text, required⟩, ⟨"children", .later "t#Forest", {}⟩]
  , listOf "t#Forest" (.later "t#Tree") ]

/-- An error, and values that are hidden when they are shown. -/
def others : List Exhibit :=
  [ structureOf "t#Gadget" [⟨"serial", scalar (.integer .long), required⟩]
  , unionOf "t#Part" [⟨"widget", .shape "t#Widget", {}⟩, ⟨"gadget", .shape "t#Gadget", {}⟩]
  , structureOf "t#Fault" [⟨"type", text, required⟩, ⟨"cause", .prelude .document, sensitive⟩]
      { error := some .server }
  , structureOf "t#ShortPair" [⟨"a", text, {}⟩]
  , structureOf "t#LongPair" [⟨"a", text, {}⟩, ⟨"b", text, {}⟩, ⟨"c", text, {}⟩]
  , listOf "t#Secret" text sensitive
  , structureOf "t#Vault"
      [⟨"codes", .shape "t#Secret", {}⟩, ⟨"open", scalar .boolean, required⟩] ]

/-- Every shape of the gallery; a shape comes after those that its members point to. -/
def exhibits : List Exhibit :=
  collections ++ enumerations ++ records ++ recursive ++ others

/--
The name that later shapes are looked up by. It is not the id, so that giving the id to another
shape leaves the gallery as it is.
-/
def laterName (id : String) : String :=
  "\x00" ++ id

/-- The schema with an id in a model. -/
def schema (m : Model) (id : String) : SchemaRef :=
  (m.named? id).getD default

/-- The target that a pointer stands for. -/
def Pointer.target (m : Model) : Pointer → Target
  | prelude p => .resolved (.prelude p)
  | shape id => .resolved (schema m id)
  | later id => .deferred (laterName id)

/-- Adds a shape to a model under its id. -/
def Exhibit.addTo (m : Model) (e : Exhibit) : Model :=
  let members := e.parts.map fun p =>
    { name := p.name, target := p.target.target m, traits := p.traits : Member }
  let (made, m) := m.build ⟨e.id⟩ e.type e.traits members
  (m.bind e.id made).bind (laterName e.id) made

/-- The model of the whole gallery. -/
def model : Model :=
  exhibits.foldl Exhibit.addTo {}

end ShapeCodec.Gallery
