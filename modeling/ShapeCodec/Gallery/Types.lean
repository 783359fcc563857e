import ShapeCodec.Gallery.Shapes
import ShapeCodec.Typed.Basic

/-!
# Types for the gallery

Declared types bound to the shapes of the gallery. Most fit their shapes; a few leave members out,
have one field too many, or have a field that the default of its member does not fit.
-/

namespace ShapeCodec.Gallery

open Typed (Body Constant Declaration Field Table ValueType)

/-- A declaration as it is put down: its own name, and the one that its values are shown with. -/
structure Entry where
  name : String
  shown : String
  shape : String
  body : Body ValueType

/-- A declaration whose values are shown with its name unless another one is given. -/
def entry (name shape : String) (body : Body ValueType) (shown : String := name) : Entry :=
  { name, shown, shape, body }

def string : ValueType := .string

def int : ValueType := .integer .integer

def optional (type : ValueType) : ValueType := .option type

def strings : ValueType := .list string

/-- A constant of an enumeration of numbers. -/
def constant (name : String) (n : Int) (h : IntWidth.integer.fits n = true := by decide) :
    Constant (Sized .integer) :=
  ⟨name, ⟨n, h⟩⟩

/-! ### The places of declarations that others refer to -/

def color : ValueType := .named 0

def level : ValueType := .named 3

def widget : ValueType := .named 4

def unit : ValueType := .named 6

def node : ValueType := .named 14

def tree : ValueType := .named 15

def gadget : ValueType := .named 16

/-! ### The declarations -/

/-- Every declaration, in the order of places. -/
def entries : List Entry :=
  [ entry "Color" "t#Color"
      (.words [⟨"Red", "red"⟩, ⟨"Green", "green"⟩, ⟨"Blue", "Blue"⟩] (some "Unknown"))
  , entry "StrictColor" "t#StrictColor"
      (.words [⟨"Red", "red"⟩, ⟨"Self_", "Self_"⟩, ⟨"Empty", ""⟩] none)
  , entry "StrictLevel" "t#StrictLevel" (.numbers [constant "Under" (-3), constant "Zero" 0] none)
  , entry "Level" "t#Level" (.numbers [constant "Low" 1, constant "High" 5] (some "Unknown"))
  , entry "Widget" "t#Widget" (.record
      [⟨"name", string⟩, ⟨"count", int⟩, ⟨"tags", optional strings⟩, ⟨"color", color⟩,
        ⟨"level", optional level⟩, ⟨"secret", optional string⟩])
  , entry "WidgetV2" "t#Widget" (.record
      [⟨"name", optional string⟩, ⟨"count", optional int⟩, ⟨"tags", .list (optional string)⟩])
  , entry "Unit" PreludeShape.unit.id.text (.record [])
  , entry "Choice" "t#Choice" (.union
      [⟨"Text", string⟩, ⟨"Number", int⟩, ⟨"Widget", widget⟩, ⟨"Unit", unit⟩] (some "Unknown"))
  , entry "StrictChoice" "t#StrictChoice" (.union [⟨"Text", string⟩, ⟨"Tags", strings⟩] none)
  , entry "Event" "t#Event" (.record
      [⟨"at", .scalar .timestamp⟩, ⟨"stamped", optional (.scalar .timestamp)⟩,
        ⟨"http", optional (.scalar .timestamp)⟩, ⟨"payload", optional (.scalar .blob)⟩])
  , entry "Note" "t#Note" (.record
      [⟨"title", optional string⟩, ⟨"body", optional string⟩, ⟨"priority", optional int⟩,
        ⟨"nothing", optional string⟩])
  , entry "Bag" "t#Bag" (.record
      [⟨"numbers", optional (.list int)⟩, ⟨"sparse_numbers", optional (.list (optional int))⟩,
        ⟨"labels", optional (.map false string)⟩,
        ⟨"sparse_labels", optional (.map false (optional string))⟩,
        ⟨"counts", optional (.map true int)⟩])
  , entry "Scalars" "t#Scalars" (.record
      [⟨"flag", .boolean⟩, ⟨"b", .integer .byte⟩, ⟨"s", optional (.integer .short)⟩,
        ⟨"l", .integer .long⟩, ⟨"big", .integer .big⟩, ⟨"f", .scalar .float⟩,
        ⟨"d", .scalar .double⟩, ⟨"dec", .scalar .bigDecimal⟩, ⟨"blob", .scalar .blob⟩,
        ⟨"at", .scalar .timestamp⟩, ⟨"tags", strings⟩, ⟨"labels", .map false string⟩,
        ⟨"doc", .document⟩])
  , entry "BadDefault" "t#Scalars" (.record
      [⟨"flag", .boolean⟩, ⟨"b", .integer .byte⟩, ⟨"s", .integer .short⟩])
  , entry "Node" "t#Node" (.record [⟨"value", int⟩, ⟨"next", optional node⟩])
  , entry "Tree" "t#Tree" (.record [⟨"label", string⟩, ⟨"children", optional (.list tree)⟩])
  , entry "Gadget" "t#Gadget" (.record [⟨"serial", .integer .long⟩])
  , entry "Part" "t#Part" (.union [⟨"Widget", widget⟩, ⟨"Gadget", gadget⟩] none)
  , entry "Fault" "t#Fault" (.record [⟨"type", string⟩, ⟨"cause", optional .document⟩])
  , entry "Vault" "t#Vault" (.record [⟨"codes", optional strings⟩, ⟨"open", .boolean⟩])
  , entry "ShortPair" "t#ShortPair" (.record [⟨"a", optional string⟩, ⟨"b", optional string⟩])
  , entry "LongPair" "t#LongPair" (.record [⟨"a", optional string⟩, ⟨"b", optional string⟩])
  , entry "LongPairOfTags" "t#LongPair"
      (.record [⟨"a", optional strings⟩, ⟨"b", optional string⟩]) "LongPair" ]

/-- The declared types of the gallery. -/
def types : Table :=
  { declarations := (entries.map fun e =>
      { name := e.shown, schema := schema model e.shape, body := e.body : Declaration }).toArray }

/-- The declared type with a name; a name that none has stands for a place without a declaration. -/
def typeNamed (name : String) : ValueType :=
  .named (entries.findIdx fun e => e.name == name)

end ShapeCodec.Gallery
