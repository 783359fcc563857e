/-!
# Shape types

The closed set of kinds a shape can have, the keyword each is written with, and the families that
other rules are stated over (aggregates, integers, floats).
-/

namespace ShapeCodec

/-- The widths an integer can be stored in; `big` has no bounds. -/
inductive IntWidth where
  | byte | short | integer | long | big
deriving DecidableEq, Repr, Inhabited

/-- The bits of a width; big integers have no such bound. -/
def IntWidth.bits? : IntWidth → Option Nat
  | .byte => some 8
  | .short => some 16
  | .integer => some 32
  | .long => some 64
  | .big => none

/-- Whether a number can be stored in a width. -/
def IntWidth.fits (width : IntWidth) (n : Int) : Bool :=
  match width.bits? with
  | none => true
  | some b =>
    let bound : Int := Nat.pow 2 (b - 1)
    n < bound && -bound ≤ n

/-- The kind of a shape. -/
inductive ShapeType where
  | «structure» | union | list | map | string | blob | boolean | byte | short | integer | long
  | bigInteger | float | double | bigDecimal | timestamp | document | enum | intEnum
deriving DecidableEq, Repr, Inhabited

namespace ShapeType

/-- Every shape type, in the order in which messages list them. -/
def all : List ShapeType :=
  [.structure, .union, .list, .map, .string, .blob, .boolean, .byte, .short, .integer, .long,
    .bigInteger, .float, .double, .bigDecimal, .timestamp, .document, .enum, .intEnum]

/-- The keyword of a shape type. -/
def keyword : ShapeType → String
  | .structure => "structure"
  | .union => "union"
  | .list => "list"
  | .map => "map"
  | .string => "string"
  | .blob => "blob"
  | .boolean => "boolean"
  | .byte => "byte"
  | .short => "short"
  | .integer => "integer"
  | .long => "long"
  | .bigInteger => "bigInteger"
  | .float => "float"
  | .double => "double"
  | .bigDecimal => "bigDecimal"
  | .timestamp => "timestamp"
  | .document => "document"
  | .enum => "enum"
  | .intEnum => "intEnum"

/-- The word a schema's own description shows for its type: the keyword, capitalised. -/
def title (type : ShapeType) : String :=
  type.keyword.capitalize

/-- The shape type written as `word`. -/
def ofKeyword? (word : String) : Option ShapeType :=
  all.find? (·.keyword == word)

/-- Structures and unions, whose members have names of their own. -/
def isStructureLike : ShapeType → Bool
  | .structure | .union => true
  | _ => false

/-- Shapes whose values hold other values; exactly these declare members. -/
def isAggregate : ShapeType → Bool
  | .structure | .union | .list | .map => true
  | _ => false

def isIntegerFamily : ShapeType → Bool
  | .byte | .short | .integer | .long | .bigInteger | .intEnum => true
  | _ => false

def isFloatFamily : ShapeType → Bool
  | .float | .double | .bigDecimal => true
  | _ => false

def isNumeric (type : ShapeType) : Bool :=
  type.isIntegerFamily || type.isFloatFamily

theorem mem_all (type : ShapeType) : type ∈ all := by
  cases type <;> decide

theorem ofKeyword?_keyword (type : ShapeType) : ofKeyword? type.keyword = some type := by
  cases type <;> decide

end ShapeType

/-- What a scalar is read or written as. -/
inductive ScalarType where
  | boolean
  | integer (width : IntWidth)
  | float
  | double
  | bigDecimal
  | string
  | blob
  | timestamp
deriving DecidableEq, Repr, Inhabited

namespace ScalarType

/-- Every scalar type. -/
def all : List ScalarType :=
  [.boolean, .integer .byte, .integer .short, .integer .integer, .integer .long, .integer .big,
    .float, .double, .bigDecimal, .string, .blob, .timestamp]

/-- The shape type that a scalar read or written this way is named after. -/
def shapeType : ScalarType → ShapeType
  | .boolean => .boolean
  | .integer .byte => .byte
  | .integer .short => .short
  | .integer .integer => .integer
  | .integer .long => .long
  | .integer .big => .bigInteger
  | .float => .float
  | .double => .double
  | .bigDecimal => .bigDecimal
  | .string => .string
  | .blob => .blob
  | .timestamp => .timestamp

end ScalarType

/-- The shape types by the way their values are walked. -/
inductive ShapeType.Form where
  | «structure»
  | union
  | list
  | map
  | document
  | scalar (type : ScalarType)
deriving DecidableEq, Repr

/-- How values of a shape type are walked: enums are strings, int enums are integers. -/
def ShapeType.form : ShapeType → ShapeType.Form
  | .structure => .structure
  | .union => .union
  | .list => .list
  | .map => .map
  | .document => .document
  | .string | .enum => .scalar .string
  | .blob => .scalar .blob
  | .boolean => .scalar .boolean
  | .byte => .scalar (.integer .byte)
  | .short => .scalar (.integer .short)
  | .integer | .intEnum => .scalar (.integer .integer)
  | .long => .scalar (.integer .long)
  | .bigInteger => .scalar (.integer .big)
  | .float => .scalar .float
  | .double => .scalar .double
  | .bigDecimal => .scalar .bigDecimal
  | .timestamp => .scalar .timestamp

end ShapeCodec
