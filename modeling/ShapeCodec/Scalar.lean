import ShapeCodec.ShapeType
import ShapeCodec.Decimal
import ShapeCodec.Base64
import ShapeCodec.Text.Quoted
import ShapeCodec.Time.Format

/-!
# Scalars

The values at the leaves of documents. Integers carry the width they are stored in and lie within
its bounds by construction.
-/

namespace ShapeCodec

/-- An integer within the bounds of a width. -/
structure Sized (width : IntWidth) where
  value : Int
  fits : width.fits value = true
deriving DecidableEq, Repr

/-- A number in a width, when it fits. -/
def Sized.ofInt? (width : IntWidth) (n : Int) : Option (Sized width) :=
  if h : width.fits n then some ⟨n, h⟩ else none

/-- An integer without bounds. -/
def Sized.big (n : Int) : Sized .big :=
  ⟨n, rfl⟩

/-- A value that holds no other values. -/
inductive Scalar where
  | boolean (value : Bool)
  | integer (width : IntWidth) (value : Sized width)
  | float (value : Single)
  | double (value : Double)
  | decimal (value : Decimal)
  | string (value : String)
  | blob (value : Bytes)
  | timestamp (value : Instant)
deriving DecidableEq, Repr

namespace Scalar

/-- What kind of scalar a value is. -/
def type : Scalar → ScalarType
  | boolean _ => .boolean
  | integer width _ => .integer width
  | float _ => .float
  | double _ => .double
  | decimal _ => .bigDecimal
  | string _ => .string
  | blob _ => .blob
  | timestamp _ => .timestamp

/-- The shape type that naturally describes a value. -/
def shapeType (s : Scalar) : ShapeType :=
  s.type.shapeType

def big (n : Int) : Scalar :=
  integer .big (.big n)

/-- A number as a scalar of a width, when it fits. -/
def ofInt? (width : IntWidth) (n : Int) : Option Scalar :=
  (Sized.ofInt? width n).map (integer width)

/-- The integer that a value holds. -/
def toInt? : Scalar → Option Int
  | integer _ n => some n.value
  | _ => none

/-- Equality of the values denoted: numbers are compared as numbers within one kind. -/
def same : Scalar → Scalar → Bool
  | boolean a, boolean b => a == b
  | integer v a, integer w b => v == w && a.value == b.value
  | float a, float b => a.same b
  | double a, double b => a.same b
  | decimal a, decimal b => a.same b
  | string a, string b => a == b
  | blob a, blob b => a == b
  | timestamp a, timestamp b => a == b
  | _, _ => false

end Scalar

/-- The elements of a list, separated by commas, between brackets. -/
def bracketed (items : List String) : String :=
  "[" ++ ", ".intercalate items ++ "]"

/-- Bytes as a list of numbers. -/
def Bytes.inspect (bytes : Bytes) : String :=
  bracketed (bytes.map fun b => toString b.toNat)

/-- The text that shows a value without naming its kind. -/
def Scalar.inspectBare : Scalar → String
  | boolean v => if v then "true" else "false"
  | integer _ n => toString n.value
  | float v => v.text .inspect
  | double v => v.text .inspect
  | decimal v => v.inspect
  | string v => Text.quote v
  | blob v => Bytes.inspect v
  | timestamp v => v.dateTimeText

/-- The text that shows a value and its kind. -/
def Scalar.inspect (s : Scalar) : String :=
  s.shapeType.title ++ "(" ++ s.inspectBare ++ ")"

end ShapeCodec
