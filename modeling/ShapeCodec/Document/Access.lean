import ShapeCodec.Document.Basic
import ShapeCodec.Time.Instant

/-!
# Reading values out of documents

A document gives its value as the type asked for. Integers are read in any width that they fit,
integers and floats as floats and decimals; there is no other conversion.
-/

namespace ShapeCodec

namespace Scalar

/-- The text of a number in a message about its range. -/
def rangeText : Scalar → String
  | integer .big n => toString n.value
  | decimal d => d.text
  | s => s.inspect

/-- The value is a number that the type cannot hold. -/
def outOfRange (s : Scalar) (type : ScalarType) : Error :=
  .outOfRange s.rangeText type.shapeType

/-- The value is not of the type asked for. -/
def mismatch (s : Scalar) (type : ScalarType) : Error :=
  .typeMismatch type.shapeType.keyword s.shapeType.keyword

/-- An integer in a width. -/
def asInteger (width : IntWidth) : Scalar → Result (Sized width)
  | integer w n =>
    match Sized.ofInt? width n.value with
    | some n => .ok n
    | none => .error (outOfRange (integer w n) (.integer width))
  | s => .error (s.mismatch (.integer width))

/-- A number as the nearest float. -/
def asDouble : Scalar → Result Double
  | integer _ n => .ok (Binary.ofInt .double n.value)
  | float v => .ok (v.convert .double)
  | double v => .ok v
  | decimal d => .ok (d.toBinary .double)
  | s => .error (s.mismatch .double)

/-- A number as a short float, by way of the long one. -/
def asSingle (s : Scalar) : Result Single :=
  s.asDouble.map (Binary.convert .single)

/-- A number as a decimal, exactly. -/
def asDecimal : Scalar → Result Decimal
  | integer _ n => .ok (.ofInt n.value)
  | float v => finite (float v) (Decimal.ofBinary? v)
  | double v => finite (double v) (Decimal.ofBinary? v)
  | decimal d => .ok d
  | s => .error (s.mismatch .bigDecimal)
where
  /-- Floats that are no numbers have no decimal. -/
  finite (s : Scalar) (d? : Option Decimal) : Result Decimal :=
    match d? with
    | some d => .ok d
    | none => .error (s.outOfRange .bigDecimal)

/-- The value as a scalar of the type asked for. -/
def as (type : ScalarType) (s : Scalar) : Result Scalar :=
  match type with
  | .integer width => (s.asInteger width).map (.integer width)
  | .float => s.asSingle.map .float
  | .double => s.asDouble.map .double
  | .bigDecimal => s.asDecimal.map .decimal
  | type => if s.type = type then .ok s else .error (s.mismatch type)

/-- The value as an instant; numbers count seconds. -/
def asInstant? : Scalar → Option (Result Instant)
  | timestamp t => some (.ok t)
  | integer .big _ => none
  | integer _ n => some (Instant.ofSeconds n.value)
  | float v => some (Instant.ofDouble (v.convert .double))
  | double v => some (Instant.ofDouble v)
  | decimal d => some (Instant.ofDouble (d.toBinary .double))
  | _ => none

end Scalar

namespace Document

/-- The document is not of the type asked for. -/
def mismatch (d : Document) (type : ShapeType) : Error :=
  .typeMismatch type.keyword d.kind

/-- The value as a scalar; short floats are read as long ones first, and fail as such. -/
def asScalar (type : ScalarType) : Document → Result Scalar
  | .leaf _ s => s.as type
  | d => .error (mismatch d (if type = .float then .double else type.shapeType))

/-- The value as an instant; numbers count seconds. -/
def asInstant (m : Model) (d : Document) : Result Instant :=
  let other : Result Instant :=
    .error (.typeMismatch ShapeType.timestamp.keyword (d.shapeType m).keyword)
  match d with
  | .leaf _ s => s.asInstant?.getD other
  | _ => other

def asList : Document → Result (List Document)
  | .list _ items => .ok items
  | d => .error (mismatch d .list)

def asMap : Document → Result (Entries Document)
  | .map _ entries => .ok entries
  | d => .error (mismatch d .map)

/-! ### Containers -/

/-- The document is a scalar where a container is needed. -/
def notAContainer (m : Model) (d : Document) : Error :=
  .notAContainer (d.shapeType m)

/-- The number of elements or entries. -/
def length (m : Model) (d : Document) : Result Nat :=
  match d.size? with
  | some n => .ok n
  | none => .error (d.notAContainer m)

/-- The entries of a map, a structure or a union. -/
def entries (m : Model) : Document → Result (Entries Document)
  | .map _ entries => .ok entries
  | .list l items => .error (mismatch (.list l items) .map)
  | d => .error (notAContainer m d)

/-- The elements of a list. -/
def elements (m : Model) : Document → Result (List Document)
  | .list _ items => .ok items
  | .map l entries => .error (mismatch (.map l entries) .list)
  | d => .error (notAContainer m d)

/-- The value of a key. -/
def get? (m : Model) (key : String) (d : Document) : Result (Option Document) := do
  return (← d.entries m).find? key

/-- Whether a key has a value. -/
def containsKey (m : Model) (key : String) (d : Document) : Result Bool := do
  return (← d.entries m).contains key

/-- The keys in order. -/
def keys (m : Model) (d : Document) : Result (List String) := do
  return (← d.entries m).keys

/-- The element at an index. -/
def getAt (m : Model) (index : Nat) (d : Document) : Result Document := do
  let items ← d.elements m
  match items[index]? with
  | some item => return item
  | none => throw (.indexOutOfBounds index items.length)

end Document
end ShapeCodec
