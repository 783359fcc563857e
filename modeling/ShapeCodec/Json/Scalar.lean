import ShapeCodec.Binary.Style
import ShapeCodec.Config.Basic
import ShapeCodec.Json.Basic

/-!
# Scalars in JSON

How scalars stand on the wire: bytes as base64, timestamps in their format, floats that are no
numbers as their names, and big numbers with all their digits.
-/

namespace ShapeCodec

namespace Json

/-! ### Reading -/

/-- The value is not of the kind that was asked for. -/
def mismatch (j : Json) (expected : String) : Error :=
  .typeMismatch expected j.kind

/-- The number is too large for the type. -/
def outOfRange (n : Numeral) (type : ShapeType) : Error :=
  .outOfRange n.text type

/-- A value that has to be a number. -/
def asNumber (j : Json) (type : ScalarType) : Result Numeral :=
  match j with
  | .number n => .ok n
  | j => .error (mismatch j type.shapeType.keyword)

/-- The float that a name stands for. -/
def namedFloat? (name : String) : Option Double :=
  if name = "NaN" then some .nan
  else if name = "Infinity" then some (.infinite false)
  else if name = "-Infinity" then some (.infinite true)
  else none

/-- An integer in a width. Fractions are refused, whole numbers have to fit. -/
def readInteger (width : IntWidth) (j : Json) : Result Scalar := do
  let type := ScalarType.integer width
  let n ← j.asNumber type
  if n.isFractional then throw (.typeMismatch type.shapeType.keyword "fractional number")
  match n.toInt?, width with
  | some i, _ =>
    match Scalar.ofInt? width i with
    | some s => return s
    | none => throw (outOfRange n type.shapeType)
  | none, .big =>
    throw (.deserialization s!"invalid big integer {n.text}: invalid digit found in string")
  | none, _ => throw (outOfRange n type.shapeType)

/-- A float, which may be one of the named ones. -/
def readFloat (type : ScalarType) (j : Json) : Result Double :=
  match j with
  | .number n =>
    match n.toDouble? with
    | some x => .ok x
    | none => .error (outOfRange n type.shapeType)
  | .string name =>
    match namedFloat? name with
    | some x => .ok x
    | none => .error (mismatch j type.shapeType.keyword)
  | j => .error (mismatch j type.shapeType.keyword)

/-- The largest finite short float. -/
def maxSingle : Rat :=
  ((Nat.pow 2 24 - 1) * Nat.pow 2 104 : Nat)

/-- A short float; numbers beyond the largest one are refused, not rounded. -/
def readSingle (j : Json) : Result Single := do
  let x ← j.readFloat .float
  match x.toRat? with
  | some q =>
    if maxSingle < q ∨ q < -maxSingle then throw (.outOfRange (x.text .plain) .float)
  | none => pure ()
  return x.convert .single

/-- A decimal, digit for digit. -/
def readDecimal (j : Json) : Result Decimal := do
  let n ← j.asNumber .bigDecimal
  match Decimal.ofNumeral n with
  | .ok d => return d
  | .error e => throw (.deserialization s!"invalid big decimal {n.text}: {e.message}")

/-- The bytes that a text encodes. -/
def decodeBlob (text : String) : Result Bytes :=
  match Base64.decode text with
  | .ok bytes => .ok bytes
  | .error e => .error (.deserialization s!"invalid base64 blob: {e.message}")

/-- The instant that a number of seconds stands for. -/
def instantOfNumber (n : Numeral) : Result Instant :=
  match (n.toInt?).filter IntWidth.long.fits with
  | some seconds => Instant.ofSeconds seconds
  | none =>
    match n.toDouble? with
    | some x => Instant.ofDouble x
    | none => .error (outOfRange n .timestamp)

/-- An instant in a format. -/
def readTimestamp (format : TimestampFormat) (j : Json) : Result Instant :=
  match j, format.isNumeric with
  | .number n, true => instantOfNumber n
  | .string text, false => format.parse text
  | j, _ => .error (mismatch j s!"{format.name} timestamp")

/-- A scalar of the given type; `format` is the one of timestamps. -/
def readScalar (format : TimestampFormat) (type : ScalarType) (j : Json) : Result Scalar :=
  match type with
  | .boolean =>
    match j with
    | .boolean b => .ok (.boolean b)
    | j => .error (mismatch j type.shapeType.keyword)
  | .integer width => j.readInteger width
  | .float => j.readSingle.map .float
  | .double => (j.readFloat .double).map .double
  | .bigDecimal => j.readDecimal.map .decimal
  | .string =>
    match j with
    | .string s => .ok (.string s)
    | j => .error (mismatch j type.shapeType.keyword)
  | .blob =>
    match j with
    | .string s => (decodeBlob s).map .blob
    | j => .error (mismatch j type.shapeType.keyword)
  | .timestamp => (j.readTimestamp format).map .timestamp

/-! ### Writing -/

/-- A float: a number, or its name when it is none. -/
def ofFloat {f : Binary.Format} (style : Binary.Style) (x : Binary f) : Json :=
  match x with
  | .nan => .string "NaN"
  | .infinite negative => .string (if negative then "-Infinity" else "Infinity")
  | .finite negative rank => .number (Binary.numeralOf style f negative rank)

/-- An instant in a format. -/
def ofInstant (format : TimestampFormat) (t : Instant) : Json :=
  match format with
  | .epochSeconds =>
    if t.nanos = 0 then .number (.ofInt t.seconds) else ofFloat .wire t.toDouble
  | format => .string (format.format t)

/-- A scalar on the wire; `format` is the one of timestamps. -/
def ofScalar (format : TimestampFormat) : Scalar → Json
  | .boolean b => .boolean b
  | .integer _ n => .number (.ofInt n.value)
  | .float x => ofFloat .plain x
  | .double x => ofFloat .wire x
  | .decimal d => .number d.numeral
  | .string s => .string s
  | .blob bytes => .string (Base64.encode bytes)
  | .timestamp t => ofInstant format t

end Json
end ShapeCodec
