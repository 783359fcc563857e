import ShapeCodec.Json.Envelope
import ShapeCodec.Reader.Document

/-!
# Documents that remember their JSON

JSON has no bytes and no timestamps, so they arrive as strings and numbers. A parsed document keeps
the JSON it was made of and can read it again once the type is known.
-/

namespace ShapeCodec

/-- A document with the JSON it was parsed from and the settings it was parsed with. -/
structure ParsedDocument where
  document : Document
  /-- The shape id that the JSON names. -/
  typeTag : Option ShapeId
  raw : Json
  config : Config
  wireNames : Bool

namespace ParsedDocument

/-- The document of a JSON value; the type it names becomes the discriminator. -/
def ofJson (raw : Json) (config : Config) (wireNames : Bool) : Result ParsedDocument := do
  let plain := raw.payload.toDocument
  let typeTag ← raw.discriminator
  let document :=
    match typeTag with
    | some id => plain.withDiscriminator id
    | none => plain
  return { document, typeTag, raw, config, wireNames }

/-- The JSON without its envelope. -/
def payload (d : ParsedDocument) : Json :=
  d.raw.payload

/-- The bytes that a string encodes. -/
def asBlob (d : ParsedDocument) : Result Bytes :=
  match d.payload with
  | .string text => Json.decodeBlob text
  | j => .error (j.mismatch ShapeType.blob.keyword)

/-- Numbers count seconds, strings are in the configured format or else internet timestamps. -/
def asTimestamp (d : ParsedDocument) : Result Instant :=
  match d.payload with
  | .number n => Json.instantOfNumber n
  | .string text =>
    match d.config.timestampFormat with
    | .epochSeconds => TimestampFormat.dateTime.parse text
    | format => format.parse text
  | j => .error (j.mismatch ShapeType.timestamp.keyword)

/-- How the JSON is read. -/
def source (m : Model) (d : ParsedDocument) : Source Unit Json.Leaf :=
  Json.source m d.config d.wireNames

/-- The document read again under a schema. -/
def asDocument (m : Model) (schema : SchemaRef) (d : ParsedDocument) : Result Document :=
  Reader.document (d.source m) { model := m, config := d.config } schema d.payload

end ParsedDocument
end ShapeCodec
