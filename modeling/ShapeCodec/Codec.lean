import ShapeCodec.Config.Json
import ShapeCodec.Json.Parsed
import ShapeCodec.Json.Parser
import ShapeCodec.Json.Printer
import ShapeCodec.Writer.Json

/-!
# The JSON codec

Encodes and decodes values as JSON text, following schemas.
-/

namespace ShapeCodec

/-- The settings of the codec. -/
structure Codec where
  config : Config := {}
  /-- One element to a line. -/
  pretty : Bool := false
  /-- Whether members go by their wire keys, and not by their names. -/
  wireNames : Bool := true

namespace Codec

/-- The media type of what is written. -/
def contentType : String :=
  "application/json"

/-- The text of a JSON value. -/
def print (c : Codec) (j : Json) : String :=
  if c.pretty then j.pretty else j.compact

/-- The value that a text holds. -/
def parse (bytes : Bytes) : Result Json :=
  match Json.parse bytes with
  | .ok j => .ok j
  | .error e => .error (.deserialization e)

/-- How the codec writes. -/
def scope (c : Codec) (m : Model) : Json.Scope :=
  { model := m, config := c.config, wireNames := c.wireNames }

/-- How the codec reads. -/
def source (c : Codec) (m : Model) : Source Unit Json.Leaf :=
  Json.source m c.config c.wireNames

/-- The JSON that a call writes. -/
def toJson (c : Codec) (m : Model) (call : Call) : Result Json :=
  (c.scope m).ofCall call

/-- The text that a call writes. -/
def encodeCall (c : Codec) (m : Model) (call : Call) : Result String :=
  (c.toJson m call).map c.print

/-- The text of a document under a schema. -/
def encode (c : Codec) (m : Model) (schema : SchemaRef) (d : Document) : Result String :=
  c.encodeCall m (d.calls m schema)

/-- The text of a document under its own schema. -/
def encodeDocument (c : Codec) (m : Model) (d : Document) : Result String :=
  c.encode m d.schema d

/-- The document that a JSON value holds under a schema. -/
def ofJson (c : Codec) (m : Model) (schema : SchemaRef) (j : Json) : Result Document :=
  Reader.document (c.source m) { model := m, config := c.config } schema j

/-- The document that a text holds under a schema. -/
def decode (c : Codec) (m : Model) (schema : SchemaRef) (bytes : Bytes) : Result Document := do
  c.ofJson m schema (← parse bytes)

/-- The document that a text holds without a schema. -/
def decodeDocument (c : Codec) (bytes : Bytes) : Result ParsedDocument := do
  ParsedDocument.ofJson (← parse bytes) c.config c.wireNames

end Codec
end ShapeCodec
