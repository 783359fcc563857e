import ShapeCodec.Codec
import ShapeCodec.Typed.Writer

/-!
# Typed values in documents and text

Where typed values come from and go to: documents, JSON text, and documents that remember the JSON
they were parsed from.
-/

namespace ShapeCodec.Typed

section
variable (m : Model) (types : Table) (type : ValueType) (schema : SchemaRef)

/-- The value that a document holds. -/
def ofDocument (config : Config) (d : Document) : Result Value :=
  read (Document.source m) { model := m, config, types } type schema d

/-- The value that a JSON value holds. -/
def ofJson (c : Codec) (j : Json) : Result Value :=
  read (c.source m) { model := m, config := c.config, types } type schema j

/-- The value that a text holds. -/
def decode (c : Codec) (bytes : Bytes) : Result Value := do
  ofJson m types type schema c (← Codec.parse bytes)

/-- The value that a parsed document holds, read from its JSON. -/
def ofParsed (d : ParsedDocument) : Result Value :=
  read (d.source m) { model := m, config := d.config, types } type schema d.payload

end

namespace Value

variable (m : Model) (types : Table) (schema : SchemaRef)

/-- The document that a value is written as. -/
def toDocument (v : Value) : Result Document :=
  Document.ofCall m (v.calls m types schema)

/-- The text that a value is written as. -/
def encode (c : Codec) (v : Value) : Result String :=
  c.encodeCall m (v.calls m types schema)

end Value
end ShapeCodec.Typed
