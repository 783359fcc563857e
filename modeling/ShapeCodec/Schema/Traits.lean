import ShapeCodec.Base64
import ShapeCodec.Binary.Style
import ShapeCodec.Text.Quoted
import ShapeCodec.Scalar
import ShapeCodec.Time.Format

/-!
# Traits

The annotations of shapes and members: what has to be present, what stands in for an absent member,
what is hidden when shown, and how values are written.
-/

namespace ShapeCodec

/-- The value that stands in for an absent member. Containers start out empty. -/
inductive Default where
  | null
  | boolean (value : Bool)
  | integer (value : Sized .long)
  | float (value : Double)
  | string (value : String)
  | blob (value : Bytes)
  | emptyList
  | emptyMap
deriving DecidableEq, Repr

namespace Default

/-- A null default is as good as none. -/
def isNull : Default → Bool
  | null => true
  | _ => false

/-- The text that shows a default. -/
def inspect : Default → String
  | null => "Null"
  | boolean v => s!"Boolean({v})"
  | integer n => s!"Integer({n.value})"
  | float v => s!"Float({v.text .inspect})"
  | string v => s!"String({Text.quote v})"
  | blob v => s!"Blob({Bytes.inspect v})"
  | emptyList => "EmptyList"
  | emptyMap => "EmptyMap"

end Default

/-- Whose fault the error is that a structure describes. -/
inductive ErrorFault where
  | client
  | server
deriving DecidableEq, Repr

namespace ErrorFault

def all : List ErrorFault :=
  [.client, .server]

/-- The name of a fault. -/
def name : ErrorFault → String
  | client => "client"
  | server => "server"

end ErrorFault

/-- The traits of one shape or member. -/
structure Traits where
  /-- The member has to be present. -/
  required : Bool := false
  /-- What stands in for the member when it is absent. -/
  default : Option Default := none
  /-- The value is not shown, only written. -/
  sensitive : Bool := false
  /-- The collection keeps its nulls. -/
  sparse : Bool := false
  /-- How timestamps are written. -/
  timestampFormat : Option TimestampFormat := none
  /-- The key of the member on the wire, when it is not the member's name. -/
  jsonName : Option String := none
  /-- The structure is an error. -/
  error : Option ErrorFault := none
deriving DecidableEq, Repr, Inhabited

namespace Traits

/-- Whether no trait is set. -/
def isEmpty (t : Traits) : Bool :=
  t == {}

/-- Whether absence is an error: the member is required and nothing stands in for it. -/
def mustBePresent (t : Traits) : Bool :=
  t.required && t.default.all Default.isNull

/-- The text that shows a value that may be missing. -/
def optionText (shown : Option String) : String :=
  match shown with
  | none => "None"
  | some text => s!"Some({text})"

/-- The text that shows all traits. -/
def inspect (t : Traits) : String :=
  "TraitSet \x7b " ++ ", ".intercalate
    [ s!"required: {t.required}"
    , s!"default: {optionText (t.default.map Default.inspect)}"
    , s!"sensitive: {t.sensitive}"
    , s!"sparse: {t.sparse}"
    , s!"timestamp_format: {optionText (t.timestampFormat.map TimestampFormat.title)}"
    , s!"json_name: {optionText (t.jsonName.map Text.quote)}"
    , s!"error: {optionText (t.error.map fun fault => fault.name.capitalize)}" ]
    ++ " \x7d"

end Traits
end ShapeCodec
