import ShapeCodec.Schema.Inspect
import ShapeCodec.Typed.Basic

/-!
# Showing typed values

The text that shows a typed value for inspection. Fields of sensitive members are not shown.
-/

namespace ShapeCodec.Typed

/-- A text, unless the value it shows is sensitive under a schema. -/
def guarded (m : Model) (schema : SchemaRef) (text : String) : String :=
  if m.isSensitive schema then Document.redacted else text

/-- A text, unless the value it shows belongs to a sensitive member; there may be no such member. -/
def guardedAt (m : Model) (container : SchemaRef) (index : Nat) (text : String) : String :=
  match m.memberAt? container index with
  | some member => guarded m member text
  | none => text

/-- A name with the value it holds. -/
def application (name content : String) : String :=
  name ++ "(" ++ content ++ ")"

/-- The text that shows a scalar of a typed value. -/
def inspectScalar : Scalar → String
  | .blob bytes => application "Blob" bytes.inspect
  | s => s.inspectBare

/-- The text that shows a record. -/
def inspectRecord (m : Model) (d : Declaration) (texts : List String) : String :=
  match d.body with
  | .record fields =>
    let parts := (fields.zip texts).zipIdx.map fun ((field, text), index) =>
      s!"{field.name}: {guardedAt m d.schema index text}"
    if parts.isEmpty then d.name
    else d.name ++ " \x7b " ++ ", ".intercalate parts ++ " \x7d"
  | _ => d.name

/-- The name of a variant of a union. -/
def Body.variantName : Body ValueType → Nat → String
  | .union variants _, index => (variants[index]?.map Field.name).getD ""
  | .words constants _, index => (constants[index]?.map Constant.name).getD ""
  | .numbers constants _, index => (constants[index]?.map Constant.name).getD ""
  | .record _, _ => ""

/-- The name of the variant that keeps what is unknown. -/
def Body.unknownName : Body ValueType → String
  | .union _ unknown | .words _ unknown | .numbers _ unknown => unknown.getD ""
  | .record _ => ""

namespace Value

mutual

/-- The text that shows a value. -/
def inspect (m : Model) (types : Table) : Value → String
  | scalar s => inspectScalar s
  | document d => d.inspect m
  | list items => bracketed (inspectItems m types items)
  | map entries => Document.braced (inspectEntries m types entries)
  | missing => "None"
  | present v => application "Some" (inspect m types v)
  | record type fields => inspectRecord m (types.get type) (inspectItems m types fields)
  | variant type index content =>
    application ((types.get type).body.variantName index) (inspect m types content)
  | constant type index => (types.get type).body.variantName index
  | unknown type content => application (types.get type).body.unknownName (inspectScalar content)

def inspectItems (m : Model) (types : Table) : List Value → List String
  | [] => []
  | v :: vs => inspect m types v :: inspectItems m types vs

def inspectEntries (m : Model) (types : Table) : List (String × Value) → List (String × String)
  | [] => []
  | (k, v) :: es => (k, inspect m types v) :: inspectEntries m types es

end

end Value
end ShapeCodec.Typed
