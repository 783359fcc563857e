import ShapeCodec.Typed.Reader
import ShapeCodec.Writer.Document

/-!
# Writing typed values

Records and unions write their members under the schema they are bound to, whatever schema they are
written under themselves. Fields that are missing are not written; elements that are missing are
written as null. A union cannot write what it does not know.
-/

namespace ShapeCodec.Typed

/-- What a member of an enumeration is on the wire. -/
def constantValue (body : Body ValueType) (index : Nat) : Scalar :=
  match body with
  | .words constants _ => .string ((constants[index]?.map Constant.value).getD "")
  | .numbers constants _ =>
    match constants[index]? with
    | some c => .integer .integer c.value
    | none => .string ""
  | _ => .string ""

/-- What the members of an enumeration are on the wire, in order. -/
def wireValues : Body ValueType → List Scalar
  | .words constants _ => constants.map fun c => .string c.value
  | .numbers constants _ => constants.map fun c => .integer .integer c.value
  | _ => []

/-- What a value of an enumeration is on the wire. -/
def Value.wire? (types : Table) : Value → Option Scalar
  | .constant type index => some (constantValue (types.get type).body index)
  | .unknown _ content => some content
  | _ => none

/-- Whether unknown values of a type can be written. -/
def writesUnknown : Body ValueType → Bool
  | .words .. | .numbers .. => true
  | _ => false

namespace Value

mutual

/-- The calls that write a value under a schema. -/
def calls (m : Model) (types : Table) : Value → SchemaRef → Call
  | scalar s, schema => .scalar schema s
  | document d, schema => d.calls m schema
  | list items, schema =>
    .ofResult ((m.listMember schema).map fun member =>
      .list schema (itemCalls m types items member))
  | map entries, schema =>
    .ofResult ((m.mapValue schema).map fun member =>
      .map schema (entryCalls m types entries member))
  | missing, schema => .null schema
  | present v, schema => calls m types v schema
  | record type fields, schema =>
    .structure schema (fieldCalls m types (types.get type).schema 0 fields)
  | variant type index content, schema =>
    .structure schema
      [.ofResult ((m.memberAt (types.get type).schema index).map (calls m types content))]
  | constant type index, schema =>
    .scalar schema (constantValue (types.get type).body index)
  | unknown type content, schema =>
    let d := types.get type
    if writesUnknown d.body then .scalar schema content
    else .structure schema [.fail (unknownVariant m d.schema (constantText content))]

/-- The calls that write the elements of a list. -/
def itemCalls (m : Model) (types : Table) : List Value → SchemaRef → List Call
  | [], _ => []
  | v :: vs, member => calls m types v member :: itemCalls m types vs member

/-- The calls that write the entries of a map. -/
def entryCalls (m : Model) (types : Table) : List (String × Value) → SchemaRef → List Call
  | [], _ => []
  | (k, v) :: es, member => .entry k [calls m types v member] :: entryCalls m types es member

/-- The calls that write the fields of a record from a place on. -/
def fieldCalls (m : Model) (types : Table) (schema : SchemaRef) :
    (index : Nat) → List Value → List Call
  | _, [] => []
  | index, v :: vs =>
    let rest := fieldCalls m types schema (index + 1) vs
    match m.memberAt schema index, v with
    | .error e, _ => [.fail e]
    | .ok _, missing => rest
    | .ok member, v => calls m types v member :: rest

end

section
variable (m : Model) (types : Table)

theorem itemCalls_eq_map (items : List Value) (member : SchemaRef) :
    itemCalls m types items member = items.map fun v => calls m types v member := by
  induction items with
  | nil => rw [itemCalls, List.map_nil]
  | cons v items ih => rw [itemCalls, ih, List.map_cons]

theorem entryCalls_eq_map (entries : List (String × Value)) (member : SchemaRef) :
    entryCalls m types entries member =
      entries.map fun e => .entry e.1 [calls m types e.2 member] := by
  induction entries with
  | nil => rw [entryCalls, List.map_nil]
  | cons e entries ih => rw [entryCalls, ih, List.map_cons]

theorem fieldCalls_cons_missing {schema member : SchemaRef} {index : Nat}
    (hm : m.memberAt schema index = .ok member) (vs : List Value) :
    fieldCalls m types schema index (missing :: vs) = fieldCalls m types schema (index + 1) vs := by
  rw [fieldCalls.eq_def]
  simp only [hm]

end

end Value
end ShapeCodec.Typed
