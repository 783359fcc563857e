import ShapeCodec.Document.Basic
import ShapeCodec.Json.Scalar

/-!
# JSON as documents

A JSON value without a schema becomes a document all the same. Numbers keep every digit: whole ones
become integers, others floats if a float's own text denotes the same number, and else decimals.
-/

namespace ShapeCodec

/-- The key under which an object names its type. -/
def Json.typeKey : String :=
  "__type"

namespace Numeral

/-- Whether the text of a float denotes exactly a decimal. -/
def isTextOf (x : Double) (d : Decimal) : Bool :=
  match x.numeral? .plain with
  | none => false
  | some n =>
    match Decimal.ofNumeral n with
    | .ok e => e.same d
    | .error _ => false

/-- A number that is not an integer; the text itself stays when nothing can hold it. -/
def toFraction (n : Numeral) : Scalar :=
  match n.toDouble?, Decimal.ofNumeral n with
  | some x, .ok d => if isTextOf x d then .double x else .decimal d
  | none, .ok d => .decimal d
  | some x, .error _ => .double x
  | none, .error _ => .string n.text

/-- A number as a scalar. -/
def toScalar (n : Numeral) : Scalar :=
  match n.toInt? with
  | some i => (Scalar.ofInt? .long i).getD (.big i)
  | none => n.toFraction

end Numeral

namespace Json

/-- How each kind of value becomes a document; names of types are left out of objects. -/
def documentWalk : Tree.Walk Unit Leaf Document where
  null := fun _ => Document.plainNull
  leaf := fun _ v =>
    match v with
    | .boolean b => .ofScalar (.boolean b)
    | .number n => .ofScalar n.toScalar
    | .string s => .ofString s
  list := fun _ items => .ofList (items.map Tree.Visited.result)
  map := fun _ members =>
    .ofEntries ((members.filter fun e => e.1 != typeKey).map fun (k, v) => (k, v.result))

/-- The document of a value that no schema describes. -/
def toDocument (j : Json) : Document :=
  j.walk documentWalk

end Json
end ShapeCodec
