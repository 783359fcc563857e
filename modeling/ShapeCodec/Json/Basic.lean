import ShapeCodec.Binary.Literal
import ShapeCodec.Numeral
import ShapeCodec.Tree

/-!
# JSON values

JSON as it stands on the wire: numbers keep their digits, objects the order of their keys.
-/

namespace ShapeCodec

/-- A JSON value without parts, other than null. -/
inductive Json.Leaf where
  | boolean (value : Bool)
  | number (value : Numeral)
  | string (value : String)
deriving DecidableEq, Repr

/-- A JSON value. -/
abbrev Json := Tree Unit Json.Leaf

namespace Json

@[match_pattern] def null : Json :=
  Tree.null ()

@[match_pattern] def boolean (b : Bool) : Json :=
  Tree.leaf () (.boolean b)

@[match_pattern] def number (n : Numeral) : Json :=
  Tree.leaf () (.number n)

@[match_pattern] def string (s : String) : Json :=
  Tree.leaf () (.string s)

@[match_pattern] def array (items : List Json) : Json :=
  Tree.list () items

@[match_pattern] def object (members : List (String × Json)) : Json :=
  Tree.map () members

/-- The word for the kind of a value. -/
def kind : Json → String
  | Tree.null _ => "null"
  | Tree.leaf _ (.boolean _) => "boolean"
  | Tree.leaf _ (.number _) => "number"
  | Tree.leaf _ (.string _) => "string"
  | Tree.list .. => "array"
  | Tree.map .. => "object"

/-- The members of an object. -/
def members? : Json → Option (Entries Json)
  | Tree.map _ members => some members
  | _ => none

end Json

namespace Numeral

/-- The number rounded to the nearest float, unless it is too large for one. -/
def toDouble? (n : Numeral) : Option Double :=
  let digits := n.coefficient
  let x : Double := Binary.ofDecimal .double n.negative digits (Digit.countOf digits)
    (n.exponentValue - n.fractionLength)
  if x.isFinite then some x else none

/-- Whether the number is written as a fraction or with an exponent, and a float can hold it. -/
def isFractional (n : Numeral) : Bool :=
  !n.isWhole && n.toDouble?.isSome

end Numeral
end ShapeCodec
