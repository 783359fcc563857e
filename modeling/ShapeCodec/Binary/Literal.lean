import ShapeCodec.Numeral
import ShapeCodec.Binary.Basic

/-!
# Float literals

Reads a float from text: an optional sign, then digits with a point anywhere among them and an
optional exponent, or the name of a value that is not finite.
-/

namespace ShapeCodec.Binary

/-- The digits at the start of a text, and what follows them. -/
def spanDigits : List Char → List Digit × List Char
  | [] => ([], [])
  | c :: cs =>
    match Digit.ofChar? c with
    | none => ([], c :: cs)
    | some d =>
      let (ds, rest) := spanDigits cs
      (d :: ds, rest)

/-- A sign that may be left out. -/
def spanSign : List Char → Bool × List Char
  | '-' :: cs => (true, cs)
  | '+' :: cs => (false, cs)
  | cs => (false, cs)

/-- The exponent that makes up all of the text; an empty text has exponent zero. -/
def literalExponent? : List Char → Option Int
  | [] => some 0
  | c :: cs =>
    if c = 'e' ∨ c = 'E' then
      let (negative, cs) := spanSign cs
      match spanDigits cs with
      | (d :: ds, []) =>
        let n : Int := Digit.valueFrom 0 (d :: ds)
        some (if negative then -n else n)
      | _ => none
    else none

/-- The digits after a point, when one comes next. -/
def literalFraction : List Char → List Digit × List Char
  | '.' :: cs => spanDigits cs
  | cs => ([], cs)

/-- The value of a literal without its sign, rounded once. -/
def unsigned? (f : Format) (negative : Bool) (cs : List Char) : Option (Binary f) :=
  let (whole, rest) := spanDigits cs
  let (fraction, rest) := literalFraction rest
  let ds := whole ++ fraction
  if ds.isEmpty then none
  else
    (literalExponent? rest).map fun e =>
      let n := Digit.valueFrom 0 ds
      ofDecimal f negative n (Digit.countOf n) (e - fraction.length)

/-- The value of a literal. -/
def parse? (f : Format) (text : String) : Option (Binary f) :=
  let (negative, cs) := spanSign text.toList
  let name := String.ofList (cs.map Char.toLower)
  if name = "nan" then some nan
  else if name = "inf" ∨ name = "infinity" then some (infinite negative)
  else unsigned? f negative cs

end ShapeCodec.Binary
