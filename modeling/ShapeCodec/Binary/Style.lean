import ShapeCodec.Binary.Shortest

/-!
# How floats are written

A `Style` says which numbers are written positionally, whether whole numbers keep a `.0`, and how
ties between two shortest candidates fall. Three styles are in use: plain text, inspection, wire.
-/

namespace ShapeCodec.Binary

variable {f : Format}

/-- The choices that a way of writing floats makes. -/
structure Style where
  tie : Tie
  /-- The lowest place of a leading digit that is still written positionally. -/
  lowest : Option Int
  /-- The highest place of a leading digit that is still written positionally. -/
  highest : Option Int
  /-- Whether a whole number is written with `.0`. -/
  pointZero : Bool
  /-- What stands before an exponent that is not negative. -/
  plus : String
deriving Repr

namespace Style

/-- Messages and text timestamps: never an exponent and no `.0`. -/
def plain : Style := ⟨.up, none, none, false, ""⟩

/-- Inspection: an exponent from `1e16` on and below `0.0001`. -/
def inspect : Style := ⟨.up, some (-4), some 15, true, ""⟩

/-- The wire: an exponent from `1e16` on and below `0.00001`. -/
def wire : Style := ⟨.toEven, some (-5), some 15, true, "+"⟩

/-- Whether a number whose leading digit has this place is written positionally. -/
def isPositional (style : Style) (place : Int) : Bool :=
  style.lowest.all (· ≤ place) && style.highest.all (place ≤ ·)

/-- What follows the whole part of a whole number. -/
def wholeFraction (style : Style) : Option Digits :=
  if style.pointZero then some ⟨.zero, []⟩ else none

end Style

/-- Drops zeros at the end of a coefficient; `fuel` bounds their count. -/
def ShortDecimal.trim : (fuel : Nat) → ShortDecimal → ShortDecimal
  | 0, d => d
  | fuel + 1, d =>
    if d.coefficient ≠ 0 ∧ d.coefficient % 10 = 0 then
      ShortDecimal.trim fuel ⟨d.coefficient / 10, d.exponent + 1⟩
    else d

/-- The numeral of a decimal number. -/
def ShortDecimal.numeral (style : Style) (negative : Bool) (d : ShortDecimal) : Numeral :=
  let n := Digit.countOf d.coefficient
  let place := d.exponent + n - 1
  if style.isPositional place then
    if 0 ≤ d.exponent then
      { negative, whole := d.coefficient * Nat.pow 10 d.exponent.toNat
        fraction := style.wholeFraction }
    else
      let k := (-d.exponent).toNat
      { negative, whole := d.coefficient / Nat.pow 10 k
        fraction := Digits.padded? k (d.coefficient % Nat.pow 10 k) }
  else
    let k := n - 1
    { negative, whole := d.coefficient / Nat.pow 10 k
      fraction := if k = 0 then none else Digits.padded? k (d.coefficient % Nat.pow 10 k)
      exponent := some (place < 0, Digits.ofNat place.natAbs) }

/-- The numeral of the finite number with this sign and rank. -/
def numeralOf (style : Style) (f : Format) (negative : Bool) (rank : Nat) : Numeral :=
  if rank = 0 then { negative, whole := 0, fraction := style.wholeFraction }
  else ((shortest style.tie f rank).trim 20).numeral style negative

/-- The numeral of a finite number. -/
def numeral? (style : Style) : Binary f → Option Numeral
  | finite negative rank => some (numeralOf style f negative rank)
  | _ => none

/-- The text of a value in a style. -/
def text (style : Style) : Binary f → String
  | nan => "NaN"
  | infinite negative => if negative then "-inf" else "inf"
  | finite negative rank => (numeralOf style f negative rank).textWith "e" style.plus

end ShapeCodec.Binary
