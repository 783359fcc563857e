import ShapeCodec.Numeral
import ShapeCodec.ShapeType
import ShapeCodec.Binary.Power

/-!
# Decimals

Numbers `digits * 10 ^ -scale` of any size, which keep the scale they were written with. `same`
compares the numbers denoted, `numeral` writes them without losing the scale.
-/

namespace ShapeCodec

/-- The number `digits * 10 ^ -scale`. -/
structure Decimal where
  digits : Int
  scale : Int
deriving DecidableEq, Repr, Inhabited

namespace Decimal

/-- Why a numeral is not a decimal: the scale has to fit 64 bits. -/
inductive Fault where
  | exponentOverflow (text : String)
  | exponentTooLarge
  | exponentTooSmall
deriving DecidableEq, Repr

def Fault.message : Fault → String
  | exponentOverflow text => s!"Exponent overflow when parsing '{text}'"
  | exponentTooLarge => "number too large to fit in target type"
  | exponentTooSmall => "number too small to fit in target type"

/-- Exponents are read as numbers of this many bits, one of them for the sign. -/
def exponentBits : Nat := 128

/-- The decimal of a whole number. -/
def ofInt (n : Int) : Decimal :=
  ⟨n, 0⟩

/--
The decimal that a numeral denotes, digit for digit. The exponent is read as a 128-bit number, and
the scale it leads to has to fit 64 bits.
-/
def ofNumeral (n : Numeral) : Except Fault Decimal :=
  let e := n.exponentValue
  let bound : Int := Nat.pow 2 (exponentBits - 1)
  if bound ≤ e then .error .exponentTooLarge
  else if e < -bound then .error .exponentTooSmall
  else
    let scale := n.fractionLength - e
    if IntWidth.long.fits scale then
      .ok ⟨if n.negative then -(n.coefficient : Int) else n.coefficient, scale⟩
    else .error (.exponentOverflow n.text)

/-- Drops zeros at the end of the digits; `fuel` bounds their count. -/
def trimTo : (fuel : Nat) → Nat → Int → Nat × Int
  | 0, n, scale => (n, scale)
  | fuel + 1, n, scale => if n % 10 = 0 then trimTo fuel (n / 10) (scale - 1) else (n, scale)

/-- Sign, digits without zeros at the end, and scale: equal exactly for equal numbers. -/
def canonical (d : Decimal) : Bool × Nat × Int :=
  if d.digits = 0 then (false, 0, 0)
  else (d.digits < 0, trimTo (Digit.countOf d.digits.natAbs) d.digits.natAbs d.scale)

/-- Whether two decimals denote the same number. -/
def same (a b : Decimal) : Bool :=
  a.canonical == b.canonical

/-- The rational number denoted. -/
def toRat (d : Decimal) : Rat :=
  if 0 ≤ d.scale then mkRat d.digits (Nat.pow 10 d.scale.toNat)
  else (d.digits * Nat.pow 10 (-d.scale).toNat : Int)

/-- How many digits of a large decimal count towards its floating-point value. -/
def leadingDigits : Nat := 25

/-- The decimal cut to its leading digits; the scale falls by one with every digit left out. -/
def leading (d : Decimal) : Decimal :=
  let dropped := Digit.countOf d.digits.natAbs - leadingDigits
  ⟨d.digits.tdiv (Nat.pow 10 dropped), d.scale - dropped⟩

/--
The floating-point value of a decimal. It is the nearest one, except for decimals whose leading
digits leave a power of ten to multiply by: that power is rounded on its own first, so the product
can be some units off. A scale whose exponent does not fit 32 bits makes the value infinite,
whichever sign the exponent has; a zero and a scale of zero are never affected.
-/
def toBinary (f : Binary.Format) (d : Decimal) : Binary f :=
  let l := d.leading
  if d.digits = 0 ∨ d.scale = 0 then Binary.ofInt f d.digits
  else if !IntWidth.integer.fits (-d.scale) then .infinite (d.digits < 0)
  else if l.scale < 0 then
    (Binary.ofInt f l.digits).mul ((Binary.ofInt f 10).pow (-l.scale).toNat)
  else
    let n := d.digits.natAbs
    Binary.ofDecimal f (d.digits < 0) n (Digit.countOf n) (-d.scale)

/-- Halves `m` while it is even, at most `fuel` times, and counts how often. -/
def halve : (fuel : Nat) → Nat → Nat × Nat
  | 0, m => (m, 0)
  | fuel + 1, m =>
    if m % 2 = 0 then
      let (m', k) := halve fuel (m / 2)
      (m', k + 1)
    else (m, 0)

/--
The exact decimal value of a finite number. The scale is the least power of two in the denominator;
only numbers below the smallest normal one always keep the full scale.
-/
def ofBinary? {f : Binary.Format} : Binary f → Option Decimal
  | .nan | .infinite _ => none
  | .finite negative rank =>
    let sign : Int := if negative then -1 else 1
    let m := Binary.significand f rank
    let e := Binary.exponent f rank
    if rank.val = 0 then some ⟨0, 0⟩
    else if 0 ≤ e then some ⟨sign * (m * Nat.pow 2 e.toNat : Nat), 0⟩
    else
      let places := (-e).toNat
      let (m', k) := if rank.val < Nat.pow 2 (f.precision - 1) then (m, 0) else halve places m
      some ⟨sign * (m' * Nat.pow 5 (places - k) : Nat), (places - k : Nat)⟩

/-- Whether a number is written with one digit before the point and an exponent. -/
def isScientific (count : Nat) (scale : Int) : Bool :=
  5 < scale - count

/--
The numeral of a decimal. More than five zeros after the point turn into an exponent, and so do
more than fifteen zeros before it; in between the number is written out with its scale.
-/
def numeral (d : Decimal) : Numeral :=
  let n := d.digits.natAbs
  let count := Digit.countOf n
  let negative : Bool := d.digits < 0
  if n = 0 then { negative := false, whole := 0 }
  else if isScientific count d.scale then
    let k := count - 1
    let place := (count : Int) - d.scale - 1
    { negative, whole := n / Nat.pow 10 k
      fraction := if k = 0 then none else Digits.padded? k (n % Nat.pow 10 k)
      exponent := some (place < 0, Digits.ofNat place.natAbs) }
  else if d.scale < -15 then
    { negative, whole := n, exponent := some (false, Digits.ofNat d.scale.natAbs) }
  else if d.scale ≤ 0 then
    { negative, whole := n * Nat.pow 10 (-d.scale).toNat }
  else
    let k := d.scale.toNat
    { negative, whole := n / Nat.pow 10 k, fraction := Digits.padded? k (n % Nat.pow 10 k) }

/-- The text of a decimal; the exponent mark after a point is a capital. -/
def text (d : Decimal) : String :=
  let mark := if isScientific (Digit.countOf d.digits.natAbs) d.scale then "E" else "e"
  d.numeral.textWith mark "+"

/-- The 64-bit words of a number, least significant first; `fuel` bounds their count. -/
def words : (fuel : Nat) → Nat → List Nat
  | 0, _ => []
  | fuel + 1, n => if n = 0 then [] else n % Nat.pow 2 64 :: words fuel (n / Nat.pow 2 64)

/-- The text that shows how a decimal is stored. -/
def inspect (d : Decimal) : String :=
  let n := d.digits.natAbs
  let sign := if n = 0 then "NoSign" else if d.digits < 0 then "Minus" else "Plus"
  let limbs := ", ".intercalate ((words (n.log2 / 64 + 1) n).map toString)
  s!"BigDecimal(sign={sign}, scale={d.scale}, digits=[{limbs}])"

end Decimal
end ShapeCodec
