import ShapeCodec.Numeral
import ShapeCodec.Binary.Basic

/-!
# The shortest digits that read back

Every finite number is the nearest one to a whole interval of reals. `Binary.shortest` finds the
fewest decimal digits that fall into that interval and, among those, the number nearest to the
value. All comparisons are between natural numbers.
-/

namespace ShapeCodec.Binary

/-- A positive decimal number `coefficient * 10 ^ exponent`. -/
structure ShortDecimal where
  coefficient : Nat
  exponent : Int
deriving DecidableEq, Repr

/-- Which of two equally near neighbours is taken. -/
inductive Tie where
  | toEven
  | up
deriving DecidableEq, Repr

/--
A value and the interval that rounds to it, over one common denominator: `low ≤ value ≤ high`, with
the ends belonging to the interval when `closed`.
-/
structure Interval where
  low : Nat
  value : Nat
  high : Nat
  den : Nat
  closed : Bool

/--
The interval of a rank. Its ends lie half a unit away; below a power of two the unit is half as
large, unless that power is the smallest normal number.
-/
def interval (f : Format) (rank : Nat) : Interval :=
  let m := significand f rank
  let e := exponent f rank - 2
  let hidden := Nat.pow 2 (f.precision - 1)
  let below := if m = hidden ∧ hidden < rank then 1 else 2
  let up := Nat.pow 2 e.toNat
  { low := (4 * m - below) * up
    value := 4 * m * up
    high := (4 * m + 2) * up
    den := Nat.pow 2 (-e).toNat
    closed := m % 2 == 0 }

namespace Interval

/-- The interval in units of `10 ^ k`. -/
def inUnits (i : Interval) (k : Int) : Interval :=
  let up := Nat.pow 10 (-k).toNat
  { low := i.low * up, value := i.value * up, high := i.high * up
    den := i.den * Nat.pow 10 k.toNat, closed := i.closed }

/-- Whether the whole number `c` lies in the interval. -/
def contains (i : Interval) (c : Nat) : Bool :=
  if i.closed then i.low ≤ c * i.den && c * i.den ≤ i.high
  else i.low < c * i.den && c * i.den < i.high

/-- The nearest whole number to the value that lies in the interval, if one of its two neighbours does. -/
def pick (tie : Tie) (i : Interval) : Option Nat :=
  let c := i.value / i.den
  let down := i.contains c
  let up := i.contains (c + 1)
  if down && up then
    let twice := 2 * (i.value % i.den)
    if twice < i.den then some c
    else if i.den < twice then some (c + 1)
    else
      match tie with
      | .up => some (c + 1)
      | .toEven => some (if c % 2 = 0 then c else c + 1)
  else if down then some c
  else if up then some (c + 1)
  else none

/-- The place of the leading digit: the largest `k` with `10 ^ k ≤ value`, for values above `10 ^ -400`. -/
def leadingPlace (i : Interval) : Int :=
  (Digit.countOf (i.value * Nat.pow 10 400 / i.den) : Int) - 401

/-- Tries grids of more and more digits, `count` being the next one and `fuel` how many are left. -/
def search (tie : Tie) (i : Interval) (place : Int) : (fuel count : Nat) → ShortDecimal
  | 0, count =>
    let k := place - count + 1
    ⟨(i.inUnits k).value / (i.inUnits k).den, k⟩
  | fuel + 1, count =>
    let k := place - count + 1
    match (i.inUnits k).pick tie with
    | some c => ⟨c, k⟩
    | none => search tie i place fuel (count + 1)

end Interval

/-- The fewest digits that read back as the positive number of this rank; 17 are always enough. -/
def shortest (tie : Tie) (f : Format) (rank : Nat) : ShortDecimal :=
  let i := interval f rank
  i.search tie i.leadingPlace 17 1

end ShapeCodec.Binary
