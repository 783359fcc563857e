/-!
# Binary floating point

Values of the two binary interchange formats, as a sign and a place in the order of the
non-negative numbers. The place (`rank`) of a value is also its bit pattern without the sign, so
neighbouring numbers have neighbouring ranks. Arithmetic goes through the exact rational value and
one correct rounding.
-/

namespace ShapeCodec

/-- The parameters of a binary interchange format. -/
structure Binary.Format where
  /-- Significant bits of a normal number. -/
  precision : Nat
  /-- The exponent of the smallest positive number. -/
  minExponent : Int
  /-- The rank of infinity: every finite number comes before it. -/
  limit : Nat
  /-- The weight of the sign bit. -/
  signBit : Nat
deriving DecidableEq, Repr

/-- The 32-bit format. -/
def Binary.Format.single : Binary.Format :=
  ⟨24, -149, 255 * Nat.pow 2 23, Nat.pow 2 31⟩

/-- The 64-bit format. -/
def Binary.Format.double : Binary.Format :=
  ⟨53, -1074, 2047 * Nat.pow 2 52, Nat.pow 2 63⟩

/-- A floating-point value; the payload of a NaN is not kept. -/
inductive Binary (format : Binary.Format) where
  | nan
  | infinite (negative : Bool)
  | finite (negative : Bool) (rank : Fin format.limit)
deriving DecidableEq, Repr

abbrev Single := Binary .single
abbrev Double := Binary .double

namespace Binary

variable {f g : Format}

/-- The whole number `m` in the value `m * 2 ^ e` of a rank. -/
def significand (f : Format) (rank : Nat) : Nat :=
  let hidden := Nat.pow 2 (f.precision - 1)
  if rank < hidden then rank else hidden + rank % hidden

/-- The exponent `e` in the value `m * 2 ^ e` of a rank. -/
def exponent (f : Format) (rank : Nat) : Int :=
  f.minExponent + ((rank / Nat.pow 2 (f.precision - 1) - 1 : Nat) : Int)

/-- `n / d` rounded to a whole number, a half going to the even neighbour. -/
def roundHalfEven (n d : Nat) : Nat :=
  let q := n / d
  let r := n % d
  if 2 * r < d then q else if d < 2 * r then q + 1 else q + q % 2

/-- The value of the given sign and rank; ranks from `limit` on are infinite. -/
def ofRank (negative : Bool) (rank : Nat) : Binary f :=
  if h : rank < f.limit then .finite negative ⟨rank, h⟩ else .infinite negative

/-- `num / den` scaled to units of `2 ^ e` and rounded. -/
def roundToUnit (num den : Nat) (e : Int) : Nat :=
  if 0 ≤ e then roundHalfEven num (den * Nat.pow 2 e.toNat)
  else roundHalfEven (num * Nat.pow 2 (-e).toNat) den

/-- The exponent of the unit in the last place of `num / den`. -/
def unitExponent (f : Format) (num den : Nat) : Int :=
  let k : Int := (num.log2 : Int) - (den.log2 : Int)
  let reaches : Bool :=
    if 0 ≤ k then den * Nat.pow 2 k.toNat ≤ num else den ≤ num * Nat.pow 2 (-k).toNat
  let top := if reaches then k else k - 1
  max f.minExponent (top - ((f.precision : Int) - 1))

/--
The value nearest to `num / den`, of two the one with the even significand. Where rounding carries
into the next power of two, adding to the rank is already the right answer.
-/
def nearest (f : Format) (negative : Bool) (num den : Nat) : Binary f :=
  if num = 0 ∨ den = 0 then ofRank negative 0
  else
    let e := unitExponent f num den
    ofRank negative ((e - f.minExponent).toNat * Nat.pow 2 (f.precision - 1) + roundToUnit num den e)

/-- The value nearest to `m * 2 ^ e`. -/
def ofScaled (f : Format) (negative : Bool) (m : Nat) (e : Int) : Binary f :=
  if 0 ≤ e then nearest f negative (m * Nat.pow 2 e.toNat) 1
  else nearest f negative m (Nat.pow 2 (-e).toNat)

/-- The value nearest to a rational number. -/
def ofRat (f : Format) (q : Rat) : Binary f :=
  nearest f (q.num < 0) q.num.natAbs q.den

/-- The value nearest to a whole number. -/
def ofInt (f : Format) (n : Int) : Binary f :=
  nearest f (n < 0) n.natAbs 1

/--
The value nearest to `coefficient * 10 ^ exponent`. Numbers beyond `10 ^ 400` are larger than every
finite value and numbers below `10 ^ -400` smaller than half of every positive one, so powers of
ten outside that window are never computed.
-/
def ofDecimal (f : Format) (negative : Bool) (coefficient digits : Nat) (exponent : Int) :
    Binary f :=
  if coefficient = 0 then ofRank negative 0
  else if 400 < exponent + digits then .infinite negative
  else if exponent + digits < -400 then ofRank negative 0
  else if 0 ≤ exponent then nearest f negative (coefficient * Nat.pow 10 exponent.toNat) 1
  else nearest f negative coefficient (Nat.pow 10 (-exponent).toNat)

/-- The same value with the other sign. -/
def negate : Binary f → Binary f
  | nan => nan
  | infinite negative => infinite (!negative)
  | finite negative rank => finite (!negative) rank

def isFinite : Binary f → Bool
  | finite .. => true
  | _ => false

def isNaN : Binary f → Bool
  | nan => true
  | _ => false

/-- The exact value of a finite number. -/
def toRat? : Binary f → Option Rat
  | nan | infinite _ => none
  | finite negative rank =>
    let m : Int := significand f rank
    let s : Int := if negative then -m else m
    let e := exponent f rank
    some (if 0 ≤ e then (s * Nat.pow 2 e.toNat : Int) else mkRat s (Nat.pow 2 (-e).toNat))

/-- The same number in another format, rounded if need be. -/
def convert (g : Format) : Binary f → Binary g
  | nan => nan
  | infinite negative => infinite negative
  | finite negative rank =>
    ofScaled g negative (significand f rank) (exponent f rank)

/-- The bit pattern of a value that is a number. -/
def toBits? : Binary f → Option Nat
  | nan => none
  | infinite negative => some ((if negative then f.signBit else 0) + f.limit)
  | finite negative rank => some ((if negative then f.signBit else 0) + rank.val)

/-- The value of a bit pattern. -/
def ofBits (f : Format) (bits : Nat) : Binary f :=
  let rank := bits % f.signBit
  if f.limit < rank then nan else ofRank (f.signBit ≤ bits) rank

/-- Equality of numbers: the two zeros are equal, a NaN equals nothing. -/
def same : Binary f → Binary f → Bool
  | infinite a, infinite b => a == b
  | finite a i, finite b j => i == j && (a == b || i.val == 0)
  | _, _ => false

/-- The sum of two finite numbers, rounded once; `none` when one of them is not finite. -/
def add? (a b : Binary f) : Option (Binary f) := do
  return ofRat f ((← a.toRat?) + (← b.toRat?))

/-- The product of two finite numbers, rounded once; `none` when one of them is not finite. -/
def mul? (a b : Binary f) : Option (Binary f) := do
  return ofRat f ((← a.toRat?) * (← b.toRat?))

/-- The quotient of two finite numbers, rounded once; `none` when one of them is not finite. -/
def div? (a b : Binary f) : Option (Binary f) := do
  return ofRat f ((← a.toRat?) / (← b.toRat?))

end Binary
end ShapeCodec
