import ShapeCodec.Binary.Basic

/-!
# Floating-point powers

Products of values of one format, finite or not, and powers by repeated squaring. Every product in
a power is rounded, so a power can be a few units away from the nearest value; the order of the
products decides which value it is, and is part of the definition.
-/

namespace ShapeCodec.Binary

variable {f : Format}

/-- The product, rounded once; zero times infinity is not a number. -/
def mul : Binary f → Binary f → Binary f
  | nan, _ | _, nan => nan
  | infinite a, infinite b => infinite (a != b)
  | infinite a, finite b j => if j.val = 0 then nan else infinite (a != b)
  | finite a i, infinite b => if i.val = 0 then nan else infinite (a != b)
  | finite a i, finite b j =>
    ofScaled f (a != b) (significand f i * significand f j) (exponent f i + exponent f j)

/--
Multiplies `acc` by the `n`-th power of `x`, taking the binary digits of `n` from the lowest on;
`fuel` bounds their count.
-/
def powFrom : (fuel : Nat) → (acc x : Binary f) → Nat → Binary f
  | 0, acc, _, _ => acc
  | fuel + 1, acc, x, n =>
    if n = 0 then acc
    else powFrom fuel (if n % 2 = 1 then acc.mul x else acc) (x.mul x) (n / 2)

/-- The `n`-th power by repeated squaring. -/
def pow (x : Binary f) (n : Nat) : Binary f :=
  powFrom (n.log2 + 1) (ofInt f 1) x n

end ShapeCodec.Binary
