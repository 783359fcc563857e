/-!
# Numerals

A decimal number as it is written: sign, whole part, digits after the point, exponent. Two
numerals may denote the same number and still differ (`1.50` and `1.5`), which is what the wire
format has to keep.
-/

namespace ShapeCodec

/-- A decimal digit. -/
abbrev Digit := Fin 10

def Digit.zero : Digit :=
  ⟨0, by decide⟩

/-- The character of a digit. -/
def Digit.toChar (d : Digit) : Char :=
  Char.ofNat ('0'.toNat + d.val)

/-- The digit of a character. -/
def Digit.ofChar? (c : Char) : Option Digit :=
  if h : '0' ≤ c ∧ c ≤ '9' then
    some ⟨c.toNat - '0'.toNat, by
      have h1 : '0'.toNat ≤ c.toNat := h.1
      have h2 : c.toNat ≤ '9'.toNat := h.2
      have h3 : '0'.toNat = 48 := rfl
      have h4 : '9'.toNat = 57 := rfl
      omega⟩
  else none

/-- The number a run of digits denotes, in front of digits already read as `acc`. -/
def Digit.valueFrom (acc : Nat) (ds : List Digit) : Nat :=
  ds.foldl (fun n d => 10 * n + d.val) acc

/-- The digits of a number in front of `rest`, least significant first; `fuel` bounds their count. -/
def Digit.listFrom : (fuel : Nat) → Nat → List Digit → List Digit
  | 0, _, rest => rest
  | fuel + 1, n, rest =>
    let ds := ⟨n % 10, Nat.mod_lt _ (by decide)⟩ :: rest
    if n / 10 = 0 then ds else Digit.listFrom fuel (n / 10) ds

/-- The decimal digits of a number, most significant first; zero has one. -/
def Digit.listOf (n : Nat) : List Digit :=
  Digit.listFrom (n.log2 + 1) n []

/-- How many decimal digits a number has. -/
def Digit.countOf (n : Nat) : Nat :=
  (Digit.listOf n).length

def Digit.textOf (ds : List Digit) : String :=
  String.ofList (ds.map Digit.toChar)

/-- A run of digits that is not empty; leading zeros count. -/
structure Digits where
  first : Digit
  rest : List Digit
deriving DecidableEq, Repr

namespace Digits

def toList (ds : Digits) : List Digit :=
  ds.first :: ds.rest

def ofList? : List Digit → Option Digits
  | [] => none
  | d :: ds => some ⟨d, ds⟩

def ofNat (n : Nat) : Digits :=
  match Digit.listOf n with
  | [] => ⟨.zero, []⟩
  | d :: ds => ⟨d, ds⟩

/-- The last `width` digits of a number, with leading zeros where it has fewer. -/
def padded? (width n : Nat) : Option Digits :=
  let ds := Digit.listOf n
  ofList? (List.replicate (width - ds.length) .zero ++ ds)

def length (ds : Digits) : Nat :=
  ds.rest.length + 1

def value (ds : Digits) : Nat :=
  Digit.valueFrom 0 ds.toList

def text (ds : Digits) : String :=
  Digit.textOf ds.toList

end Digits

/-- A decimal number as written. The whole part has no leading zeros, so it is kept as a number. -/
structure Numeral where
  negative : Bool
  whole : Nat
  fraction : Option Digits := none
  /-- The sign and the digits after the exponent mark. -/
  exponent : Option (Bool × Digits) := none
deriving DecidableEq, Repr

namespace Numeral

/-- A whole number as a numeral. -/
def ofInt (n : Int) : Numeral :=
  { negative := n < 0, whole := n.natAbs }

/-- The exponent that is written, zero when there is none. -/
def exponentValue (n : Numeral) : Int :=
  match n.exponent with
  | none => 0
  | some (negative, ds) => if negative then -(ds.value : Int) else ds.value

/-- How many digits are written after the point. -/
def fractionLength (n : Numeral) : Nat :=
  match n.fraction with
  | none => 0
  | some ds => ds.length

/-- All digits before the exponent read as one whole number. -/
def coefficient (n : Numeral) : Nat :=
  match n.fraction with
  | none => n.whole
  | some ds => Digit.valueFrom n.whole ds.toList

/-- Whether only a whole number is written, without point and exponent. -/
def isWhole (n : Numeral) : Bool :=
  n.fraction.isNone && n.exponent.isNone

/-- The number denoted when only a whole number is written. -/
def toInt? (n : Numeral) : Option Int :=
  if n.isWhole then some (if n.negative then -(n.whole : Int) else n.whole) else none

/-- The text of a numeral, with the given exponent mark and plus sign. -/
def textWith (mark plus : String) (n : Numeral) : String :=
  (if n.negative then "-" else "") ++ toString n.whole
    ++ (match n.fraction with
      | none => ""
      | some ds => "." ++ ds.text)
    ++ (match n.exponent with
      | none => ""
      | some (negative, ds) => mark ++ (if negative then "-" else plus) ++ ds.text)

/-- The text of a numeral with a small exponent mark and the sign of the exponent always written. -/
def text (n : Numeral) : String :=
  n.textWith "e" "+"

end Numeral
end ShapeCodec
