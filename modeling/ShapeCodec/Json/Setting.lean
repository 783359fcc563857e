import ShapeCodec.Binary.Style
import ShapeCodec.Json.Skip
import ShapeCodec.ShapeType
import ShapeCodec.Text.Quoted

/-!
# Settings in JSON

Settings are read straight from the text, so that a value that does not suit is reported where it
stands: words out of a fixed choice, and counts.
-/

namespace ShapeCodec.Json.Scanner

/-- What a value that does not suit is called. -/
inductive Found where
  | null
  | boolean (value : Bool)
  | integer (value : Int)
  | float (value : Double)
  | number
  | string (value : String)
  | sequence
  | map

def Found.text : Found → String
  | null => "null"
  | boolean b => s!"boolean `{b}`"
  | integer n => s!"integer `{n}`"
  | float x => s!"floating point `{x.text .wire}`"
  | number => "number"
  | string s => s!"string {Text.quote s}"
  | sequence => "sequence"
  | map => "map"

/-- Fails because a value is not of the expected kind. -/
def wrongType {α : Type} (found : Found) (expected : String) : Scanner α :=
  fail (.unsuitable s!"invalid type: {found.text}, expected {expected}")

/-- Counts are below this number, and so are the integers that messages call so. -/
def wordBound : Nat := Nat.pow 2 64

/-- Whether a number is small enough to be called an integer in a message. -/
def foundNumber (n : Numeral) : Found :=
  match n.toInt? with
  | none => .number
  | some i =>
    if n.negative then
      if i ≠ 0 ∧ IntWidth.long.fits i then .integer i else .number
    else if i < wordBound then .integer i else .number

/-- Fails at a value of the wrong kind, after having read it unless it is a container. -/
def unexpected {α : Type} (b : UInt8) (expected : String) : Scanner α := do
  if b = byte '[' then wrongType .sequence expected
  else if b = byte '\x7b' then wrongType .map expected
  else
    match ← plainValue b with
    | .boolean v => wrongType (.boolean v) expected
    | .number n => wrongType (foundNumber n) expected
    | .string s => wrongType (.string s) expected
    | _ => wrongType .null expected

/-! ### Words -/

/-- The choice among words, for a message. -/
def choiceText (words : List String) : String :=
  let quoted := words.map fun w => s!"`{w}`"
  match quoted with
  | [a, b] => s!"{a} or {b}"
  | _ => "one of " ++ ", ".intercalate quoted

/-- The value that a word stands for. -/
def ofWord {α : Type} (all : List α) (name : α → String) (word : String) : Scanner α :=
  match all.find? (name · == word) with
  | some value => return value
  | none =>
    fail (.unsuitable s!"unknown variant `{word}`, expected {choiceText (all.map name)}")

/-- A word in quotes. -/
def quotedWord {α : Type} (all : List α) (name : α → String) : Scanner α := do
  match ← blanks with
  | none => failNext .eofInValue
  | some b =>
    if b = byte '"' then
      skip
      ofWord all name (← string)
    else unexpected b "variant identifier"

/-- The null that stands for a word without contents. -/
def unitContents : Scanner Unit := do
  match ← blanks with
  | none => failNext .eofInValue
  | some b =>
    if b = byte 'n' then
      skip
      Scanner.name ['u', 'l', 'l']
    else unexpected b "unit"

/-- One of a fixed choice of words: in quotes, or as the only key of an object that holds null. -/
def word {α : Type} (all : List α) (name : α → String) : Scanner α := do
  match ← blanks with
  | none => failNext .eofInValue
  | some b =>
    if b = byte '"' then quotedWord all name
    else if b = byte '\x7b' then
      skip
      let value ← quotedWord all name
      colon
      unitContents
      match ← blanks with
      | none => fail .eofInObject
      | some b =>
        if b = byte '\x7d' then
          skip
          return value
        else fail .expectedValue
    else failNext .expectedValue

/-! ### Counts -/

/-- A number on its way to being a count: the digits that fit 64 bits, and a power of ten. -/
structure Scaled where
  significand : Nat
  exponent : Int

/-- Takes in digits while they fit; `step` is what a digit does to the exponent. -/
def Scaled.takeDigits (taken dropped : Int) (s : Scaled) : List Digit → Scaled
  | [] => s
  | d :: ds =>
    let next := 10 * s.significand + d.val
    if next < wordBound then
      takeDigits taken dropped ⟨next, s.exponent + taken⟩ ds
    else ⟨s.significand, s.exponent + dropped * (ds.length + 1 : Nat)⟩

/-- The float `10 ^ n`. -/
def powerOfTen (n : Nat) : Double :=
  Binary.ofInt .double (Nat.pow 10 n)

/-- Divides by a power of ten, in steps of at most 308 places; `fuel` bounds the steps. -/
def divideByPower : (fuel : Nat) → Double → Nat → Double
  | 0, x, _ => x
  | fuel + 1, x, n =>
    if n ≤ 308 then (Binary.div? x (powerOfTen n)).getD x
    else divideByPower fuel ((Binary.div? x (powerOfTen 308)).getD x) (n - 308)

/-- The float that a scaled number stands for, unless it is too large. -/
def Scaled.toDouble? (s : Scaled) : Option Double :=
  let x : Double := Binary.ofInt .double s.significand
  if s.exponent < 0 then
    some (divideByPower (min s.exponent.natAbs 1000 / 308 + 1) x (min s.exponent.natAbs 1000))
  else if s.significand = 0 then some x
  else if 308 < s.exponent then none
  else
    match Binary.mul? x (powerOfTen s.exponent.toNat) with
    | some y => if y.isFinite then some y else none
    | none => none

/-- What a number is that was written with the given digits. -/
def countOf (negative : Bool) (n : Numeral) : Scanner Nat := do
  let ds := Digit.listOf n.whole
  let whole := Scaled.takeDigits 0 1 ⟨0, 0⟩ ds
  let float (s : Scaled) : Scanner Nat :=
    match s.toDouble? with
    | some x => wrongType (.float (if negative then x.negate else x)) "usize"
    | none => fail .numberTooLarge
  if !n.isWhole then
    let s : Scaled :=
      match n.fraction with
      | none => whole
      | some ds => Scaled.takeDigits (-1) 0 whole ds.toList
    float { s with exponent := s.exponent + n.exponentValue }
  else if whole.exponent ≠ 0 then float whole
  else if !negative then return whole.significand
  else if whole.significand = 0 ∨ !IntWidth.long.fits (-whole.significand) then float whole
  else
    fail (.unsuitable s!"invalid value: integer `-{whole.significand}`, expected usize")

/-- A count. -/
def count : Scanner Nat := do
  match ← blanks with
  | none => failNext .eofInValue
  | some b =>
    if b = byte '-' then
      skip
      countOf true (← number true)
    else if (digit? b).isSome then countOf false (← number false)
    else unexpected b "usize"

end ShapeCodec.Json.Scanner
