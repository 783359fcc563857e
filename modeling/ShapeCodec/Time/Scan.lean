import ShapeCodec.Text.Blank
import ShapeCodec.Numeral

/-!
# Scanning dates

Small readers over characters, each of which gives back what it has not read. They are shared by
the two written forms of an instant.
-/

namespace ShapeCodec.Time

/-- Why a text is not a date. -/
inductive Fault where
  | invalid
  | tooShort
  | tooLong
  | outOfRange
  | impossible
deriving DecidableEq, Repr

def Fault.message : Fault → String
  | invalid => "input contains invalid characters"
  | tooShort => "premature end of input"
  | tooLong => "trailing input"
  | outOfRange => "input is out of range"
  | impossible => "no possible date and time matching input"

/-- How many bytes a text has, which is what the minimal lengths count. -/
def byteLength (cs : List Char) : Nat :=
  cs.foldl (fun n c => n + c.utf8Size) 0

/-- The digits at the start of a text, at most `limit` of them. -/
def leadingDigits : (limit : Nat) → List Char → List Digit × List Char
  | 0, cs => ([], cs)
  | _, [] => ([], [])
  | limit + 1, c :: cs =>
    match Digit.ofChar? c with
    | none => ([], c :: cs)
    | some d =>
      let (ds, rest) := leadingDigits limit cs
      (d :: ds, rest)

/-- A number of at least `least` and at most `most` digits that fits 63 bits. -/
def number (least most : Nat) (cs : List Char) : Except Fault (Nat × List Char) :=
  if byteLength cs < least then .error .tooShort
  else
    let (ds, rest) := leadingDigits most cs
    let n := Digit.valueFrom 0 ds
    if ds.length < least then .error .invalid
    else if Nat.pow 2 63 ≤ n then .error .outOfRange
    else .ok (n, rest)

/-- The character `mark`, which must come next. -/
def mark (mark : Char) : List Char → Except Fault (List Char)
  | c :: cs => if c = mark then .ok cs else .error .invalid
  | [] => .error .tooShort

/-- White space, at least one character of it. -/
def space (cs : List Char) : Except Fault (List Char) :=
  match cs with
  | [] => .error .tooShort
  | c :: rest => if Text.isBlank c then .ok (Text.trimStart rest) else .error .invalid

/-- Letters compared without regard to case. -/
def sameLetters (cs : List Char) (name : String) : Bool :=
  cs.map Char.toLower == name.toList.map Char.toLower

/-- The index of the three-letter name that comes next. -/
def shortName (names : List String) (cs : List Char) : Except Fault (Nat × List Char) :=
  if byteLength cs < 3 then .error .tooShort
  else
    match names.findIdx? (sameLetters (cs.take 3)) with
    | some i => .ok (i, cs.drop 3)
    | none => .error .invalid

/-- The sign of a zone offset; whether it may also be written as the minus sign proper. -/
def sign (anyMinus : Bool) : List Char → Except Fault (Bool × List Char)
  | '+' :: cs => .ok (false, cs)
  | '-' :: cs => .ok (true, cs)
  | '−' :: cs => if anyMinus then .ok (true, cs) else .error .invalid
  | _ :: _ => .error .invalid
  | [] => .error .tooShort

/-- Two digits; the minutes of an offset end at 59, and larger ones are out of range. -/
def offsetMinutes (cs : List Char) : Except Fault (Nat × List Char) :=
  match cs with
  | a :: b :: rest =>
    match Digit.ofChar? a, Digit.ofChar? b with
    | some x, some y =>
      if x.val < 6 then .ok (10 * x.val + y.val, rest) else .error .outOfRange
    | _, _ => if byteLength cs < 2 then .error .tooShort else .error .invalid
  | _ => if byteLength cs < 2 then .error .tooShort else .error .invalid

/-- Two digits of hours. -/
def offsetHours (cs : List Char) : Except Fault (Nat × List Char) :=
  if byteLength cs < 2 then .error .tooShort
  else
    match cs with
    | a :: b :: rest =>
      match Digit.ofChar? a, Digit.ofChar? b with
      | some x, some y => .ok (10 * x.val + y.val, rest)
      | _, _ => .error .invalid
    | _ => .error .invalid

/-- A zone offset in seconds: sign, hours, a separator and minutes. -/
def offset (anyMinus : Bool) (separator : List Char → Except Fault (List Char)) (cs : List Char) :
    Except Fault (Int × List Char) := do
  let (negative, cs) ← sign anyMinus cs
  let (hours, cs) ← offsetHours cs
  let cs ← separator cs
  let (minutes, cs) ← offsetMinutes cs
  let seconds : Int := hours * 3600 + minutes * 60
  return (if negative then -seconds else seconds, cs)

end ShapeCodec.Time
