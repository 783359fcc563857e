import ShapeCodec.Time.Instant
import ShapeCodec.Time.Scan

/-!
# Internet timestamps

Reads `1985-04-12T23:20:50.52Z`. Date and time have a fixed width; a `T`, `t` or a space stands
between them, fractions of a second may have any number of digits, and the zone is `Z` or an offset.
-/

namespace ShapeCodec.Time

/-- The digit at the start of a text. -/
def oneDigit : List Char → Except Fault (Nat × List Char)
  | c :: cs =>
    match Digit.ofChar? c with
    | some d => .ok (d.val, cs)
    | none => .error .invalid
  | [] => .error .invalid

def twoDigits (cs : List Char) : Except Fault (Nat × List Char) := do
  let (a, cs) ← oneDigit cs
  let (b, cs) ← oneDigit cs
  return (10 * a + b, cs)

def fourDigits (cs : List Char) : Except Fault (Nat × List Char) := do
  let (a, cs) ← twoDigits cs
  let (b, cs) ← twoDigits cs
  return (100 * a + b, cs)

/-- The letter between date and time. -/
def dateSeparator : List Char → Except Fault (List Char)
  | c :: cs => if c = 'T' ∨ c = 't' ∨ c = ' ' then .ok cs else .error .invalid
  | [] => .error .invalid

/-- Nanoseconds from the digits after a point; digits beyond the ninth are dropped. -/
def nanoseconds (cs : List Char) : Except Fault (Nat × List Char) := do
  let (_, _) ← number 1 9 cs
  let (ds, rest) := leadingDigits 9 cs
  return (Digit.valueFrom 0 ds * Nat.pow 10 (9 - ds.length), rest.dropWhile Char.isDigit)

/-- The zone: `Z`, or an offset with a colon. -/
def zone (cs : List Char) : Except Fault (Int × List Char) :=
  match cs with
  | 'Z' :: rest | 'z' :: rest => .ok (0, rest)
  | _ => offset true (mark ':') cs

/-- The instant of a date, a time of day in that zone, and the zone's offset. -/
def assemble (date : Calendar.Date) (hour minute second nanos : Nat) (offset : Int) : Instant :=
  let (second, extra) := if second = 60 then (59, 1000000000) else (second, 0)
  ⟨date.toDays * 86400 + hour * 3600 + minute * 60 + second - offset, nanos + extra⟩

/-- The instant that an internet timestamp names. -/
def parseDateTime (text : String) : Except Fault Instant := do
  let cs := text.toList
  if byteLength cs < 19 then throw .tooShort
  let (year, cs) ← fourDigits cs
  let cs ← mark '-' cs
  let (month, cs) ← twoDigits cs
  let cs ← mark '-' cs
  let (day, cs) ← twoDigits cs
  let date : Calendar.Date := ⟨year, month, day⟩
  if !date.exists then throw .outOfRange
  let cs ← dateSeparator cs
  let (hour, cs) ← twoDigits cs
  let cs ← mark ':' cs
  let (minute, cs) ← twoDigits cs
  let cs ← mark ':' cs
  let (second, cs) ← twoDigits cs
  let (nanos, cs) ← match cs with
    | '.' :: rest => nanoseconds rest
    | _ => pure (0, cs)
  if 24 ≤ hour ∨ 60 ≤ minute ∨ 61 ≤ second then throw .outOfRange
  let (offset, cs) ← zone cs
  if !cs.isEmpty then throw .tooLong
  if 86400 ≤ offset.natAbs then throw .outOfRange
  return assemble date hour minute second nanos offset

end ShapeCodec.Time
