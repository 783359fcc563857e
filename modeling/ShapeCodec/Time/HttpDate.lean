import ShapeCodec.Time.DateTime

/-!
# Mail and web dates

Reads `Tue, 29 Apr 2014 18:30:38 GMT` with the freedoms that mail has: any white space between the
parts, an optional weekday and optional seconds, years of two or three digits, named zones, and
comments at the end. A weekday that is given has to be the right one.
-/

namespace ShapeCodec.Time

/-- The hours that a zone name stands for; a single letter other than `J` means no offset. -/
def zoneHours? (name : List Char) : Option Int :=
  let is := sameLetters name
  if is "GMT" || is "UT" || is "Z" then some 0
  else if is "EDT" then some (-4)
  else if is "EST" || is "CDT" then some (-5)
  else if is "CST" || is "MDT" then some (-6)
  else if is "MST" || is "PDT" then some (-7)
  else if is "PST" then some (-8)
  else if name.length = 1 && !is "J" then some 0
  else none

/-- The zone: a name, or an offset without a colon. -/
def namedZone (cs : List Char) : Except Fault (Int × List Char) :=
  match cs.span Char.isAlpha with
  | ([], _) => offset false .ok cs
  | (name, rest) =>
    match zoneHours? name with
    | some hours => .ok (hours * 3600, rest)
    | none => .error .invalid

/-- What follows the comment that `cs` is inside of, `depth` parentheses deep. -/
def afterComment? : (depth : Nat) → List Char → Option (List Char)
  | _, [] => none
  | depth, '\\' :: cs =>
    match cs with
    | [] => none
    | _ :: rest => afterComment? depth rest
  | depth, '(' :: cs => afterComment? (depth + 1) cs
  | depth, ')' :: cs => if depth ≤ 1 then some cs else afterComment? (depth - 1) cs
  | depth, _ :: cs => afterComment? depth cs

/-- Drops comments and the white space before them, as many as there are; `fuel` bounds their count. -/
def skipComments : (fuel : Nat) → List Char → List Char
  | 0, cs => cs
  | fuel + 1, cs =>
    match Text.trimStart cs with
    | '(' :: rest =>
      match afterComment? 1 rest with
      | some after => skipComments fuel after
      | none => cs
    | _ => cs

/-- Years of two digits lie between 1950 and 2049, years of three count from 1900. -/
def fullYear (digits year : Nat) : Nat :=
  if digits = 2 then (if year < 50 then year + 2000 else year + 1900)
  else if digits = 3 then year + 1900
  else year

/-- A number within bounds. -/
def bounded (low high n : Nat) : Except Fault Unit :=
  if low ≤ n ∧ n ≤ high then .ok () else .error .outOfRange

/-- The weekday and its comma, when a weekday comes first. -/
def weekday (cs : List Char) : Except Fault ((Option Nat) × List Char) :=
  match shortName Calendar.weekdayNames cs with
  | .error _ => .ok (none, cs)
  | .ok (i, ',' :: rest) => .ok (some i, rest)
  | .ok _ => .error .invalid

/-- The seconds, when a colon announces them. -/
def optionalSeconds (cs : List Char) : Except Fault (Nat × List Char) :=
  match Text.trimStart cs with
  | ':' :: rest => number 2 2 rest
  | _ => .ok (0, cs)

/-- The last year of the calendar. -/
def lastYear : Nat := 262142

/-- The instant that a mail date names. -/
def parseHttpDate (text : String) : Except Fault Instant := do
  let (given, cs) ← weekday (Text.trimStart text.toList)
  let (day, cs) ← number 1 2 (Text.trimStart cs)
  bounded 1 31 day
  let cs ← space cs
  let (month, cs) ← shortName Calendar.monthNames cs
  let cs ← space cs
  let (year, afterYear) ← number 2 cs.length cs
  let year := fullYear (cs.length - afterYear.length) year
  if Nat.pow 2 31 ≤ year then throw .outOfRange
  let cs ← space afterYear
  let (hour, cs) ← number 2 2 cs
  bounded 0 23 hour
  let cs ← mark ':' (Text.trimStart cs)
  let (minute, cs) ← number 2 2 (Text.trimStart cs)
  bounded 0 59 minute
  let (second, cs) ← optionalSeconds cs
  bounded 0 60 second
  let cs ← space cs
  let (offset, cs) ← namedZone cs
  if !(skipComments cs.length cs).isEmpty then throw .tooLong
  let date : Calendar.Date := ⟨year, month + 1, day⟩
  if !date.exists || lastYear < year then throw .outOfRange
  match given with
  | some i => if Calendar.weekdayOfDays date.toDays ≠ i then throw .impossible
  | none => pure ()
  if 86400 ≤ offset.natAbs then throw .outOfRange
  let t := assemble date hour minute second 0 offset
  if !Instant.inRange t.seconds then throw .impossible
  return t

end ShapeCodec.Time
