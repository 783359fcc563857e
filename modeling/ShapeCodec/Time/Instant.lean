import ShapeCodec.Error
import ShapeCodec.Binary.Style
import ShapeCodec.Time.Calendar

/-!
# Instants

Points in time with nanoseconds. A leap second is kept as a nanosecond count of a thousand million
or more inside the second before it.
-/

namespace ShapeCodec

/-- Seconds since the epoch, and nanoseconds into that second. -/
structure Instant where
  seconds : Int
  nanos : Nat
deriving DecidableEq, Repr, Inhabited

namespace Instant

/-- The first and the last second that has a date. -/
def firstSecond : Int := -8334601228800

def lastSecond : Int := 8210266876799

/-- Whether the calendar reaches a second. -/
def inRange (seconds : Int) : Bool :=
  firstSecond ≤ seconds && seconds ≤ lastSecond

/-- The instant a whole number of seconds from the epoch. -/
def ofSeconds (seconds : Int) : Result Instant :=
  if inRange seconds then .ok ⟨seconds, 0⟩
  else .error (.outOfRange (toString seconds) .timestamp)

/-- Seconds since the epoch as a float: the fraction is rounded first, then the sum. -/
def toDouble (t : Instant) : Double :=
  let whole : Double := Binary.ofInt .double t.seconds
  let fraction : Double := Binary.nearest .double false t.nanos 1000000000
  (Binary.add? whole fraction).getD .nan

/-- A number rounded to a whole one, halves away from zero. -/
def roundHalfUp (q : Rat) : Int :=
  (q + 1 / 2).floor

/--
The instant of a float, to the microsecond. The distance from the whole second and its product with
a million are rounded to floats before the microseconds are.
-/
def ofDouble (x : Double) : Result Instant :=
  let beyond : Result Instant := .error (.outOfRange (x.text .plain) .timestamp)
  match x.toRat? with
  | none => beyond
  | some q =>
    let floor := q.floor
    let rest : Double := Binary.ofRat .double (q - (floor : Rat))
    let scaled := (Binary.mul? rest (Binary.ofInt .double 1000000)).bind Binary.toRat?
    let micros := roundHalfUp (scaled.getD 0)
    let (whole, micros) : Int × Int := if 1000000 ≤ micros then (floor + 1, 0) else (floor, micros)
    if inRange whole then .ok ⟨whole, micros.toNat * 1000⟩ else beyond

/-- The date of an instant. -/
def date (t : Instant) : Calendar.Date :=
  .ofDays (t.seconds / 86400)

/-- Hours, minutes and seconds of an instant; a leap second counts as the sixtieth. -/
def clock (t : Instant) : Nat × Nat × Nat :=
  let s := (t.seconds % 86400).toNat
  (s / 3600, s / 60 % 60, s % 60 + t.nanos / 1000000000)

/-- Three, six or nine digits after the point, as many as are needed. -/
def fractionText (t : Instant) : String :=
  let n := t.nanos % 1000000000
  if n = 0 then ""
  else if n % 1000000 = 0 then "." ++ Calendar.padded 3 (n / 1000000)
  else if n % 1000 = 0 then "." ++ Calendar.padded 6 (n / 1000)
  else "." ++ Calendar.padded 9 n

/-- Hours, minutes and seconds between colons. -/
def clockText (t : Instant) : String :=
  let (h, m, s) := t.clock
  s!"{Calendar.padded 2 h}:{Calendar.padded 2 m}:{Calendar.padded 2 s}"

/-- The instant in universal time, as internet timestamps are written. -/
def dateTimeText (t : Instant) : String :=
  let d := t.date
  s!"{Calendar.yearText d.year}-{Calendar.padded 2 d.month}-{Calendar.padded 2 d.day}T{t.clockText}{t.fractionText}Z"

/-- The instant as web servers date their answers; fractions of a second are dropped. -/
def httpDateText (t : Instant) : String :=
  let d := t.date
  let weekday := Calendar.weekdayNames.getD (Calendar.weekdayOfDays (t.seconds / 86400)) ""
  let month := Calendar.monthNames.getD (d.month - 1) ""
  s!"{weekday}, {Calendar.padded 2 d.day} {month} {Calendar.yearText d.year} {t.clockText} GMT"

end Instant
end ShapeCodec
