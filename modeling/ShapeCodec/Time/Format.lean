import ShapeCodec.Binary.Literal
import ShapeCodec.Time.HttpDate

/-!
# Timestamp formats

The three ways an instant travels: as a number of seconds, as an internet timestamp, or as the date
of a web server. Each format writes a text and reads the texts of its kind.
-/

namespace ShapeCodec

/-- How an instant is written. -/
inductive TimestampFormat where
  | epochSeconds
  | dateTime
  | httpDate
deriving DecidableEq, Repr, Inhabited

namespace TimestampFormat

def all : List TimestampFormat :=
  [.epochSeconds, .dateTime, .httpDate]

/-- The name of a format. -/
def name : TimestampFormat → String
  | epochSeconds => "epoch-seconds"
  | dateTime => "date-time"
  | httpDate => "http-date"

/-- The name a description of traits shows. -/
def title : TimestampFormat → String
  | epochSeconds => "EpochSeconds"
  | dateTime => "DateTime"
  | httpDate => "HttpDate"

/-- Whether the format is a number on the wire, and not a string. -/
def isNumeric : TimestampFormat → Bool
  | epochSeconds => true
  | _ => false

/-- The text of an instant; seconds are written as a float only if there is a fraction. -/
def format : TimestampFormat → Instant → String
  | epochSeconds, t => if t.nanos = 0 then toString t.seconds else t.toDouble.text .plain
  | dateTime, t => t.dateTimeText
  | httpDate, t => t.httpDateText

/-- The instant that a text names. -/
def parse : TimestampFormat → String → Result Instant
  | epochSeconds, text =>
    match Binary.parse? .double text with
    | some x => Instant.ofDouble x
    | none => .error (.deserialization s!"invalid epoch seconds `{text}`")
  | dateTime, text =>
    match Time.parseDateTime text with
    | .ok t => .ok t
    | .error e => .error (.deserialization s!"invalid date-time `{text}`: {e.message}")
  | httpDate, text =>
    match Time.parseHttpDate text with
    | .ok t => .ok t
    | .error e => .error (.deserialization s!"invalid http-date `{text}`: {e.message}")

end TimestampFormat
end ShapeCodec
