import ShapeCodec.Config.Basic
import ShapeCodec.Error
import ShapeCodec.Json.Printer
import ShapeCodec.Json.Setting

/-!
# Configuration as JSON

A configuration is an object whose keys may be left out, or the array of its values, which may end
early. Unknown keys are passed over; a key that occurs twice is an error.
-/

namespace ShapeCodec.Config

open ShapeCodec.Json (Scanner)
open ShapeCodec.Json.Scanner

/-- The parts of a configuration. -/
inductive Field where
  | nullPolicy
  | maxDepth
  | timestampFormat
deriving DecidableEq, Repr

namespace Field

/-- The parts in the order in which an array lists them. -/
def all : List Field :=
  [.nullPolicy, .maxDepth, .timestampFormat]

def name : Field → String
  | nullPolicy => "null_policy"
  | maxDepth => "max_depth"
  | timestampFormat => "default_timestamp_format"

/-- Reads the value of a part into a configuration. -/
def scan (c : Config) : Field → Scanner Config
  | nullPolicy => do return { c with nullPolicy := ← word NullPolicy.all NullPolicy.name }
  | maxDepth => do return { c with maxDepth := ← count }
  | timestampFormat => do
    return { c with timestampFormat := ← word TimestampFormat.all TimestampFormat.name }

end Field

/-- The array form, with `first` set before its first element. -/
def scanList (c : Config) (first : Bool) : List Field → Scanner Config
  | [] => return c
  | field :: fields => do
    if ← moreElements first then
      scanList (← field.scan c) false fields
    else return c

/-- The end of the array form. -/
def endList : Scanner Unit := do
  match ← blanks with
  | none => failNext .eofInList
  | some b =>
    if b = byte ']' then skip
    else if b = byte ',' then
      skip
      if (← blanks) = some (byte ']') then failNext .trailingComma
      else failNext .trailingCharacters
    else failNext .trailingCharacters

/-- Fails because of a key that occurred before; a brace right after it is taken first. -/
def repeatedKey {α : Type} (key : String) : Scanner α := do
  if (← blanks) = some (byte '\x7d') then skip
  fail (.unsuitable s!"duplicate field `{key}`")

/-- The members of the object form; `seen` are the parts that have been read. -/
def scanMembers (c : Config) (seen : List Field) : (fuel : Nat) → (first : Bool) → Scanner Config
  | 0, _ => fail .eofInObject
  | fuel + 1, first => do
    if ← moreMembers first then
      skip
      let key ← string
      match Field.all.find? (·.name == key) with
      | none =>
        colon
        ignored
        scanMembers c seen fuel false
      | some field =>
        if seen.contains field then repeatedKey key
        else
          colon
          scanMembers (← field.scan c) (field :: seen) fuel false
    else
      skip
      return c

/-- A configuration in either form. -/
def scan : Scanner Config := do
  match ← blanks with
  | none => failNext .eofInValue
  | some b =>
    if b = byte '[' then
      skip
      let c ← scanList {} true Field.all
      endList
      return c
    else if b = byte '\x7b' then
      skip
      scanMembers {} [] ((← budget) + 1) true
    else unexpected b "struct SerdeConfig"

/-- The configuration that a JSON text holds. -/
def ofJsonText (bytes : Bytes) : Result Config :=
  match scan.run bytes with
  | .ok c => .ok c
  | .error e => .error (.deserialization e)

/-- The configuration that a file holds, which may be empty. -/
def parse (bytes : Bytes) : Result Config :=
  if bytes.isEmpty then .ok {}
  else
    match scan.run bytes with
    | .ok c => .ok c
    | .error e => .error (.invalidSchema s!"invalid serde config: {e}")

/-- A configuration as JSON. -/
def toJson (c : Config) : Json :=
  .object
    [ (Field.nullPolicy.name, .string c.nullPolicy.name)
    , (Field.maxDepth.name, .number (.ofInt c.maxDepth))
    , (Field.timestampFormat.name, .string c.timestampFormat.name) ]

end ShapeCodec.Config
