import ShapeCodec.Json.Basic
import ShapeCodec.Json.Scanner

/-!
# Reading JSON

A text is one JSON value, with blanks around it. Values nest at most 127 deep. A key that occurs
twice keeps its first place and its last value.
-/

namespace ShapeCodec.Json

namespace Scanner

/-- Whether another element follows, in a list that has been opened. -/
def moreElements (first : Bool) : Scanner Bool := do
  match ← blanks with
  | none => failNext .eofInList
  | some b =>
    if b = byte ']' then return false
    else if first then return true
    else if b = byte ',' then
      skip
      match ← blanks with
      | none => failNext .eofInValue
      | some b => if b = byte ']' then failNext .trailingComma else return true
    else failNext .expectedListEnd

/-- Whether another member follows, in an object that has been opened. -/
def moreMembers (first : Bool) : Scanner Bool := do
  match ← blanks with
  | none => failNext .eofInObject
  | some b =>
    if b = byte '\x7d' then return false
    else if first then
      if b = byte '"' then return true else failNext .keyNotString
    else if b = byte ',' then
      skip
      match ← blanks with
      | none => failNext .eofInValue
      | some b =>
        if b = byte '"' then return true
        else if b = byte '\x7d' then failNext .trailingComma
        else failNext .keyNotString
    else failNext .expectedObjectEnd

/-- The colon after a key. -/
def colon : Scanner Unit := do
  match ← blanks with
  | none => failNext .eofInObject
  | some b => if b = byte ':' then skip else failNext .expectedColon

/-- The elements of a list up to the closing bracket, which is taken too. -/
def elements {α : Type} (value : Scanner α) : (fuel : Nat) → (first : Bool) → Scanner (List α)
  | 0, _ => fail .eofInList
  | fuel + 1, first => do
    if ← moreElements first then
      let v ← value
      return v :: (← elements value fuel false)
    else
      skip
      return []

/-- The members of an object up to the closing brace, which is taken too. -/
def members {α : Type} (value : Scanner α) :
    (fuel : Nat) → (first : Bool) → Scanner (List (String × α))
  | 0, _ => fail .eofInObject
  | fuel + 1, first => do
    if ← moreMembers first then
      skip
      let key ← string
      colon
      let v ← value
      return (key, v) :: (← members value fuel false)
    else
      skip
      return []

/-- A value that is not a container, after its first byte has been looked at. -/
def plainValue (b : UInt8) : Scanner Json := do
  if b = byte 'n' then
    skip
    name ['u', 'l', 'l']
    return .null
  else if b = byte 't' then
    skip
    name ['r', 'u', 'e']
    return .boolean true
  else if b = byte 'f' then
    skip
    name ['a', 'l', 's', 'e']
    return .boolean false
  else if b = byte '-' then
    skip
    return .number (← number true)
  else if (digit? b).isSome then
    return .number (← number false)
  else if b = byte '"' then
    skip
    return .string (← string)
  else failNext .expectedValue

/-- A value; `depth` is how many containers may still be opened. -/
def value : (depth : Nat) → Scanner Json
  | 0 => do
    match ← blanks with
    | none => failNext .eofInValue
    | some b => if b = byte '[' ∨ b = byte '\x7b' then failNext .tooDeep else plainValue b
  | depth + 1 => do
    match ← blanks with
    | none => failNext .eofInValue
    | some b =>
      if b = byte '[' then
        skip
        return .array (← elements (value depth) ((← budget) + 1) true)
      else if b = byte '\x7b' then
        skip
        return .object (Entries.ofList (← members (value depth) ((← budget) + 1) true))
      else plainValue b

/-- The end of the input, after blanks. -/
def finish : Scanner Unit := do
  if (← blanks).isSome then failNext .trailingCharacters

/-- Reads all of some bytes; a fault comes with the place where it was noticed. -/
def run {α : Type} (scanner : Scanner α) (bytes : Bytes) : Except String α :=
  let all : Scanner α := do
    let result ← scanner
    finish
    return result
  match all bytes with
  | .ok (result, _) => .ok result
  | .error fault => .error (fault.message bytes)

end Scanner

/-- How deep values may nest. -/
def maxDepth : Nat := 127

/-- The value that a text denotes. -/
def parse (bytes : Bytes) : Except String Json :=
  (Scanner.value maxDepth).run bytes

end ShapeCodec.Json
