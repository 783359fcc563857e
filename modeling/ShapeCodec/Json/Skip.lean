import ShapeCodec.Json.Parser

/-!
# Passing over JSON

A value that nobody asked for is passed over without being built. Its strings are not checked to be
text, and it may nest to any depth.
-/

namespace ShapeCodec.Json.Scanner

/-- Passes over the fraction of a number. -/
def skipFraction : Scanner Unit := do
  if (← peek?) = some (byte '.') then
    skip
    if (← digits).isEmpty then failNext .invalidNumber

/-- Passes over the exponent of a number. -/
def skipExponent : Scanner Unit := do
  match ← peek? with
  | none => return ()
  | some b =>
    if b = byte 'e' ∨ b = byte 'E' then
      skip
      let _ ← exponentSign
      match (← next?).bind digit? with
      | none => fail .invalidNumber
      | some _ => let _ ← digits

/-- Passes over a number, after its sign. -/
def skipNumber : Scanner Unit := do
  match (← next?).bind digit? with
  | none => fail .invalidNumber
  | some d =>
    if d.val = 0 then
      if ((← peek?).bind digit?).isSome then failNext .invalidNumber
    else
      let _ ← digits
    skipFraction
    skipExponent

/-- Passes over an escape, after the backslash. -/
def skipEscape : Scanner Unit := do
  match ← next? with
  | none => fail .eofInString
  | some b =>
    if b = byte 'u' then
      let _ ← hex4
    else if ['"', '\\', '/', 'b', 'f', 'n', 'r', 't'].any (byte · = b) then return ()
    else fail .invalidEscape

/-- Passes over a string, after its opening quote. -/
def skipString : (fuel : Nat) → Scanner Unit
  | 0 => fail .eofInString
  | fuel + 1 => do
    match ← peek? with
    | none => fail .eofInString
    | some b =>
      if b < 32 then fail .controlInString
      skip
      if b = byte '"' then return ()
      if b = byte '\\' then skipEscape
      skipString fuel

/-- Passes over a key and the colon after it. -/
def skipKey : Scanner Unit := do
  match ← blanks with
  | none => failNext .eofInObject
  | some b =>
    if b ≠ byte '"' then failNext .keyNotString
    skip
    skipString ((← budget) + 1)
    colon

/-- Passes over the parts of a container up to its closing mark, which is passed over too. -/
def skipParts (closing : UInt8) (eof unexpected : Cause) (part : Scanner Unit) :
    (fuel : Nat) → (first : Bool) → Scanner Unit
  | 0, _ => fail eof
  | fuel + 1, first => do
    match ← blanks with
    | none => failNext eof
    | some b =>
      if b = closing then skip
      else
        if !first then
          if b = byte ',' then skip else failNext unexpected
        part
        skipParts closing eof unexpected part fuel false

/-- Passes over a value; `fuel` bounds how deep it nests. -/
def skipValue : (fuel : Nat) → Scanner Unit
  | 0 => failNext .tooDeep
  | fuel + 1 => do
    match ← blanks with
    | none => failNext .eofInValue
    | some b =>
      if b = byte '[' then
        skip
        skipParts (byte ']') .eofInList .expectedListEnd (skipValue fuel) ((← budget) + 1) true
      else if b = byte '\x7b' then
        skip
        let part : Scanner Unit := do
          skipKey
          skipValue fuel
        skipParts (byte '\x7d') .eofInObject .expectedObjectEnd part ((← budget) + 1) true
      else if b = byte '"' then
        skip
        skipString ((← budget) + 1)
      else if b = byte '-' then
        skip
        skipNumber
      else if (digit? b).isSome then skipNumber
      else
        let _ ← plainValue b

/-- Passes over the value that comes next. -/
def ignored : Scanner Unit := do
  skipValue ((← budget) + 1)

end ShapeCodec.Json.Scanner
