import ShapeCodec.Base64
import ShapeCodec.Numeral

/-!
# Scanning JSON text

The words of JSON text: blanks, names, numbers and strings. A scanner takes bytes off the front of
its input. When it fails it says why and how much input was left, from which the line and column
follow.
-/

namespace ShapeCodec.Json

/-- Why a text is not JSON. -/
inductive Cause where
  | eofInValue
  | eofInList
  | eofInObject
  | eofInString
  | expectedValue
  | expectedName
  | invalidNumber
  | trailingCharacters
  | trailingComma
  | expectedColon
  | expectedListEnd
  | expectedObjectEnd
  | keyNotString
  | invalidEscape
  | invalidUnicode
  | loneSurrogate
  | unfinishedSurrogate
  | controlInString
  | tooDeep
  | numberTooLarge
  /-- A value that is JSON but not what was to be read. -/
  | unsuitable (reason : String)
deriving DecidableEq, Repr

def Cause.message : Cause → String
  | eofInValue => "EOF while parsing a value"
  | eofInList => "EOF while parsing a list"
  | eofInObject => "EOF while parsing an object"
  | eofInString => "EOF while parsing a string"
  | expectedValue => "expected value"
  | expectedName => "expected ident"
  | invalidNumber => "invalid number"
  | trailingCharacters => "trailing characters"
  | trailingComma => "trailing comma"
  | expectedColon => "expected `:`"
  | expectedListEnd => "expected `,` or `]`"
  | expectedObjectEnd => "expected `,` or `\x7d`"
  | keyNotString => "key must be a string"
  | invalidEscape => "invalid escape"
  | invalidUnicode => "invalid unicode code point"
  | loneSurrogate => "lone leading surrogate in hex escape"
  | unfinishedSurrogate => "unexpected end of hex escape"
  | controlInString => "control character (\\u0000-\\u001F) found while parsing a string"
  | tooDeep => "recursion limit exceeded"
  | numberTooLarge => "number out of range"
  | unsuitable reason => reason

/-- What went wrong, and how many bytes of the input had not been read by then. -/
structure Fault where
  cause : Cause
  left : Nat
deriving DecidableEq, Repr

namespace Fault

/-- The line and the column after a run of bytes: lines count from one, columns are bytes. -/
def place (bytes : Bytes) : Nat × Nat :=
  bytes.foldl (fun p b => if b = 10 then (p.1 + 1, 0) else (p.1, p.2 + 1)) (1, 0)

/-- The text shown for a fault in a given input. -/
def message (input : Bytes) (f : Fault) : String :=
  let (line, column) := place (input.take (input.length - f.left))
  s!"{f.cause.message} at line {line} column {column}"

end Fault

/-- Reads from the front of some bytes. -/
abbrev Scanner := StateT Bytes (Except Fault)

namespace Scanner

/-- Fails right after what has been read. -/
def fail {α : Type} (cause : Cause) : Scanner α :=
  fun rest => .error ⟨cause, rest.length⟩

/-- Fails after the byte that comes next, if there is one. -/
def failNext {α : Type} (cause : Cause) : Scanner α :=
  fun rest => .error ⟨cause, rest.length - 1⟩

/-- The next byte, which stays where it is. -/
def peek? : Scanner (Option UInt8) :=
  fun rest => .ok (rest.head?, rest)

/-- Takes the next byte away. -/
def next? : Scanner (Option UInt8)
  | [] => .ok (none, [])
  | b :: rest => .ok (some b, rest)

/-- Drops the next byte. -/
def skip : Scanner Unit :=
  fun rest => .ok ((), rest.drop 1)

/-- How many bytes are left; no loop takes more steps. -/
def budget : Scanner Nat :=
  fun rest => .ok (rest.length, rest)

/-- The byte of an ASCII character. -/
def byte (c : Char) : UInt8 :=
  UInt8.ofNat c.toNat

/-- The four blanks of JSON. -/
def isBlank (b : UInt8) : Bool :=
  b = 32 || b = 10 || b = 9 || b = 13

/-- Passes over blanks and looks at what follows. -/
def blanks : Scanner (Option UInt8) :=
  fun rest =>
    let rest := rest.dropWhile isBlank
    .ok (rest.head?, rest)

/-- Reads the rest of a name. -/
def name : List Char → Scanner Unit
  | [] => return ()
  | c :: cs => do
    match ← next? with
    | none => fail .eofInValue
    | some b => if b = byte c then name cs else fail .expectedName

/-! ### Numbers -/

def digit? (b : UInt8) : Option Digit :=
  Digit.ofChar? (Char.ofNat b.toNat)

/-- The digits at the front of some bytes, and the bytes after them. -/
def spanDigits : Bytes → List Digit × Bytes
  | [] => ([], [])
  | b :: rest =>
    match digit? b with
    | none => ([], b :: rest)
    | some d =>
      let (ds, rest) := spanDigits rest
      (d :: ds, rest)

/-- As many digits as there are. -/
def digits : Scanner (List Digit) :=
  fun rest => .ok (spanDigits rest)

/-- The part of a number before the point, which has no needless zeros in front. -/
def whole : Scanner (List Digit) := do
  match ← next? with
  | none => fail .eofInValue
  | some b =>
    match digit? b with
    | none => fail .invalidNumber
    | some d =>
      if d.val = 0 then
        if ((← peek?).bind digit?).isSome then failNext .invalidNumber else return [.zero]
      else return d :: (← digits)

/-- A point and the digits after it, if a point comes next. -/
def fraction : Scanner (Option Digits) := do
  if (← peek?) = some (byte '.') then
    skip
    match Digits.ofList? (← digits) with
    | some ds => return some ds
    | none => if (← peek?).isNone then failNext .eofInValue else failNext .invalidNumber
  else return none

/-- The sign of an exponent. -/
def exponentSign : Scanner Bool := do
  match ← peek? with
  | some b =>
    if b = byte '-' then
      skip
      return true
    else
      if b = byte '+' then skip
      return false
  | none => return false

/-- The exponent, if the mark of one comes next. -/
def exponent : Scanner (Option (Bool × Digits)) := do
  match ← peek? with
  | none => return none
  | some b =>
    if b = byte 'e' ∨ b = byte 'E' then
      skip
      let negative ← exponentSign
      match ← next? with
      | none => fail .eofInValue
      | some b =>
        match digit? b with
        | none => fail .invalidNumber
        | some d => return some (negative, ⟨d, ← digits⟩)
    else return none

/-- A number, after its sign. -/
def number (negative : Bool) : Scanner Numeral := do
  let ds ← whole
  let fraction ← fraction
  let exponent ← exponent
  return { negative, whole := Digit.valueFrom 0 ds, fraction, exponent }

/-! ### Strings -/

def hexDigit? (b : UInt8) : Option Nat :=
  let n := b.toNat
  if 48 ≤ n ∧ n ≤ 57 then some (n - 48)
  else if 97 ≤ n ∧ n ≤ 102 then some (n - 87)
  else if 65 ≤ n ∧ n ≤ 70 then some (n - 55)
  else none

/-- The number that four hexadecimal digits denote. -/
def hexValue? (bytes : Bytes) : Option Nat :=
  bytes.foldl (fun n b => n.bind fun n => (hexDigit? b).map (16 * n + ·)) (some 0)

/-- Four hexadecimal digits. -/
def hex4 : Scanner Nat :=
  fun rest =>
    if rest.length < 4 then .error ⟨.eofInString, 0⟩
    else
      match hexValue? (rest.take 4) with
      | some n => .ok (n, rest.drop 4)
      | none => .error ⟨.invalidEscape, rest.length - 4⟩

/-- The byte that has to come next in the second half of a surrogate pair. -/
def surrogateMark (c : Char) : Scanner Unit := do
  match ← next? with
  | none => fail .eofInString
  | some b => if b = byte c then return () else fail .unfinishedSurrogate

/-- The character of a hexadecimal escape; characters beyond the basic plane take two. -/
def hexEscape : Scanner Char := do
  let n ← hex4
  if 0xDC00 ≤ n ∧ n ≤ 0xDFFF then fail .loneSurrogate
  else if n < 0xD800 ∨ 0xDBFF < n then return Char.ofNat n
  else
    surrogateMark '\\'
    surrogateMark 'u'
    let low ← hex4
    if low < 0xDC00 ∨ 0xDFFF < low then fail .loneSurrogate
    else return Char.ofNat (0x10000 + (n - 0xD800) * 0x400 + (low - 0xDC00))

/-- The character that an escape stands for, after the backslash. -/
def escape : Scanner Char := do
  match ← next? with
  | none => fail .eofInString
  | some b =>
    if b = byte '"' then return '"'
    else if b = byte '\\' then return '\\'
    else if b = byte '/' then return '/'
    else if b = byte 'b' then return Char.ofNat 8
    else if b = byte 'f' then return Char.ofNat 12
    else if b = byte 'n' then return '\n'
    else if b = byte 'r' then return '\r'
    else if b = byte 't' then return '\t'
    else if b = byte 'u' then hexEscape
    else fail .invalidEscape

/-- The bytes of a string after the opening quote, last byte first. -/
def stringBytes : (fuel : Nat) → Bytes → Scanner Bytes
  | 0, _ => fail .eofInString
  | fuel + 1, read => do
    match ← next? with
    | none => fail .eofInString
    | some b =>
      if b = byte '"' then return read
      else if b = byte '\\' then
        let c ← escape
        stringBytes fuel ((String.utf8EncodeChar c).reverse ++ read)
      else if b < 32 then fail .controlInString
      else stringBytes fuel (b :: read)

/-- The text that bytes encode. -/
def utf8? (bytes : Bytes) : Option String :=
  String.fromUTF8? ⟨bytes.toArray⟩

/-- How many bytes at the front encode whole characters, which take at most four bytes each. -/
def textLength : (fuel : Nat) → Bytes → Nat
  | 0, _ => 0
  | fuel + 1, bytes =>
    match [1, 2, 3, 4].find? fun n => n ≤ bytes.length && (utf8? (bytes.take n)).isSome with
    | some n => n + textLength fuel (bytes.drop n)
    | none => 0

/--
A string after its opening quote. Bytes that encode no text are reported where they stand, once the
closing quote has been found.
-/
def string : Scanner String := fun input => do
  let (bytes, rest) ← stringBytes (input.length + 1) [] input
  match utf8? bytes.reverse with
  | some s => return (s, rest)
  | none => throw ⟨.invalidUnicode, input.length - textLength input.length input - 1⟩

end Scanner
end ShapeCodec.Json
