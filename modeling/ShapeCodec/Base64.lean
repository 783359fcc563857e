/-!
# Base64

Bytes as text of the standard alphabet. Decoding is strict: the padding is the canonical one and
the bits that it stands for are zero. A fault says where it was noticed.
-/

namespace ShapeCodec

/-- A string of bytes. -/
abbrev Bytes := List UInt8

/-- The UTF-8 bytes of a text. -/
def Bytes.ofString (s : String) : Bytes :=
  s.toUTF8.data.toList

namespace Base64

/-- The byte that pads the last group. -/
def pad : UInt8 := 61

/-- The symbol of a six-bit value. -/
def symbol (v : Nat) : UInt8 :=
  if v < 26 then UInt8.ofNat (65 + v)
  else if v < 52 then UInt8.ofNat (97 + (v - 26))
  else if v < 62 then UInt8.ofNat (48 + (v - 52))
  else if v = 62 then 43 else 47

/-- The six-bit value of a symbol. -/
def value? (b : UInt8) : Option Nat :=
  let n := b.toNat
  if 65 ≤ n ∧ n ≤ 90 then some (n - 65)
  else if 97 ≤ n ∧ n ≤ 122 then some (n - 97 + 26)
  else if 48 ≤ n ∧ n ≤ 57 then some (n - 48 + 52)
  else if n = 43 then some 62
  else if n = 47 then some 63
  else none

/-- Three bytes become four symbols; a shorter last group is padded. -/
def encodeBytes : Bytes → Bytes
  | [] => []
  | [a] => [symbol (a.toNat / 4), symbol (a.toNat % 4 * 16), pad, pad]
  | [a, b] =>
    [symbol (a.toNat / 4), symbol (a.toNat % 4 * 16 + b.toNat / 16), symbol (b.toNat % 16 * 4), pad]
  | a :: b :: c :: rest =>
    symbol (a.toNat / 4) :: symbol (a.toNat % 4 * 16 + b.toNat / 16)
      :: symbol (b.toNat % 16 * 4 + c.toNat / 64) :: symbol (c.toNat % 64) :: encodeBytes rest

/-- The text of a string of bytes. -/
def encode (bytes : Bytes) : String :=
  String.ofList ((encodeBytes bytes).map fun b => Char.ofNat b.toNat)

/-- Why a text is not the encoding of any bytes. -/
inductive Fault where
  | symbol (byte : UInt8) (offset : Nat)
  | lastSymbol (byte : UInt8) (offset : Nat)
  | length (length : Nat)
  | padding
deriving DecidableEq, Repr

def Fault.message : Fault → String
  | .symbol byte offset => s!"Invalid symbol {byte.toNat}, offset {offset}."
  | .lastSymbol byte offset => s!"Invalid last symbol {byte.toNat}, offset {offset}."
  | .length n => s!"Invalid input length: {n}"
  | .padding => "Invalid padding"

/-- The values of symbols that must all belong to the alphabet; the first one has the given offset. -/
def values (offset : Nat) : Bytes → Except Fault (List Nat)
  | [] => .ok []
  | b :: rest =>
    match value? b with
    | none => .error (.symbol b offset)
    | some v =>
      match values (offset + 1) rest with
      | .error e => .error e
      | .ok vs => .ok (v :: vs)

/-- Four values become three bytes; two or three values at the end become one or two. -/
def join : List Nat → Bytes
  | a :: b :: c :: d :: rest =>
    UInt8.ofNat (a * 4 + b / 16) :: UInt8.ofNat (b % 16 * 16 + c / 4)
      :: UInt8.ofNat (c % 4 * 64 + d) :: join rest
  | [a, b, c] => [UInt8.ofNat (a * 4 + b / 16), UInt8.ofNat (b % 16 * 16 + c / 4)]
  | [a, b] => [UInt8.ofNat (a * 4 + b / 16)]
  | _ => []

/-- What has been seen of the last group. -/
structure Tail where
  /-- Values of the symbols read so far. -/
  values : List Nat := []
  last : UInt8 := 0
  pads : Nat := 0
  firstPad : Nat := 0

/-- Reads the last group, which may end in padding; `index` counts from the start of the group. -/
def readTail (offset : Nat) : (index : Nat) → Tail → Bytes → Except Fault Tail
  | _, t, [] => .ok t
  | index, t, b :: rest =>
    if b = pad then
      if index < 2 then .error (.symbol b (offset + index))
      else
        readTail offset (index + 1)
          { t with pads := t.pads + 1, firstPad := if t.pads = 0 then index else t.firstPad } rest
    else if 0 < t.pads then .error (.symbol pad (offset + t.firstPad))
    else
      match value? b with
      | none => .error (.symbol b (offset + index))
      | some v => readTail offset (index + 1) { t with values := t.values ++ [v], last := b } rest

/-- The bits of a last group that belong to no byte. -/
def unusedBits : List Nat → Nat
  | [_, b] => b % 16
  | [_, _, c] => c % 4
  | _ => 0

/-- The bytes of the last group. -/
def decodeTail (offset : Nat) (bytes : Bytes) : Except Fault (List Nat) := do
  let t ← readTail offset 0 {} bytes
  let count := t.values.length
  if count < 2 then throw (.length (offset + count))
  if (t.pads + count) % 4 ≠ 0 then throw .padding
  if unusedBits t.values ≠ 0 then throw (.lastSymbol t.last (offset + count - 1))
  return t.values

/-- A foreign byte that alone starts a new group is reported before any other fault. -/
def checkStray (bytes : Bytes) : Except Fault Unit :=
  match bytes.getLast? with
  | some b =>
    if bytes.length % 4 = 1 ∧ b ≠ pad ∧ value? b = none then
      .error (.symbol b (bytes.length - 1))
    else .ok ()
  | none => .ok ()

/-- The bytes that a text encodes. -/
def decodeBytes (bytes : Bytes) : Except Fault Bytes := do
  if bytes.isEmpty then return []
  checkStray bytes
  let rest := bytes.length % 4
  let whole := bytes.length - (if rest = 0 then 4 else rest)
  let front ← values 0 (bytes.take whole)
  let tail ← decodeTail whole (bytes.drop whole)
  return join (front ++ tail)

def decode (text : String) : Except Fault Bytes :=
  decodeBytes (Bytes.ofString text)

end Base64
end ShapeCodec
