import ShapeCodec.Json.Basic
import ShapeCodec.Text.Quoted

/-!
# Writing JSON

The text of a JSON value, either without blanks or with one element to a line. Only quotes,
backslashes and controls are escaped.
-/

namespace ShapeCodec.Json

/-- A number below 65536 as four hexadecimal digits. -/
def hex4 (n : Nat) : String :=
  let digits := Text.hex n
  "".pushn '0' (4 - digits.length) ++ digits

/-- The text of one character within a string. -/
def escapeChar (c : Char) : String :=
  if c = '"' then "\\\""
  else if c = '\\' then "\\\\"
  else if c.toNat = 8 then "\\b"
  else if c.toNat = 12 then "\\f"
  else if c = '\n' then "\\n"
  else if c = '\r' then "\\r"
  else if c = '\t' then "\\t"
  else if c.toNat < 32 then "\\u" ++ hex4 c.toNat
  else c.toString

/-- The text of a string. -/
def stringText (s : String) : String :=
  "\"" ++ String.join (s.toList.map escapeChar) ++ "\""

/-- The text of a value without parts. -/
def Leaf.text : Leaf → String
  | .boolean b => if b then "true" else "false"
  | .number n => n.text
  | .string s => stringText s

/-- How each kind of value is written without blanks. -/
def compactWalk : Tree.Walk Unit Leaf String where
  null := fun _ => "null"
  leaf := fun _ v => v.text
  list := fun _ items => "[" ++ ",".intercalate (items.map Tree.Visited.result) ++ "]"
  map := fun _ members =>
    "\x7b" ++ ",".intercalate (members.map fun (k, v) => stringText k ++ ":" ++ v.result) ++ "\x7d"

/-- The text of a value without blanks. -/
def compact (j : Json) : String :=
  j.walk compactWalk

/-- Lines between brackets, indented one step more than the brackets. -/
def block (opening closing : String) (indent : Nat) (lines : List String) : String :=
  if lines.isEmpty then opening ++ closing
  else
    let margin := "\n" ++ "".pushn ' ' (2 * (indent + 1))
    opening ++ margin ++ ("," ++ margin).intercalate lines ++ "\n" ++ "".pushn ' ' (2 * indent)
      ++ closing

/-- How each kind of value is written with one element to a line, at a given indentation. -/
def prettyWalk : Tree.Walk Unit Leaf (Nat → String) where
  null := fun _ _ => "null"
  leaf := fun _ v _ => v.text
  list := fun _ items indent => block "[" "]" indent (items.map fun v => v.result (indent + 1))
  map := fun _ members indent =>
    block "\x7b" "\x7d" indent
      (members.map fun (k, v) => stringText k ++ ": " ++ v.result (indent + 1))

/-- The text of a value with one element to a line. -/
def pretty (j : Json) : String :=
  j.walk prettyWalk 0

end ShapeCodec.Json
