import ShapeCodec.Schema.Layout
import ShapeCodec.Typed.Basic

/-!
# Types as they are written

A declaration names the type of a field by a text. All that has to be known about it is whether the
value may be missing: it may when the type is a path whose last name is `Option`, with exactly one
type as its argument.
-/

namespace ShapeCodec.Typed

/-- The name without the mark of names that would otherwise be keywords. -/
def plainName (name : String) : String :=
  match name.toList with
  | 'r' :: '#' :: rest => String.ofList rest
  | _ => name

/-- A type as it is written. -/
structure TypeText where
  text : String
deriving DecidableEq, Repr

namespace TypeText

/-- The pieces of a type. -/
inductive Token where
  | name (text : String)
  | separator
  | opening (c : Char)
  | closing (c : Char)
  | comma
  | other (c : Char)
deriving DecidableEq, Repr

/-- Whether a character can be part of a name. -/
def isNameChar (c : Char) : Bool :=
  c.isAlphanum || c = '_' || 127 < c.toNat

/-- The piece that a single character is. -/
def Token.ofChar (c : Char) : Token :=
  if c = '<' ∨ c = '(' ∨ c = '[' ∨ c = '\x7b' then .opening c
  else if c = '>' ∨ c = ')' ∨ c = ']' ∨ c = '\x7d' then .closing c
  else if c = ',' then .comma
  else .other c

/-- Adds a character to the name that is being read. -/
def extendName (c : Char) : List Token → List Token
  | .name text :: rest => .name (text.push c) :: rest
  | tokens => .name c.toString :: tokens

/--
The pieces of a type, last piece first; `joined` tells whether the next character may go on with
the name that was read last.
-/
def scan (joined : Bool) (read : List Token) : List Char → List Token
  | [] => read
  | ':' :: ':' :: rest => scan false (.separator :: read) rest
  | '-' :: '>' :: rest => scan false (.other '>' :: read) rest
  | 'r' :: '#' :: rest =>
    if joined then scan true (extendName 'r' read) ('#' :: rest)
    else scan true (.name "r#" :: read) rest
  | c :: rest =>
    if isNameChar c then
      scan true (if joined then extendName c read else .name c.toString :: read) rest
    else if c.isWhitespace then scan false read rest
    else scan false (Token.ofChar c :: read) rest
termination_by cs => cs.length

/-- The pieces of a type. -/
def tokens (t : TypeText) : List Token :=
  (scan false [] t.text.toList).reverse

/-- What stands between brackets that have been opened, cut at commas, and what follows them. -/
def arguments : (depth : Nat) → (current : List Token) → List Token →
    Option (List (List Token) × List Token)
  | _, _, [] => none
  | depth, current, .opening c :: rest => arguments (depth + 1) (.opening c :: current) rest
  | 0, current, .closing _ :: rest =>
    some (if current.isEmpty then [] else [current.reverse], rest)
  | depth + 1, current, .closing c :: rest => arguments depth (.closing c :: current) rest
  | 0, current, .comma :: rest =>
    (arguments 0 [] rest).map fun (args, rest) => (current.reverse :: args, rest)
  | depth, current, token :: rest => arguments depth (token :: current) rest

/-- Whether an argument is a type, and not a lifetime, a constant or a binding. -/
def isType (argument : List Token) : Bool :=
  match argument with
  | [] => false
  | .name text :: rest =>
    !(text.toList.head?.any Char.isDigit) && text != "true" && text != "false"
      && rest.head? != some (.other '=') && rest.head? != some (.other ':')
  | .opening c :: _ => c != '\x7b'
  | .other c :: _ => c != '\'' && c != '-' && c != '"'
  | _ => true

/-- Whether a path may be missing: only its last name and the arguments of that count. -/
def lastIsOption : (fuel : Nat) → List Token → Bool
  | 0, _ => false
  | fuel + 1, .name text :: rest =>
    let rest :=
      match rest with
      | .separator :: Token.opening '<' :: rest => Token.opening '<' :: rest
      | rest => rest
    match rest with
    | .opening '<' :: rest =>
      match arguments 0 [] rest with
      | some (args, []) => text == "Option" && args.length == 1 && args.all isType
      | some (_, .separator :: rest) => lastIsOption fuel rest
      | _ => false
    | .separator :: rest => lastIsOption fuel rest
    | _ => false
  | _ + 1, _ => false

/-- Whether values of the type may be missing. -/
def isOption (t : TypeText) : Bool :=
  let tokens := t.tokens
  match tokens with
  | .separator :: rest => lastIsOption tokens.length rest
  | tokens => lastIsOption tokens.length tokens

end TypeText
end ShapeCodec.Typed
