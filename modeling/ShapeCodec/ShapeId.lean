/-!
# Shape identifiers

A shape is named `namespace#Name`, a member of it `namespace#Name$member`. The parts are cut out
of the text on demand; `ShapeId.parse?` says which texts are well formed.
-/

namespace ShapeCodec

/-- The name of a shape or of one of its members, kept as its text. -/
structure ShapeId where
  text : String
deriving DecidableEq, Repr, Inhabited

namespace ShapeId

/-- The characters before the first `mark`, and those after it, when `mark` occurs. -/
def cut? (mark : Char) (cs : List Char) : Option (List Char × List Char) :=
  match cs.span (· != mark) with
  | (_, []) => none
  | (before, _ :: after) => some (before, after)

/-- The part before the first `#`, empty when there is none. -/
def namespacePart (id : ShapeId) : String :=
  match cut? '#' id.text.toList with
  | some (before, _) => String.ofList before
  | none => ""

/-- The text after the first `#`, or all of it when there is none. -/
def localPart (id : ShapeId) : List Char :=
  match cut? '#' id.text.toList with
  | some (_, after) => after
  | none => id.text.toList

/-- The name of the shape, without namespace and member. -/
def namePart (id : ShapeId) : String :=
  String.ofList (id.localPart.takeWhile (· != '$'))

/-- The member after the first `$`, if there is one. -/
def memberPart? (id : ShapeId) : Option String :=
  (cut? '$' id.text.toList).map fun parts => String.ofList parts.2

/-- The id of the member `name` of this shape; a member that the id already names is replaced. -/
def withMember (id : ShapeId) (name : String) : ShapeId :=
  ⟨String.ofList (id.text.toList.takeWhile (· != '$')) ++ "$" ++ name⟩

/--
A text is a shape id when it has exactly one `#`, the namespace before it and the name after it
(up to a first `$`) are not empty, and it does not end in `$`.
-/
def wellFormed (text : String) : Bool :=
  match cut? '#' text.toList with
  | none => false
  | some (space, rest) =>
    !space.isEmpty && !(rest.takeWhile (· != '$')).isEmpty && !rest.contains '#'
      && rest.getLast? != some '$'

def parse? (text : String) : Option ShapeId :=
  if wellFormed text then some ⟨text⟩ else none

/-- Ids are ordered by their code points, which is also the order of their UTF-8 bytes. -/
def order (a b : ShapeId) : Ordering :=
  compare a.text b.text

end ShapeId
end ShapeCodec
