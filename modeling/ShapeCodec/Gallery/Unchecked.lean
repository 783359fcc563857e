import ShapeCodec.Gallery.Types

/-!
# Shapes that no check has seen

A shape can be built without a look at its layout, so two of its members may have one name; and a
type may be declared with fields that hold more than their members do. Here are small shapes and
types of that kind, with values. They show what the laws about round trips have to leave out.
-/

namespace ShapeCodec.Gallery

open Typed (Body Declaration Field Table Value ValueType)

/-- Two members of one name, each with a wire key of its own. -/
def twins (first second : Pointer) : List Part :=
  [⟨"a", first, { jsonName := some "x" }⟩, ⟨"a", second, { jsonName := some "y" }⟩]

def uncheckedExhibits : List Exhibit :=
  [ structureOf "x#Twins" (twins number number)
  , listOf "x#Numbers" number
  , structureOf "x#Mixed" (twins (.shape "x#Numbers") number)
  , unionOf "x#Choice" [⟨"text", text, {}⟩]
  , listOf "x#SparseNumbers" number sparse
  , listOf "x#SparseDocuments" (.prelude .document) sparse
  , structureOf "x#Gaps"
      [⟨"numbers", .shape "x#SparseNumbers", {}⟩, ⟨"documents", .shape "x#SparseDocuments", {}⟩]
  , structureOf "x#Stamp" [⟨"at", .prelude .document, { timestampFormat := some .dateTime }⟩] ]

/-- The model of the shapes that no check has seen. -/
def unchecked : Model :=
  uncheckedExhibits.foldl Exhibit.addTo {}

def uncheckedEntries : List Entry :=
  [ entry "Twins" "x#Twins" (.record [⟨"first", optional int⟩, ⟨"second", optional int⟩])
  , entry "Choice" "x#Choice" (.union [⟨"Text", optional string⟩] none)
  , entry "Gaps" "x#Gaps" (.record
      [⟨"numbers", .list (optional (optional int))⟩, ⟨"documents", .list (optional .document)⟩])
  , entry "Stamp" "x#Stamp" (.record [⟨"at", .scalar .timestamp⟩]) ]

/-- Types that are bound to these shapes. -/
def uncheckedTypes : Table :=
  { declarations := (uncheckedEntries.map fun e =>
      { name := e.shown, schema := schema unchecked e.shape, body := e.body :
        Declaration }).toArray }

theorem one_fits : IntWidth.integer.fits 1 = true := rfl

theorem two_fits : IntWidth.integer.fits 2 = true := rfl

/-- A number for each of two members that have one name. -/
def bothTwins : Value :=
  .record 0 [.present (.scalar (.integer .integer ⟨1, one_fits⟩)),
    .present (.scalar (.integer .integer ⟨2, two_fits⟩))]

/-- A time in a member that holds a document, with a format for times. -/
def stamp : Value :=
  .record 3 [.scalar (.timestamp ⟨5, 0⟩)]

end ShapeCodec.Gallery
