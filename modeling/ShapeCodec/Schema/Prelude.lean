import ShapeCodec.ShapeId
import ShapeCodec.ShapeType

/-!
# Prelude shapes

The shapes that every model can refer to: one for each simple type, the empty structure, and the
list and map that documents without a schema of their own are described by.
-/

namespace ShapeCodec

/-- A shape that exists in every model. -/
inductive PreludeShape where
  | scalar (type : ScalarType)
  | document
  | unit
  | documentList
  | documentMap
deriving DecidableEq, Repr

namespace PreludeShape

def type : PreludeShape → ShapeType
  | scalar type => type.shapeType
  | document => .document
  | unit => .structure
  | documentList => .list
  | documentMap => .map

/-- The id of a prelude shape. -/
def id : PreludeShape → ShapeId
  | scalar type => ⟨"smithy.api#" ++ type.shapeType.title⟩
  | document => ⟨"smithy.api#Document"⟩
  | unit => ⟨"smithy.api#Unit"⟩
  | documentList => ⟨"shapewire.prelude#DocumentList"⟩
  | documentMap => ⟨"shapewire.prelude#DocumentMap"⟩

/-- The shapes that members can name as their targets. -/
def named : List PreludeShape :=
  ScalarType.all.map scalar ++ [document, unit]

/-- The prelude shape with an id; the two generic containers are not found this way. -/
def lookup? (id : ShapeId) : Option PreludeShape :=
  named.find? (·.id == id)

/-- Containers take the generic one of their kind, enums the shape of their values. -/
def ofShapeType (type : ShapeType) : PreludeShape :=
  match type.form with
  | .scalar type => scalar type
  | .document => document
  | .list => documentList
  | .map | .structure | .union => documentMap

end PreludeShape
end ShapeCodec
