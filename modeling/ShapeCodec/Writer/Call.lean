import ShapeCodec.Document.Basic

/-!
# Writer calls

A value is written as a tree of calls. Containers bring the calls that write their parts; a call
can be an attempt, whose failure is passed over, or a failure that was found on the way.
-/

namespace ShapeCodec

/-- One step of writing a value. -/
inductive Call where
  | scalar (schema : SchemaRef) (value : Scalar)
  | null (schema : SchemaRef)
  /-- A document as it is, whatever schema it carries. -/
  | document (schema : SchemaRef) (value : Document)
  | structure (schema : SchemaRef) (members : List Call)
  | list (schema : SchemaRef) (elements : List Call)
  | map (schema : SchemaRef) (entries : List Call)
  /-- A key of a map and the calls that write its value. -/
  | entry (key : String) (value : List Call)
  /-- A call whose error is not passed on. -/
  | attempt (call : Call)
  | fail (error : Error)

namespace Call

/-- The call that follows from something that may already have failed. -/
def ofResult (r : Result Call) : Call :=
  match r with
  | .ok call => call
  | .error e => fail e

end Call
end ShapeCodec
