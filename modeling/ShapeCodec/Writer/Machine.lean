import ShapeCodec.Schema.Members
import ShapeCodec.Writer.Call

/-!
# The writing machine

Runs writer calls on a stack of open containers. Each container is pushed before the calls for its
parts and popped after them, and its value goes to the container below. A call that fails leaves the
containers it has opened behind; values written later on go into those and never into the result.
-/

namespace ShapeCodec

/-- What there is to know about a kind of output in order to write values to it. -/
structure Sink (α : Type) where
  /-- The kind of output, for messages. -/
  name : String
  /-- The key of a member within a structure. -/
  memberKey? : SchemaRef → Option String
  null : SchemaRef → α
  scalar : SchemaRef → Scalar → Result α
  document : SchemaRef → Document → Result α
  list : SchemaRef → List α → α
  map : SchemaRef → Entries α → α

namespace Writer

variable {α : Type}

/-- A container that is still open. -/
inductive Frame (α : Type) where
  | members (written : Entries α)
  | elements (written : List α)
  /-- A map, with the key that the next value belongs to. -/
  | entries (written : Entries α) (key : Option String)

/-- The open containers, innermost first, and the last value that was written outside of all. -/
structure State (α : Type) where
  stack : List (Frame α) := []
  result : Option α := none
  /-- The errors of failed attempts, in order. -/
  passedOver : List Error := []

/-- What a run leads to: it may fail, and it leaves a state behind in any case. -/
abbrev Outcome (α : Type) := Result Unit × State α

variable (m : Model) (sink : Sink α)

/-- The key under which a structure takes a value. -/
def memberKey (schema : SchemaRef) : Result String :=
  match sink.memberKey? schema with
  | some key => .ok key
  | none =>
    .error (.serialization s!"{(m.id schema).text} written inside a structure is not a member")

/-- A container with one more value. -/
def Frame.take (schema : SchemaRef) (value : α) : Frame α → Result (Frame α)
  | .members written => do return .members (written.insert (← memberKey m sink schema) value)
  | .elements written => .ok (.elements (written ++ [value]))
  | .entries written (some key) => .ok (.entries (written.insert key value) none)
  | .entries _ none => .error (.serialization "map value written without a key")

/-- Hands a finished value to the innermost container, or makes it the result. -/
def emit (schema : SchemaRef) (value : α) (st : State α) : Outcome α :=
  match st.stack with
  | [] => (.ok (), { st with result := some value })
  | frame :: below =>
    match frame.take m sink schema value with
    | .ok frame => (.ok (), { st with stack := frame :: below })
    | .error e => (.error e, st)

/-- Hands on a value that may not have come about. -/
def emitResult (schema : SchemaRef) (value : Result α) (st : State α) : Outcome α :=
  match value with
  | .ok value => emit m sink schema value st
  | .error e => (.error e, st)

/-- Opens a container. -/
def push (frame : Frame α) (st : State α) : State α :=
  { st with stack := frame :: st.stack }

/-- The error about a container that is not the one that was opened. -/
def unbalanced : Error :=
  .serialization s!"unbalanced {sink.name} frames"

/-- The value of a structure that has been written; a union has exactly one member. -/
def closeStructure (schema : SchemaRef) : Frame α → Result α
  | .members written =>
    if m.typeOf schema = .union ∧ written.length ≠ 1 then
      .error (.unionArity (m.shapeId schema) written.length)
    else .ok (sink.map schema written)
  | _ => .error (unbalanced sink)

/-- The value of a list that has been written. -/
def closeList (schema : SchemaRef) : Frame α → Result α
  | .elements written => .ok (sink.list schema written)
  | _ => .error (unbalanced sink)

/-- The value of a map that has been written. -/
def closeMap (schema : SchemaRef) : Frame α → Result α
  | .entries written _ => .ok (sink.map schema written)
  | _ => .error (unbalanced sink)

/-- Closes the innermost container and hands its value on. -/
def pop (schema : SchemaRef) (close : Frame α → Result α) (st : State α) : Outcome α :=
  match st.stack with
  | [] => (.error (unbalanced sink), st)
  | frame :: below => emitResult m sink schema (close frame) { st with stack := below }

/-- Goes on after a step unless it failed. -/
def andThen (outcome : Outcome α) (next : State α → Outcome α) : Outcome α :=
  match outcome with
  | (.ok (), st) => next st
  | (.error e, st) => (.error e, st)

/-- Sets the key for the next value of the innermost container, which has to be a map. -/
def setKey (key : String) (st : State α) : Outcome α :=
  match st.stack with
  | .entries written _ :: below => (.ok (), { st with stack := .entries written (some key) :: below })
  | _ => (.error (.serialization "map entry written outside a map"), st)

/-- Passes over an error, keeping a record of it. -/
def passOver : Outcome α → Outcome α
  | (.ok (), st) => (.ok (), st)
  | (.error e, st) => (.ok (), { st with passedOver := st.passedOver ++ [e] })

mutual

/-- Runs one call. -/
def run : Call → State α → Outcome α
  | .scalar schema value, st => emitResult m sink schema (sink.scalar schema value) st
  | .null schema, st => emit m sink schema (sink.null schema) st
  | .document schema value, st => emitResult m sink schema (sink.document schema value) st
  | .structure schema members, st =>
    andThen (runAll members (push (.members []) st)) (pop m sink schema (closeStructure m sink schema))
  | .list schema elements, st =>
    andThen (runAll elements (push (.elements []) st)) (pop m sink schema (closeList sink schema))
  | .map schema entries, st =>
    andThen (runAll entries (push (.entries [] none) st)) (pop m sink schema (closeMap sink schema))
  | .entry key value, st => andThen (setKey key st) (runAll value)
  | .attempt call, st => passOver (run call st)
  | .fail e, st => (.error e, st)

/-- Runs calls one after the other, up to the first that fails. -/
def runAll : List Call → State α → Outcome α
  | [], st => (.ok (), st)
  | call :: calls, st => andThen (run call st) (runAll calls)

end

/-- The value that has been written. -/
def finish (st : State α) : Result α :=
  match st.result with
  | some value => .ok value
  | none => .error (.serialization "no value was written")

/-- The value that a single call writes. -/
def write (call : Call) : Result α :=
  match run m sink call {} with
  | (.ok (), st) => finish st
  | (.error e, _) => .error e

end Writer
end ShapeCodec
