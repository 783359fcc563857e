import ShapeCodec.Schema.Members

/-!
# Configuration

What readers and writers can be told: how to treat nulls in collections that do not keep them, how
deep input may nest, and how timestamps are written where no trait says so.
-/

namespace ShapeCodec

/-- What happens to a null in a collection that is not sparse. -/
inductive NullPolicy where
  | drop
  | reject
deriving DecidableEq, Repr, Inhabited

namespace NullPolicy

def all : List NullPolicy :=
  [.drop, .reject]

/-- The name of a policy. -/
def name : NullPolicy → String
  | drop => "drop"
  | reject => "reject"

/-- Meets a null in a collection: it is passed over, or it is an error. -/
def onNull (policy : NullPolicy) (m : Model) (collection : SchemaRef) : Result Unit :=
  match policy with
  | drop => .ok ()
  | reject => .error (.nullNotAllowed (m.id collection))

end NullPolicy

/-- The settings of a codec that do not depend on the format. -/
structure Config where
  nullPolicy : NullPolicy := .drop
  /-- The deepest nesting of structures, unions, lists and maps that is read. -/
  maxDepth : Nat := 64
  /-- The format of timestamps without a trait of their own. -/
  timestampFormat : TimestampFormat := .epochSeconds
deriving DecidableEq, Repr, Inhabited

namespace Config

/-- The format of timestamps under a schema. -/
def timestampFormatFor (c : Config) (m : Model) (schema : SchemaRef) : TimestampFormat :=
  (m.timestampFormat? schema).getD c.timestampFormat

/-- Fails at a depth beyond the limit. -/
def checkDepth (c : Config) (depth : Nat) : Result Unit :=
  if c.maxDepth < depth then .error (.nestingTooDeep c.maxDepth) else .ok ()

end Config
end ShapeCodec
