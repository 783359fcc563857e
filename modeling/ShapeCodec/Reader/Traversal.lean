import ShapeCodec.Reader.Source

/-!
# Walking containers

The rules by which the parts of a container are handed on, the same for all input and for all that
is made of it. Members that are unknown or null count as absent; a union has exactly one member; a
null in a collection that is not sparse is dropped or refused.
-/

namespace ShapeCodec

/-- What every step of reading depends on. -/
structure Scope where
  model : Model
  config : Config

namespace Scope

variable {α : Type}

/-- Goes into a container at a depth, which is the number of containers around it. -/
def enter (s : Scope) (depth : Nat) : Result Unit :=
  s.config.checkDepth (depth + 1)

/-- The parts of a collection that are kept. A refused null stands where it was met. -/
def kept (s : Scope) (collection : SchemaRef) (isNull : α → Bool) (parts : List α) :
    List (Result α) :=
  let sparse := s.model.isSparse collection
  parts.filterMap fun part =>
    if isNull part && !sparse then
      match s.config.nullPolicy.onNull s.model collection with
      | .ok () => none
      | .error e => some (.error e)
    else some (.ok part)

end Scope

namespace Source

variable {Label Leaf α : Type} (src : Source Label Leaf)

/-- The members that are known and not null, in the order of the input. -/
def presentMembers (schema : SchemaRef) (isNull : α → Bool) (entries : Entries α) :
    List (SchemaRef × α) :=
  entries.filterMap fun (key, value) =>
    match src.member? schema key with
    | some member => if isNull value then none else some (member, value)
    | none => none

/-- The one member of a union. -/
inductive Chosen (α : Type) where
  | known (member : SchemaRef) (value : α)
  | unknown (tag : String) (value : α)

/-- The entries that count as members of a union. -/
def candidates (isNull : α → Bool) (entries : Entries α) : Entries α :=
  entries.filter fun (key, value) => !isNull value && !src.ignoresKey key

/-- The member that a union has, which has to be exactly one. -/
def choose (m : Model) (schema : SchemaRef) (isNull : α → Bool) (entries : Entries α) :
    Result (Chosen α) :=
  match src.candidates isNull entries with
  | [(key, value)] =>
    match src.member? schema key with
    | some member => .ok (.known member value)
    | none => .ok (.unknown key value)
  | other => .error (.unionArity (m.shapeId schema) other.length)

/-- The error about a value that is not what was asked for. -/
def mismatch (t : Tree Label Leaf) (type : ShapeType) : Error :=
  .typeMismatch type.keyword (src.kind t)

end Source

/-! ### The parts of a node -/

namespace Tree

variable {Label Leaf α β : Type}

/-- A node whose children come with something that was made of them. -/
inductive Parts (Label Leaf β : Type) where
  | null (label : Label)
  | leaf (label : Label) (value : Leaf)
  | list (label : Label) (items : List (Visited Label Leaf β))
  | map (label : Label) (entries : Entries (Visited Label Leaf β))

/-- The node without what was made of its children. -/
def Parts.tree : Parts Label Leaf β → Tree Label Leaf
  | .null l => .null l
  | .leaf l v => .leaf l v
  | .list l items => .list l (items.map Visited.tree)
  | .map l entries => .map l (entries.map fun (k, v) => (k, v.tree))

def Visited.isNull (v : Visited Label Leaf β) : Bool :=
  v.tree.isNull

/-- The walk that treats each node by its parts. -/
def Walk.ofParts (f : Parts Label Leaf β → β) : Walk Label Leaf β where
  null := fun l => f (.null l)
  leaf := fun l v => f (.leaf l v)
  list := fun l items => f (.list l items)
  map := fun l entries => f (.map l entries)

/-- The parts of a tree whose children are left as they are. -/
def parts : Tree Label Leaf → Parts Label Leaf Unit
  | .null l => .null l
  | .leaf l v => .leaf l v
  | .list l items => .list l (items.map fun t => ⟨t, ()⟩)
  | .map l entries => .map l (entries.map fun (k, t) => (k, ⟨t, ()⟩))

end Tree

namespace Source

variable {Label Leaf β : Type} (src : Source Label Leaf) (s : Scope)

open ShapeCodec.Tree (Parts Visited)

/-- The entries of a node, which is asked for as a value of a type. -/
def entriesOf (type : ShapeType) : Parts Label Leaf β → Result (Entries (Visited Label Leaf β))
  | .map _ entries => .ok entries
  | node => .error (src.mismatch node.tree type)

/-- The items of a node that has to be a list. -/
def itemsOf : Parts Label Leaf β → Result (List (Visited Label Leaf β))
  | .list _ items => .ok items
  | node => .error (src.mismatch node.tree .list)

/-- Goes into a structure. -/
def openStructure (depth : Nat) (schema : SchemaRef) (node : Parts Label Leaf β) :
    Result (List (SchemaRef × Visited Label Leaf β)) := do
  s.enter depth
  let entries ← src.entriesOf (src.structureType (s.model.typeOf schema)) node
  return src.presentMembers schema Visited.isNull entries

/-- Goes into a union. -/
def openUnion (depth : Nat) (schema : SchemaRef) (node : Parts Label Leaf β) :
    Result (Chosen (Visited Label Leaf β)) := do
  s.enter depth
  let entries ← src.entriesOf src.unionType node
  src.choose s.model schema Visited.isNull entries

/-- Goes into a list. -/
def openList (depth : Nat) (schema : SchemaRef) (node : Parts Label Leaf β) :
    Result (List (Result (Visited Label Leaf β))) := do
  s.enter depth
  let items ← src.itemsOf node
  return s.kept schema Visited.isNull items

/-- Goes into a map. -/
def openMap (depth : Nat) (schema : SchemaRef) (node : Parts Label Leaf β) :
    Result (List (Result (String × Visited Label Leaf β))) := do
  s.enter depth
  let entries ← src.entriesOf .map node
  return s.kept schema (fun e => e.2.isNull) entries

/-- The value of a tag that names no member of a union. -/
def unknownMember (schema : SchemaRef) (tag : String) (node : Parts Label Leaf β) :
    Result Document := do
  let entries ← src.entriesOf src.unionType node
  match entries.find? tag with
  | some v => return src.untyped v.tree
  | none => throw (.unknownVariant (s.model.shapeId schema) tag)

/-- Reads a null. -/
def readNull (t : Tree Label Leaf) : Result Unit :=
  if t.isNull then .ok () else .error (.typeMismatch "null" (src.kindForNull t))

end Source
end ShapeCodec
