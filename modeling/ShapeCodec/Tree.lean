import ShapeCodec.Entries

/-!
# Ordered trees

Wire values and documents are trees of the same kind: nulls, leaves, lists, and maps that keep the
order of their keys. They differ in their leaves and in what each node is labelled with. Walks are
written once, over this type; `Tree.walk` is the recursion behind them.
-/

namespace ShapeCodec

/-- A tree with labelled nodes. -/
inductive Tree (Label Leaf : Type) where
  | null (label : Label)
  | leaf (label : Label) (value : Leaf)
  | list (label : Label) (items : List (Tree Label Leaf))
  | map (label : Label) (entries : List (String × Tree Label Leaf))
deriving Inhabited

namespace Tree

variable {Label Leaf β : Type}

def label : Tree Label Leaf → Label
  | null l | leaf l _ | list l _ | map l _ => l

def isNull : Tree Label Leaf → Bool
  | null _ => true
  | _ => false

/-- The number of elements or entries of a container. -/
def size? : Tree Label Leaf → Option Nat
  | list _ items => some items.length
  | map _ entries => some entries.length
  | _ => none

/-- The same tree with another label at its root. -/
def relabel (l : Label) : Tree Label Leaf → Tree Label Leaf
  | null _ => null l
  | leaf _ v => leaf l v
  | list _ items => list l items
  | map _ entries => map l entries

/-- A subtree together with what a walk has made of it. -/
structure Visited (Label Leaf β : Type) where
  tree : Tree Label Leaf
  result : β

/-- What happens at each kind of node of a walk; containers see their children and the results. -/
structure Walk (Label Leaf β : Type) where
  null : Label → β
  leaf : Label → Leaf → β
  list : Label → List (Visited Label Leaf β) → β
  map : Label → Entries (Visited Label Leaf β) → β

mutual

/-- Walks a tree from the leaves up. -/
def walk (w : Walk Label Leaf β) : Tree Label Leaf → β
  | null l => w.null l
  | leaf l v => w.leaf l v
  | list l items => w.list l (walkItems w items)
  | map l entries => w.map l (walkEntries w entries)

def walkItems (w : Walk Label Leaf β) :
    List (Tree Label Leaf) → List (Visited Label Leaf β)
  | [] => []
  | t :: ts => ⟨t, walk w t⟩ :: walkItems w ts

def walkEntries (w : Walk Label Leaf β) :
    List (String × Tree Label Leaf) → Entries (Visited Label Leaf β)
  | [] => []
  | (k, t) :: es => (k, ⟨t, walk w t⟩) :: walkEntries w es

end

/-- The number of levels of a tree; a tree without children has one. -/
def height (t : Tree Label Leaf) : Nat :=
  t.walk {
    null := fun _ => 1
    leaf := fun _ _ => 1
    list := fun _ items => 1 + items.foldl (fun h v => max h v.result) 0
    map := fun _ entries => 1 + entries.foldl (fun h e => max h e.2.result) 0 }

theorem walkItems_eq_map (w : Walk Label Leaf β) (items : List (Tree Label Leaf)) :
    walkItems w items = items.map fun t => ⟨t, walk w t⟩ := by
  induction items with
  | nil => rfl
  | cons t ts ih => simp [walkItems, ih]

theorem walkEntries_eq_map (w : Walk Label Leaf β) (entries : List (String × Tree Label Leaf)) :
    walkEntries w entries = entries.map fun e => (e.1, ⟨e.2, walk w e.2⟩) := by
  induction entries with
  | nil => rfl
  | cons e es ih => simp [walkEntries, ih]

@[simp] theorem walk_null (w : Walk Label Leaf β) (l : Label) : walk w (.null l) = w.null l := rfl

@[simp] theorem walk_leaf (w : Walk Label Leaf β) (l : Label) (v : Leaf) :
    walk w (.leaf l v) = w.leaf l v := rfl

theorem walk_list (w : Walk Label Leaf β) (l : Label) (items : List (Tree Label Leaf)) :
    walk w (.list l items) = w.list l (items.map fun t => ⟨t, walk w t⟩) := by
  rw [walk, walkItems_eq_map]

theorem walk_map (w : Walk Label Leaf β) (l : Label) (entries : List (String × Tree Label Leaf)) :
    walk w (.map l entries) = w.map l (entries.map fun e => (e.1, ⟨e.2, walk w e.2⟩)) := by
  rw [walk, walkEntries_eq_map]

end Tree
end ShapeCodec
