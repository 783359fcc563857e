import Mathlib.Data.List.Fold
import ShapeCodec.Reader.Traversal

/-!
# Trees, by induction

The induction principle of ordered trees, the unfolding of a walk at one node, and what can be said
of trees without looking at labels and leaves: their parts at any depth and how deep they nest.
-/

namespace ShapeCodec.Tree

variable {Label Leaf β : Type}

/-- Induction over trees: a container comes with its property for each part. -/
@[induction_eliminator]
theorem induct_kind {motive : Tree Label Leaf → Prop}
    (null : ∀ l, motive (.null l)) (leaf : ∀ l v, motive (.leaf l v))
    (list : ∀ l items, (∀ t ∈ items, motive t) → motive (.list l items))
    (map : ∀ l entries, (∀ e ∈ entries, motive e.2) → motive (.map l entries)) :
    ∀ t, motive t
  | .null l => null l
  | .leaf l v => leaf l v
  | .list l items => list l items fun t ht =>
      have := List.sizeOf_lt_of_mem ht
      induct_kind null leaf list map t
  | .map l entries => map l entries fun e he =>
      have := List.sizeOf_lt_of_mem he
      have : sizeOf e.2 < sizeOf e := by
        obtain ⟨k, t⟩ := e
        show sizeOf t < sizeOf (k, t)
        rw [Prod.mk.sizeOf_spec]
        omega
      induct_kind null leaf list map e.2
  termination_by t => sizeOf t

@[simp] theorem isNull_null (l : Label) : (null l : Tree Label Leaf).isNull = true := rfl

@[simp] theorem isNull_leaf (l : Label) (v : Leaf) : (leaf l v).isNull = false := rfl

@[simp] theorem isNull_list (l : Label) (items : List (Tree Label Leaf)) :
    (list l items).isNull = false := rfl

@[simp] theorem isNull_map (l : Label) (entries : List (String × Tree Label Leaf)) :
    (map l entries).isNull = false := rfl

theorem isNull_eq_true {t : Tree Label Leaf} (h : t.isNull = true) : ∃ l, t = .null l := by
  cases t with
  | null l => exact ⟨l, rfl⟩
  | leaf l v => simp at h
  | list l items => simp at h
  | map l entries => simp at h

/-! ### One step of a walk -/

/-- The parts of a tree, each with what `f` makes of it. -/
def partsWith (f : Tree Label Leaf → β) : Tree Label Leaf → Parts Label Leaf β
  | .null l => .null l
  | .leaf l v => .leaf l v
  | .list l items => .list l (items.map fun t => ⟨t, f t⟩)
  | .map l entries => .map l (entries.map fun e => (e.1, ⟨e.2, f e.2⟩))

theorem partsWith_tree (f : Tree Label Leaf → β) (t : Tree Label Leaf) :
    (t.partsWith f).tree = t := by
  cases t <;> simp [partsWith, Parts.tree, Function.comp_def]

/-- A walk that treats nodes by their parts treats a tree by the parts that it has walked. -/
theorem walk_ofParts (f : Parts Label Leaf β → β) (t : Tree Label Leaf) :
    t.walk (.ofParts f) = f (t.partsWith fun u => u.walk (.ofParts f)) := by
  cases t with
  | null l => simp [partsWith, Walk.ofParts]
  | leaf l v => simp [partsWith, Walk.ofParts]
  | list l items => rw [walk_list]; rfl
  | map l entries => rw [walk_map]; rfl

theorem parts_eq_partsWith (t : Tree Label Leaf) : t.parts = t.partsWith fun _ => () := by
  cases t <;> rfl

/-! ### Parts -/

/-- The trees right inside a tree. -/
inductive Inside (u : Tree Label Leaf) : Tree Label Leaf → Prop
  | item {l : Label} {items : List (Tree Label Leaf)} : u ∈ items → Inside u (.list l items)
  | entry {key : String} {l : Label} {entries : List (String × Tree Label Leaf)} :
      (key, u) ∈ entries → Inside u (.map l entries)

/-- What holds of a tree if it holds of the trees right inside it holds of all trees. -/
theorem induct_inside {P : Tree Label Leaf → Prop} (h : ∀ t, (∀ u, u.Inside t → P u) → P t)
    (t : Tree Label Leaf) : P t := by
  induction t using induct_kind with
  | null l => exact h _ nofun
  | leaf l v => exact h _ nofun
  | list l items ih =>
      refine h _ fun u hu => ?_
      cases hu with
      | item hu => exact ih u hu
  | map l entries ih =>
      refine h _ fun u hu => ?_
      cases hu with
      | entry hu => exact ih (_, u) hu

/-- No map, at any depth, has a key twice. -/
inductive DistinctKeys : Tree Label Leaf → Prop
  | null (l : Label) : DistinctKeys (.null l)
  | leaf (l : Label) (v : Leaf) : DistinctKeys (.leaf l v)
  | list {l : Label} {items : List (Tree Label Leaf)} :
      (∀ t ∈ items, DistinctKeys t) → DistinctKeys (.list l items)
  | map {l : Label} {entries : List (String × Tree Label Leaf)} :
      (Entries.keys entries).Nodup → (∀ e ∈ entries, DistinctKeys e.2) →
      DistinctKeys (.map l entries)

theorem DistinctKeys.of_list {l : Label} {items : List (Tree Label Leaf)}
    (h : (Tree.list l items).DistinctKeys) : ∀ t ∈ items, t.DistinctKeys := by
  cases h with
  | list h => exact h

theorem DistinctKeys.of_map {l : Label} {entries : List (String × Tree Label Leaf)}
    (h : (Tree.map l entries).DistinctKeys) :
    (Entries.keys entries).Nodup ∧ ∀ e ∈ entries, e.2.DistinctKeys := by
  cases h with
  | map hn h => exact ⟨hn, h⟩

theorem DistinctKeys.inside {t u : Tree Label Leaf} (h : t.DistinctKeys) (hu : u.Inside t) :
    u.DistinctKeys := by
  cases hu with
  | item hu => exact h.of_list u hu
  | entry hu => exact h.of_map.2 _ hu

/-- No map, at any depth, has the key. -/
inductive Lacks (key : String) : Tree Label Leaf → Prop
  | null (l : Label) : Lacks key (.null l)
  | leaf (l : Label) (v : Leaf) : Lacks key (.leaf l v)
  | list {l : Label} {items : List (Tree Label Leaf)} :
      (∀ t ∈ items, Lacks key t) → Lacks key (.list l items)
  | map {l : Label} {entries : List (String × Tree Label Leaf)} :
      key ∉ Entries.keys entries → (∀ e ∈ entries, Lacks key e.2) → Lacks key (.map l entries)

theorem Lacks.of_map {key : String} {l : Label} {entries : List (String × Tree Label Leaf)}
    (h : (Tree.map l entries).Lacks key) : key ∉ Entries.keys entries := by
  cases h with
  | map hk h => exact hk

theorem Lacks.inside {key : String} {t u : Tree Label Leaf} (h : t.Lacks key) (hu : u.Inside t) :
    u.Lacks key := by
  cases hu with
  | item hu =>
      cases h with
      | list h => exact h u hu
  | entry hu =>
      cases h with
      | map hk h => exact h _ hu

/-- Something holds of the values of all leaves. -/
inductive AllLeaves (P : Leaf → Prop) : Tree Label Leaf → Prop
  | null (l : Label) : AllLeaves P (.null l)
  | leaf (l : Label) {v : Leaf} : P v → AllLeaves P (.leaf l v)
  | list {l : Label} {items : List (Tree Label Leaf)} :
      (∀ t ∈ items, AllLeaves P t) → AllLeaves P (.list l items)
  | map {l : Label} {entries : List (String × Tree Label Leaf)} :
      (∀ e ∈ entries, AllLeaves P e.2) → AllLeaves P (.map l entries)

theorem AllLeaves.inside {P : Leaf → Prop} {t u : Tree Label Leaf} (h : t.AllLeaves P)
    (hu : u.Inside t) : u.AllLeaves P := by
  cases hu with
  | item hu =>
      cases h with
      | list h => exact h u hu
  | entry hu =>
      cases h with
      | map h => exact h _ hu

/-- How many containers lie around each other at most. -/
def nesting (t : Tree Label Leaf) : Nat :=
  t.walk {
    null := fun _ => 0
    leaf := fun _ _ => 0
    list := fun _ items => 1 + (items.map Visited.result).foldr max 0
    map := fun _ entries => 1 + (entries.map fun e => e.2.result).foldr max 0 }

theorem le_foldr_max {n : Nat} {ns : List Nat} (h : n ∈ ns) : n ≤ ns.foldr max 0 := by
  induction ns with
  | nil => simp at h
  | cons k ks ih =>
      rcases List.mem_cons.mp h with rfl | h
      · exact Nat.le_max_left _ _
      · exact Nat.le_trans (ih h) (Nat.le_max_right _ _)

theorem foldr_max_le {n : Nat} {ns : List Nat} (h : ∀ k ∈ ns, k ≤ n) : ns.foldr max 0 ≤ n := by
  induction ns with
  | nil => exact Nat.zero_le n
  | cons k ks ih =>
      obtain ⟨hk, h⟩ := List.forall_mem_cons.mp h
      exact Nat.max_le.mpr ⟨hk, ih h⟩

theorem nesting_list (l : Label) (items : List (Tree Label Leaf)) :
    (list l items).nesting = 1 + (items.map nesting).foldr max 0 := by
  rw [nesting, walk_list]
  simp only [List.map_map]
  rfl

theorem nesting_map (l : Label) (entries : List (String × Tree Label Leaf)) :
    (map l entries).nesting = 1 + (entries.map fun e => e.2.nesting).foldr max 0 := by
  rw [nesting, walk_map]
  simp only [List.map_map]
  rfl

theorem nesting_item_lt {t : Tree Label Leaf} {l : Label} {items : List (Tree Label Leaf)}
    (h : t ∈ items) : t.nesting < (list l items).nesting := by
  have := le_foldr_max (List.mem_map_of_mem (f := nesting) h)
  rw [nesting_list]
  omega

theorem nesting_entry_lt {e : String × Tree Label Leaf} {l : Label}
    {entries : List (String × Tree Label Leaf)} (h : e ∈ entries) :
    e.2.nesting < (map l entries).nesting := by
  have := le_foldr_max (List.mem_map_of_mem (f := fun e => e.2.nesting) h)
  rw [nesting_map]
  omega

theorem nesting_list_le {n : Nat} (l : Label) {items : List (Tree Label Leaf)}
    (h : ∀ t ∈ items, t.nesting ≤ n) : (list l items).nesting ≤ n + 1 := by
  have := foldr_max_le (n := n) (List.forall_mem_map.mpr h)
  rw [nesting_list]
  omega

theorem nesting_map_le {n : Nat} (l : Label) {entries : List (String × Tree Label Leaf)}
    (h : ∀ e ∈ entries, e.2.nesting ≤ n) : (map l entries).nesting ≤ n + 1 := by
  have := foldr_max_le (n := n) (List.forall_mem_map.mpr h)
  rw [nesting_map]
  omega

/-! ### Height -/

theorem height_list (l : Label) (items : List (Tree Label Leaf)) :
    (list l items).height = 1 + (items.map height).foldr max 0 := by
  rw [height, walk_list, ← List.foldl_eq_foldr, List.foldl_map]
  simp only [List.foldl_map]
  rfl

theorem height_map (l : Label) (entries : List (String × Tree Label Leaf)) :
    (map l entries).height = 1 + (entries.map fun e => e.2.height).foldr max 0 := by
  rw [height, walk_map, ← List.foldl_eq_foldr, List.foldl_map]
  simp only [List.foldl_map]
  rfl

theorem height_pos (t : Tree Label Leaf) : 0 < t.height := by
  cases t with
  | null l => exact Nat.one_pos
  | leaf l v => exact Nat.one_pos
  | list l items => rw [height_list]; omega
  | map l entries => rw [height_map]; omega

/-- What is inside a tree is lower. -/
theorem Inside.height_lt {t u : Tree Label Leaf} (h : u.Inside t) : u.height < t.height := by
  cases h with
  | item h =>
      have := le_foldr_max (List.mem_map_of_mem (f := height) h)
      rw [height_list]
      omega
  | entry h =>
      have : u.height ≤ _ := le_foldr_max (List.mem_map_of_mem (f := fun e => e.2.height) h)
      rw [height_map]
      omega

end ShapeCodec.Tree
