/-!
# Ordered entries

Maps from strings that keep the order in which keys first arrived. Writing a key that is present
replaces its value in place; removing a key keeps the order of the rest.
-/

namespace ShapeCodec

/-- A map from strings as a list of its entries, oldest key first. -/
abbrev Entries (α : Type) := List (String × α)

namespace Entries

variable {α β : Type}

def keys (es : Entries α) : List String :=
  List.map Prod.fst es

def find? (key : String) : Entries α → Option α
  | [] => none
  | (k, v) :: es => if k = key then some v else find? key es

def contains (key : String) (es : Entries α) : Bool :=
  (find? key es).isSome

/-- Sets a key, in place when it is present and at the end when it is new. -/
def insert (key : String) (value : α) : Entries α → Entries α
  | [] => [(key, value)]
  | (k, v) :: es => if k = key then (k, value) :: es else (k, v) :: insert key value es

/-- Takes a key away. -/
def erase (key : String) : Entries α → Entries α
  | [] => []
  | (k, v) :: es => if k = key then es else (k, v) :: erase key es

/-- The map that results from setting one key after the other. -/
def ofList (pairs : List (String × α)) : Entries α :=
  pairs.foldl (fun es p => insert p.1 p.2 es) []

/-- Whether two maps hold the same keys with matching values, in whatever order. -/
def sameBy (same : α → β → Bool) (as : Entries α) (bs : Entries β) : Bool :=
  as.length == bs.length && as.all fun (k, v) => (find? k bs).any (same v)

@[simp] theorem find?_nil (key : String) : find? key ([] : Entries α) = none := rfl

theorem find?_insert_self (key : String) (value : α) (es : Entries α) :
    find? key (insert key value es) = some value := by
  induction es with
  | nil => simp [insert, find?]
  | cons p es ih => by_cases h : p.1 = key <;> simp [insert, find?, h, ih]

theorem find?_insert_of_ne {key other : String} (h : other ≠ key) (value : α) (es : Entries α) :
    find? other (insert key value es) = find? other es := by
  induction es with
  | nil => simp [insert, find?, h.symm]
  | cons p es ih =>
    by_cases hk : p.1 = key
    · simp [insert, find?, hk, h.symm]
    · simp [insert, find?, hk, ih]

/-- A key that is new goes last; one that is present keeps its place. -/
theorem keys_insert (key : String) (value : α) (es : Entries α) :
    keys (insert key value es) = if key ∈ keys es then keys es else keys es ++ [key] := by
  induction es with
  | nil => simp [insert, keys]
  | cons p es ih =>
    by_cases h : p.1 = key
    · simp [insert, keys, h]
    · have h' : key ≠ p.1 := fun e => h e.symm
      simp only [keys] at ih
      simp only [insert, keys, h, if_false, List.map_cons, ih, List.mem_cons, h', false_or]
      split <;> simp_all

theorem nodup_keys_insert {key : String} {value : α} {es : Entries α} (h : (keys es).Nodup) :
    (keys (insert key value es)).Nodup := by
  rw [keys_insert]
  split
  · exact h
  · rename_i hn
    exact List.nodup_append.2 ⟨h, by simp, by
      intro a ha b hb
      simp only [List.mem_singleton] at hb
      subst hb
      exact fun e => hn (e ▸ ha)⟩

end Entries
end ShapeCodec
