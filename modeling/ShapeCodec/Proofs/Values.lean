import ShapeCodec.Proofs.Entries
import ShapeCodec.Proofs.Members
import ShapeCodec.Proofs.Tree
import ShapeCodec.Typed.Writer

/-!
# Typed values

What is needed to follow typed values through writing and reading: how deep they nest, which of them
are written as null, when they are equal part by part, and which calls the fields of a record make.
-/

namespace ShapeCodec.Typed

namespace Value

mutual

/-- How many containers lie around each other at most; documents are taken as they are. -/
def nesting : Value → Nat
  | list items => 1 + nestingItems items
  | map entries => 1 + nestingEntries entries
  | present v => nesting v
  | record _ fields => 1 + nestingItems fields
  | variant _ _ content => 1 + nesting content
  | _ => 0

def nestingItems : List Value → Nat
  | [] => 0
  | v :: vs => max (nesting v) (nestingItems vs)

def nestingEntries : List (String × Value) → Nat
  | [] => 0
  | (_, v) :: es => max (nesting v) (nestingEntries es)

end

theorem nesting_le_nestingItems {v : Value} {items : List Value} (h : v ∈ items) :
    v.nesting ≤ nestingItems items := by
  induction items with
  | nil => simp at h
  | cons w items ih =>
      rw [nestingItems]
      rcases List.mem_cons.mp h with rfl | h
      · exact Nat.le_max_left _ _
      · exact Nat.le_trans (ih h) (Nat.le_max_right _ _)

theorem nesting_le_nestingEntries {e : String × Value} {entries : List (String × Value)}
    (h : e ∈ entries) : e.2.nesting ≤ nestingEntries entries := by
  induction entries with
  | nil => simp at h
  | cons a entries ih =>
      rw [nestingEntries]
      rcases List.mem_cons.mp h with rfl | h
      · exact Nat.le_max_left _ _
      · exact Nat.le_trans (ih h) (Nat.le_max_right _ _)

/-- Values that are written as null. -/
def writesNull : Value → Bool
  | missing => true
  | document d => d.isNull
  | present v => writesNull v
  | _ => false

def isMissing : Value → Bool
  | missing => true
  | _ => false

theorem eq_missing {v : Value} (h : v.isMissing = true) : v = .missing := by
  cases v with
  | missing => rfl
  | _ => simp [isMissing] at h

theorem nesting_of_writesNull {v : Value} (h : v.writesNull = true) : v.nesting = 0 := by
  induction v using writesNull.induct with
  | case1 => simp [nesting]
  | case2 d => simp [nesting]
  | case3 v ih =>
      rw [writesNull] at h
      rw [nesting, ih h]
  | case4 v hmissing hdocument hpresent => simp [writesNull] at h

/-! ### Equality by parts -/

theorem sameItems_of_parts {parts : List (Value × Value)}
    (h : ∀ p ∈ parts, same p.1 p.2 = true) :
    sameItems (parts.map Prod.fst) (parts.map Prod.snd) = true := by
  induction parts with
  | nil => rw [List.map_nil, List.map_nil, sameItems]
  | cons p parts ih =>
      obtain ⟨hp, h⟩ := List.forall_mem_cons.mp h
      rw [List.map_cons, List.map_cons, sameItems, hp, ih h]
      rfl

theorem sameEntries_of_find? {parts : List (String × Value × Value)} {es : Entries Value}
    (hf : ∀ p ∈ parts, es.find? p.1 = some p.2.2) (hs : ∀ p ∈ parts, same p.2.1 p.2.2 = true) :
    sameEntries (parts.map fun p => (p.1, p.2.1)) es = true := by
  induction parts with
  | nil => rw [List.map_nil, sameEntries]
  | cons p parts ih =>
      obtain ⟨hfind, hf⟩ := List.forall_mem_cons.mp hf
      obtain ⟨hp, hs⟩ := List.forall_mem_cons.mp hs
      rw [List.map_cons, sameEntries, ih hf hs, hfind]
      simp only [hp, Bool.and_self]

theorem same_map_of_parts {parts : List (String × Value × Value)} (hn : (parts.map Prod.fst).Nodup)
    (hs : ∀ p ∈ parts, same p.2.1 p.2.2 = true) :
    same (.map (parts.map fun p => (p.1, p.2.1))) (.map (parts.map fun p => (p.1, p.2.2))) =
      true := by
  have hkeys : (Entries.keys (parts.map fun p => (p.1, p.2.2))).Nodup := by
    simpa [Entries.keys, Function.comp_def] using hn
  have hfind : ∀ p ∈ parts, Entries.find? p.1 (parts.map fun p => (p.1, p.2.2)) = some p.2.2 :=
    fun p hp => Entries.find?_of_mem hkeys (List.mem_map_of_mem (f := fun p => (p.1, p.2.2)) hp)
  rw [same, sameEntries_of_find? hfind hs]
  simp

/-! ### Maps in order -/

theorem insertSorted_of_forall_lt {key : String} {v : Value} {es : Entries Value}
    (h : ∀ e ∈ es, e.1 < key) : insertEntry.insertSorted key v es = es ++ [(key, v)] := by
  induction es with
  | nil => rw [insertEntry.insertSorted, List.nil_append]
  | cons e es ih =>
      obtain ⟨he, h⟩ := List.forall_mem_cons.mp h
      have hne : e.1 ≠ key := by
        intro heq
        rw [heq] at he
        exact String.lt_irrefl _ he
      rw [insertEntry.insertSorted, if_neg hne, if_neg (String.lt_asymm he), ih h]
      rfl

/-- Entries that come in the order of the map are kept as they are. -/
theorem foldl_insertEntry (sorted : Bool) (parts : List (String × Value)) (es : Entries Value)
    (hn : (Entries.keys (es ++ parts)).Nodup)
    (hs : sorted = true → (Entries.keys (es ++ parts)).Pairwise (· < ·)) :
    parts.foldl (fun es p => insertEntry sorted p.1 p.2 es) es = es ++ parts := by
  cases sorted with
  | false => exact Entries.foldl_insert_of_nodup parts es hn
  | true =>
      -- the induction is on what is still to come; what is there is sorted before it
      specialize hs rfl
      clear hn
      induction parts generalizing es with
      | nil => simp
      | cons p parts ih =>
          -- what came before is smaller, so the entry goes last
          have hlast : ∀ e ∈ es, e.1 < p.1 := by
            intro e he
            rw [Entries.keys, List.map_append, List.pairwise_append] at hs
            exact hs.2.2 e.1 (List.mem_map_of_mem he) p.1 (by simp)
          have hinsert : insertEntry true p.1 p.2 es = es ++ [p] := by
            rw [insertEntry, if_pos rfl]
            exact insertSorted_of_forall_lt hlast
          rw [List.foldl_cons, hinsert, ih (es ++ [p]) (by simpa using hs)]
          simp

/-! ### Calls -/

section
variable (m : Model) (types : Table)

theorem fieldCalls_cons {schema member : SchemaRef} {index : Nat}
    (hm : m.memberAt schema index = .ok member) {v : Value} (hv : v.isMissing = false)
    (vs : List Value) :
    fieldCalls m types schema index (v :: vs) =
      calls m types v member :: fieldCalls m types schema (index + 1) vs := by
  rw [fieldCalls.eq_def]
  cases v with
  | missing => simp [isMissing] at hv
  | _ => simp only [hm]

end

end Value
end ShapeCodec.Typed
