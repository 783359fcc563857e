import ShapeCodec.Proofs.Entries
import ShapeCodec.Proofs.Sources

/-!
# JSON as documents, part by part

What becomes of each kind of JSON when no schema describes it. Containers stay containers of the
same parts, but objects lose the names of their types. A number becomes an integer exactly if it is
written as one; else it is a float or a decimal, as long as its text is a decimal at all.
-/

namespace ShapeCodec

/-! ### Numbers -/

namespace Numeral

variable {n : Numeral}

/-- The text of the number is one that a decimal can be made of. -/
def Parses (n : Numeral) : Prop :=
  ∃ d, Decimal.ofNumeral n = .ok d

theorem isWhole_of_toInt? {i : Int} (h : n.toInt? = some i) : n.isWhole = true := by
  unfold toInt? at h
  by_cases hw : n.isWhole = true
  · exact hw
  · simp [hw] at h

/-- What is written as a whole number is no fraction. -/
theorem isFractional_of_toInt? {i : Int} (h : n.toInt? = some i) : n.isFractional = false := by
  simp [isFractional, isWhole_of_toInt? h]

/-- A whole number becomes an integer, long or big. -/
theorem toScalar_of_toInt? {i : Int} (h : n.toInt? = some i) :
    ∃ width k, n.toScalar = .integer width k ∧ k.value = i := by
  unfold toScalar Scalar.ofInt? Sized.ofInt?
  rw [h]
  by_cases hi : IntWidth.long.fits i = true
  · exact ⟨.long, ⟨i, hi⟩, by simp [hi], rfl⟩
  · exact ⟨.big, .big i, by simp [hi, Scalar.big], rfl⟩

/-- Any other number becomes a float that denotes it, or a decimal. -/
theorem toScalar_of_fraction {d : Decimal} (h : n.toInt? = none)
    (hd : Decimal.ofNumeral n = .ok d) :
    (∃ x, n.toDouble? = some x ∧ isTextOf x d = true ∧ n.toScalar = .double x) ∨
      n.toScalar = .decimal d := by
  unfold toScalar toFraction
  rw [h, hd]
  cases hx : n.toDouble? with
  | none => exact .inr rfl
  | some x =>
      cases ht : isTextOf x d with
      | true => exact .inl ⟨x, rfl, ht, by simp [ht]⟩
      | false => exact .inr (by simp [ht])

end Numeral

namespace Json

/-- A leaf whose text, if it is a number, is one that a decimal can be made of. -/
def Leaf.Parses : Leaf → Prop
  | .number n => n.Parses
  | .boolean _ | .string _ => True

/-- Decimals can be made of all numbers. -/
def NumbersParse (j : Json) : Prop :=
  j.AllLeaves Leaf.Parses

/-! ### Containers -/

theorem toDocument_null (l : Unit) : toDocument (Tree.null l) = Document.plainNull := by
  rw [toDocument, Tree.walk_null]
  rfl

theorem toDocument_boolean (b : Bool) : toDocument (.boolean b) = .ofScalar (.boolean b) := by
  rw [toDocument, boolean, Tree.walk_leaf]
  rfl

theorem toDocument_number (n : Numeral) : toDocument (.number n) = .ofScalar n.toScalar := by
  rw [toDocument, number, Tree.walk_leaf]
  rfl

theorem toDocument_string (s : String) : toDocument (.string s) = .ofScalar (.string s) := by
  rw [toDocument, string, Tree.walk_leaf]
  rfl

theorem toDocument_list (l : Unit) (items : List Json) :
    toDocument (Tree.list l items) = .ofList (items.map toDocument) := by
  rw [toDocument, Tree.walk_list]
  simp only [documentWalk, List.map_map]
  rfl

/-- The entries of an object, without the names of its types. -/
def untypedEntries (members : List (String × Json)) : List (String × Document) :=
  (members.filter fun e => e.1 != typeKey).map fun e => (e.1, e.2.toDocument)

theorem toDocument_map (l : Unit) (members : List (String × Json)) :
    toDocument (Tree.map l members) = .ofEntries (untypedEntries members) := by
  rw [toDocument, Tree.walk_map]
  simp only [documentWalk, untypedEntries, List.filter_map, List.map_map]
  rfl

/-- Nothing is lost from an object that does not name its type. -/
theorem untypedEntries_eq_map {members : List (String × Json)}
    (h : typeKey ∉ Entries.keys members) :
    untypedEntries members = members.map fun e => (e.1, e.2.toDocument) := by
  rw [untypedEntries, List.filter_eq_self.mpr fun e he => ?_]
  have hne : e.1 ≠ typeKey := fun heq => h (heq ▸ Entries.mem_keys_of_mem he)
  simpa using hne

end Json
end ShapeCodec
