import ShapeCodec.Proofs.Members
import ShapeCodec.Proofs.Tree

/-!
# What sources keep to

Scalars come out as the type that was asked for, members are members of the schema that go by one
key each, and a value without a schema is null only where the input is. Both kinds of input keep to
this.
-/

namespace ShapeCodec

variable {Label Leaf : Type}

/-- The promises of a source that reading relies on. -/
structure Source.Lawful (src : Source Label Leaf) (m : Model) : Prop where
  scalar_type : ∀ {type : ScalarType} {schema : SchemaRef} {t : Tree Label Leaf} {v : Scalar},
    src.scalar type schema t = .ok v → v.type = type
  isNull_untyped : ∀ t : Tree Label Leaf, (src.untyped t).isNull = t.isNull
  mem_members : ∀ {schema member : SchemaRef} {key : String},
    src.member? schema key = some member → member ∈ m.members schema
  key_unique : ∀ {schema member : SchemaRef} {key key' : String},
    src.member? schema key = some member → src.member? schema key' = some member → key = key'

/-! ### Scalars -/

theorem Scalar.type_of_ofInt? {width : IntWidth} {n : Int} {v : Scalar}
    (h : Scalar.ofInt? width n = some v) : v.type = .integer width := by
  obtain ⟨k, -, rfl⟩ := Option.map_eq_some_iff.mp h
  rfl

theorem Json.type_of_readInteger {width : IntWidth} {j : Json} {v : Scalar}
    (h : j.readInteger width = .ok v) : v.type = .integer width := by
  obtain ⟨n, -, h⟩ := Result.bind_eq_ok.mp h
  by_cases hf : n.isFractional = true
  · simp [hf] at h
  · simp only [hf, if_false, Bool.false_eq_true] at h
    split at h
    · split at h
      · rename_i hs
        obtain rfl := Except.ok.inj h
        exact Scalar.type_of_ofInt? hs
      · simp at h
    · simp at h
    · simp at h

theorem Json.type_of_readScalar {format : TimestampFormat} {type : ScalarType} {j : Json}
    {v : Scalar} (h : Json.readScalar format type j = .ok v) : v.type = type := by
  cases type with
  | boolean =>
      simp only [readScalar] at h
      split at h <;> simp at h
      exact h ▸ rfl
  | integer width => exact type_of_readInteger h
  | float =>
      obtain ⟨x, -, rfl⟩ := Result.map_eq_ok.mp h
      rfl
  | double =>
      obtain ⟨x, -, rfl⟩ := Result.map_eq_ok.mp h
      rfl
  | bigDecimal =>
      obtain ⟨x, -, rfl⟩ := Result.map_eq_ok.mp h
      rfl
  | string =>
      simp only [readScalar] at h
      split at h <;> simp at h
      exact h ▸ rfl
  | blob =>
      simp only [readScalar] at h
      split at h
      · obtain ⟨x, -, rfl⟩ := Result.map_eq_ok.mp h
        rfl
      · simp at h
  | timestamp =>
      obtain ⟨x, -, rfl⟩ := Result.map_eq_ok.mp h
      rfl

theorem Scalar.type_of_as {type : ScalarType} {s v : Scalar} (h : s.as type = .ok v) :
    v.type = type := by
  cases type with
  | integer width =>
      obtain ⟨x, -, rfl⟩ := Result.map_eq_ok.mp h
      rfl
  | float =>
      obtain ⟨x, -, rfl⟩ := Result.map_eq_ok.mp h
      rfl
  | double =>
      obtain ⟨x, -, rfl⟩ := Result.map_eq_ok.mp h
      rfl
  | bigDecimal =>
      obtain ⟨x, -, rfl⟩ := Result.map_eq_ok.mp h
      rfl
  | _ =>
      simp only [Scalar.as] at h
      split at h
      · rename_i ht
        exact Except.ok.inj h ▸ ht
      · simp at h

theorem Document.type_of_readScalar {m : Model} {type : ScalarType} {d : Document} {v : Scalar}
    (h : Document.readScalar m type d = .ok v) : v.type = type := by
  unfold Document.readScalar at h
  split at h
  · obtain ⟨x, -, rfl⟩ := Result.map_eq_ok.mp h
    rfl
  · cases d with
    | leaf l s => exact Scalar.type_of_as h
    | null l => simp [asScalar] at h
    | list l items => simp [asScalar] at h
    | map l entries => simp [asScalar] at h

theorem Json.readScalar_null_ne_ok (format : TimestampFormat) (type : ScalarType) (l : Unit)
    (v : Scalar) : Json.readScalar format type (Tree.null l) ≠ .ok v := by
  cases type <;> nofun

theorem Document.readScalar_null_ne_ok (m : Model) (type : ScalarType) (l : ShapeCodec.Label)
    (v : Scalar) :
    Document.readScalar m type (Tree.null l) ≠ .ok v := by
  cases type <;> nofun

/-! ### Values without a schema -/

theorem Json.toDocument_isNull (j : Json) : j.toDocument.isNull = j.isNull := by
  cases j with
  | null l => simp [toDocument, documentWalk, Document.plainNull]
  | leaf l v => cases v <;> simp [toDocument, documentWalk, Document.ofString, Document.ofScalar]
  | list l items => rw [toDocument, Tree.walk_list]; rfl
  | map l entries => rw [toDocument, Tree.walk_map]; rfl

/-- JSON without a schema is labelled with shapes of the prelude. -/
theorem Json.toDocument_isMember (j : Json) : j.toDocument.schema.isMember = false := by
  cases j with
  | null l => simp [toDocument, documentWalk]; rfl
  | leaf l v => cases v <;> simp [toDocument, documentWalk] <;> rfl
  | list l items => rw [toDocument, Tree.walk_list]; rfl
  | map l entries => rw [toDocument, Tree.walk_map]; rfl

/-! ### The two sources -/

theorem Json.source_lawful (m : Model) (c : Config) (wireNames : Bool) :
    (Json.source m c wireNames).Lawful m where
  scalar_type h := Json.type_of_readScalar h
  isNull_untyped := Json.toDocument_isNull
  mem_members h := (Model.mem_of_memberByKey? h).1
  key_unique h h' := Option.some.inj ((Model.mem_of_memberByKey? h).2.symm.trans
    (Model.mem_of_memberByKey? h').2)

theorem Document.source_lawful (m : Model) : (Document.source m).Lawful m where
  scalar_type h := Document.type_of_readScalar h
  isNull_untyped _ := rfl
  mem_members h := (Model.mem_of_member? h).1
  key_unique h h' := Option.some.inj ((Model.mem_of_member? h).2.symm.trans
    (Model.mem_of_member? h').2)

end ShapeCodec
