import ShapeCodec.Json.Envelope
import ShapeCodec.Proofs.Layout
import ShapeCodec.Proofs.ParserDepth
import ShapeCodec.Proofs.Targets
import ShapeCodec.Proofs.ValueReading
import ShapeCodec.Typed.Codec

/-!
# Reading past the name of a type

A structure or union is read from an object that names its type as from one that does not: the key
of the name is no member, so it is passed over, and what goes wrong goes wrong in the same way.
-/

namespace ShapeCodec

open ShapeCodec.Tree (Parts Visited)

/-- No object is read as a scalar, whatever it holds. -/
theorem Codec.scalar_object (c : Codec) (m : Model) (type : ScalarType) (schema : SchemaRef)
    (es es' : List (String × Json)) :
    (c.source m).scalar type schema (Json.object es) =
      (c.source m).scalar type schema (Json.object es') := by
  cases type <;> rfl

section
variable {m : Model} {config : Config} {wireNames : Bool} {S : SchemaRef} {β : Type}

/-! ### One entry that is no member -/

theorem presentMembers_of_no_member (hno : m.memberByKey? wireNames S Json.typeKey = none)
    (isNull : β → Bool) (a : β) (es : Entries β) :
    (Json.source m config wireNames).presentMembers S isNull ((Json.typeKey, a) :: es) =
      (Json.source m config wireNames).presentMembers S isNull es :=
  List.filterMap_cons_none (by simp [Json.source, hno])

theorem candidates_typeKey (isNull : β → Bool) (a : β) (es : Entries β) :
    (Json.source m config wireNames).candidates isNull ((Json.typeKey, a) :: es) =
      (Json.source m config wireNames).candidates isNull es :=
  List.filter_cons_of_neg (by simp [Json.source])

variable (s : Scope) (depth : Nat) (v : Visited Unit Json.Leaf β)
  (es : Entries (Visited Unit Json.Leaf β))

theorem openStructure_typeKey (hno : m.memberByKey? wireNames S Json.typeKey = none) :
    (Json.source m config wireNames).openStructure s depth S (.map () ((Json.typeKey, v) :: es)) =
      (Json.source m config wireNames).openStructure s depth S (.map () es) := by
  simp only [Source.openStructure, Source.entriesOf, Result.ok_bind,
    presentMembers_of_no_member hno]

theorem openUnion_typeKey :
    (Json.source m config wireNames).openUnion s depth S (.map () ((Json.typeKey, v) :: es)) =
      (Json.source m config wireNames).openUnion s depth S (.map () es) := by
  simp only [Source.openUnion, Source.entriesOf, Result.ok_bind, Source.choose, candidates_typeKey]

end

/-! ### Documents and typed values -/

section
variable {c : Codec} {m : Model} {S : SchemaRef}
  (hS : (m.typeOf S).isStructureLike = true)
  (hno : m.memberByKey? c.wireNames S Json.typeKey = none)
include hS hno

/-- A document is read past the name of its type. -/
theorem documentAt_typeKey {s : Scope} (hs : s.model = m) (depth : Nat) (tag : Json)
    (members : List (String × Json)) :
    Reader.documentAt (c.source m) s (Json.object ((Json.typeKey, tag) :: members)) depth S =
      Reader.documentAt (c.source m) s (Json.object members) depth S := by
  subst hs
  rw [Reader.documentAt_of_not_null rfl, Reader.documentAt_of_not_null rfl]
  simp only [Tree.partsWith, List.map_cons, Reader.readValue]
  rcases ShapeType.isStructureLike_iff.mp hS with hf | hf <;> rw [hf]
  · simp only [Reader.readStructure, Codec.source, openStructure_typeKey _ _ _ _ hno]
  · simp only [Reader.readUnion, Codec.source, openUnion_typeKey]

namespace Typed

/-- So is a typed value, whatever its type. -/
theorem valueWith_typeKey {s : Scope} (hs : s.model = m) (standin : Standin) (type : ValueType)
    (depth : Nat) (tag : Json) (members : List (String × Json)) :
    valueWith (c.source m) s standin (Json.object ((Json.typeKey, tag) :: members)) type
        depth S =
      valueWith (c.source m) s standin (Json.object members) type depth S := by
  subst hs
  have hlist : ∀ {element}, s.model.listMember S ≠ .ok element := fun h => by
    rw [(Model.listMember_eq_ok_iff.mp h).1] at hS
    cases hS
  have hmap : ∀ {element}, s.model.mapValue S ≠ .ok element := fun h => by
    rw [(Model.mapValue_eq_ok_iff.mp h).1] at hS
    cases hS
  induction type with
  | scalar type =>
      rw [valueWith_scalar, valueWith_scalar]
      exact congrArg _ (c.scalar_object ..)
  | document =>
      rw [valueWith_document, valueWith_document]
      exact congrArg _ (documentAt_typeKey hS hno rfl ..)
  | list element =>
      rw [valueWith_eq, valueWith_eq, readNode, readNode]
      cases hm : s.model.listMember S with
      | ok member => exact absurd hm hlist
      | error e => rfl
  | map sorted value =>
      rw [valueWith_eq, valueWith_eq, readNode, readNode]
      cases hm : s.model.mapValue S with
      | ok member => exact absurd hm hmap
      | error e => rfl
  | option type ih => rw [valueWith_option rfl, valueWith_option rfl, ih]
  | named type =>
      rw [valueWith_eq, valueWith_eq, readNode_named, readNode_named, readDeclared, readDeclared,
        Tree.partsWith_tree, Tree.partsWith_tree]
      simp only [Tree.partsWith, List.map_cons]
      cases (s.types.get type).body with
      | record fields =>
          simp only [readRecord, Codec.source, openStructure_typeKey _ _ _ _ hno]
      | union variants unknown => simp only [readUnion, Codec.source, openUnion_typeKey]
      | words constants unknown =>
          exact congrArg (· >>= _) (c.scalar_object ..)
      | numbers constants unknown =>
          exact congrArg (· >>= _) (c.scalar_object ..)

end Typed
end

end ShapeCodec
