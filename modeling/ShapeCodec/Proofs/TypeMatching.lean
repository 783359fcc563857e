import ShapeCodec.Gallery.Unchecked
import ShapeCodec.Proofs.ValueReading

/-!
# Types that match schemas

A type matches a schema when each of its parts matches the schema of that part: fields and variants
cover all members, place by place. Types and schemas may both lead back to themselves, so matching
is the largest relation that every step of this keeps to.
-/

namespace ShapeCodec.Typed

variable {m : Model} {types : Table} {S : SchemaRef}

/-- A type matches a schema on the outside; `R` is what is asked of the parts. -/
inductive MatchStep (m : Model) (types : Table) (R : ValueType → SchemaRef → Prop) :
    ValueType → SchemaRef → Prop
  | scalar {S : SchemaRef} {type : ScalarType} :
      (m.typeOf S).form = .scalar type → MatchStep m types R (.scalar type) S
  | document {S : SchemaRef} : MatchStep m types R .document S
  | list {S member : SchemaRef} {element : ValueType} :
      m.listMember S = .ok member → R element member → MatchStep m types R (.list element) S
  | map {S member : SchemaRef} {sorted : Bool} {value : ValueType} :
      m.mapValue S = .ok member → R value member → MatchStep m types R (.map sorted value) S
  | option {S : SchemaRef} {type : ValueType} : R type S → MatchStep m types R (.option type) S
  | record {S : SchemaRef} {type : Nat} {fields : List (Field ValueType)} :
      (types.get type).body = .record fields → (m.typeOf S).form = .structure →
      (m.members S).length ≤ fields.length →
      (∀ i field member, fields[i]? = some field → m.memberAt? S i = some member →
        R field.type member) →
      MatchStep m types R (.named type) S
  | union {S : SchemaRef} {type : Nat} {variants : List (Field ValueType)}
      {unknown : Option String} :
      (types.get type).body = .union variants unknown → (m.typeOf S).form = .union →
      (m.members S).length ≤ variants.length →
      (∀ i variant member, variants[i]? = some variant → m.memberAt? S i = some member →
        R variant.type member) →
      MatchStep m types R (.named type) S
  | enumeration {S : SchemaRef} {type : Nat} {wire : ScalarType} :
      wireType? (types.get type).body = some wire → (m.typeOf S).form = .scalar wire →
      MatchStep m types R (.named type) S

theorem MatchStep.imp {R R' : ValueType → SchemaRef → Prop} {type : ValueType}
    (h : MatchStep m types R type S) (hR : ∀ type S, R type S → R' type S) :
    MatchStep m types R' type S := by
  cases h with
  | scalar hf => exact .scalar hf
  | document => exact .document
  | list hm hr => exact .list hm (hR _ _ hr)
  | map hm hr => exact .map hm (hR _ _ hr)
  | option hr => exact .option (hR _ _ hr)
  | record hb hf hlen hr =>
      exact .record hb hf hlen fun i field member hi hm => hR _ _ (hr i field member hi hm)
  | union hb hf hlen hr =>
      exact .union hb hf hlen fun i variant member hi hm => hR _ _ (hr i variant member hi hm)
  | enumeration hw hf => exact .enumeration hw hf

/-- A type matches a schema, as far as both go. -/
def Matches (m : Model) (types : Table) (type : ValueType) (S : SchemaRef) : Prop :=
  ∃ R : ValueType → SchemaRef → Prop, (∀ type S, R type S → MatchStep m types R type S) ∧ R type S

theorem Matches.step {type : ValueType} (h : Matches m types type S) :
    MatchStep m types (Matches m types) type S := by
  obtain ⟨R, hR, h⟩ := h
  exact (hR _ _ h).imp fun _ _ h => ⟨R, hR, h⟩

/-- The other way round: what matches on the outside and in its parts matches. -/
theorem Matches.of_step {type : ValueType} (h : MatchStep m types (Matches m types) type S) :
    Matches m types type S :=
  ⟨MatchStep m types (Matches m types), fun _ _ h => h.imp fun _ _ h => h.step, h⟩

/-- What holds at every place of a shape holds of the fields and the members that they stand for. -/
theorem forall_places {α : Type} {key : ShapeKey} {P : α → SchemaRef → Prop} {fields : List α}
    (ht : m.table? S = some key) (h : ∀ p ∈ fields.zipIdx, P p.1 (.member key p.2)) (i : Nat)
    (field : α) (member : SchemaRef) (hi : fields[i]? = some field)
    (hm : m.memberAt? S i = some member) : P field member := by
  obtain ⟨key', hkey, -, rfl⟩ := Model.memberAt?_eq_some_iff.mp hm
  obtain rfl := Option.some.inj (ht.symm.trans hkey)
  exact h (field, i) (List.mem_zipIdx_iff_getElem?.mpr hi)

theorem Matches.of_option {type : ValueType} (h : Matches m types (.option type) S) :
    Matches m types type S := by
  cases h.step with
  | option h => exact h

/-- What is read for a field, before it is said to be there, matches as well. -/
theorem Matches.present {type : ValueType} (h : Matches m types type S) :
    Matches m types type.present S := by
  cases type with
  | option type => exact h.of_option
  | _ => exact h

/-! ### What matches a schema of a form -/

/-- Neither a document, which anything can be read as, nor an option, which a null is read as. -/
structure ValueType.Plain (type : ValueType) : Prop where
  not_option : type.isOption = false
  not_document : type ≠ .document

section
variable {type : ValueType} (ht : Matches m types type S) (hp : type.Plain)
include ht hp

theorem Matches.form_ne_document : (m.typeOf S).form ≠ .document := by
  intro hf
  cases ht.step with
  | document => exact hp.not_document rfl
  | option => cases hp.not_option
  | list hm => simp [Model.form_of_listMember hm] at hf
  | map hm => simp [Model.form_of_mapValue hm] at hf
  | scalar hf' | record _ hf' | union _ hf' | enumeration _ hf' => simp [hf'] at hf

theorem Matches.of_scalar {wire : ScalarType} (hf : (m.typeOf S).form = .scalar wire) :
    type = .scalar wire ∨ ∃ n, type = .named n ∧ wireType? (types.get n).body = some wire := by
  cases ht.step with
  | scalar hf' =>
      obtain rfl := ShapeType.Form.scalar.inj (hf.symm.trans hf')
      exact .inl rfl
  | enumeration hw hf' =>
      obtain rfl := ShapeType.Form.scalar.inj (hf.symm.trans hf')
      exact .inr ⟨_, rfl, hw⟩
  | document => exact absurd rfl hp.not_document
  | option => cases hp.not_option
  | list hm => simp [Model.form_of_listMember hm] at hf
  | map hm => simp [Model.form_of_mapValue hm] at hf
  | record _ hf' | union _ hf' => simp [hf'] at hf

theorem Matches.of_listMember {member : SchemaRef} (hm : m.listMember S = .ok member) :
    ∃ element, type = .list element ∧ Matches m types element member := by
  have hf := Model.form_of_listMember hm
  cases ht.step with
  | list hm' hr =>
      obtain rfl := Except.ok.inj (hm.symm.trans hm')
      exact ⟨_, rfl, hr⟩
  | document => exact absurd rfl hp.not_document
  | option => cases hp.not_option
  | map hm => simp [Model.form_of_mapValue hm] at hf
  | scalar hf' | record _ hf' | union _ hf' | enumeration _ hf' => simp [hf'] at hf

theorem Matches.of_mapValue {member : SchemaRef} (hm : m.mapValue S = .ok member) :
    ∃ sorted value, type = .map sorted value ∧ Matches m types value member := by
  have hf := Model.form_of_mapValue hm
  cases ht.step with
  | map hm' hr =>
      obtain rfl := Except.ok.inj (hm.symm.trans hm')
      exact ⟨_, _, rfl, hr⟩
  | document => exact absurd rfl hp.not_document
  | option => cases hp.not_option
  | list hm => simp [Model.form_of_listMember hm] at hf
  | scalar hf' | record _ hf' | union _ hf' | enumeration _ hf' => simp [hf'] at hf

theorem Matches.of_structure (hf : (m.typeOf S).form = .structure) :
    ∃ n fields, type = .named n ∧ (types.get n).body = .record fields ∧
      (m.members S).length ≤ fields.length ∧
      ∀ i field member, fields[i]? = some field → m.memberAt? S i = some member →
        Matches m types field.type member := by
  cases ht.step with
  | record hb _ hlen hr => exact ⟨_, _, rfl, hb, hlen, hr⟩
  | document => exact absurd rfl hp.not_document
  | option => cases hp.not_option
  | list hm => simp [Model.form_of_listMember hm] at hf
  | map hm => simp [Model.form_of_mapValue hm] at hf
  | scalar hf' | union _ hf' | enumeration _ hf' => simp [hf'] at hf

theorem Matches.of_union (hf : (m.typeOf S).form = .union) :
    ∃ n variants unknown, type = .named n ∧ (types.get n).body = .union variants unknown ∧
      (m.members S).length ≤ variants.length ∧
      ∀ i variant member, variants[i]? = some variant → m.memberAt? S i = some member →
        Matches m types variant.type member := by
  cases ht.step with
  | union hb _ hlen hr => exact ⟨_, _, _, rfl, hb, hlen, hr⟩
  | document => exact absurd rfl hp.not_document
  | option => cases hp.not_option
  | list hm => simp [Model.form_of_listMember hm] at hf
  | map hm => simp [Model.form_of_mapValue hm] at hf
  | scalar hf' | record _ hf' | enumeration _ hf' => simp [hf'] at hf

end

end ShapeCodec.Typed

namespace ShapeCodec.Gallery

open Typed

/-! ### Types that match shapes that no check has seen -/

theorem twins_match :
    Matches unchecked uncheckedTypes (.named 0) (schema unchecked "x#Twins") := by
  refine .of_step (.record rfl (by decide) (by decide) (forall_places rfl ?_))
  exact List.forall_mem_cons.mpr ⟨.of_step (.option (.of_step (.scalar (by decide)))),
    List.forall_mem_singleton.mpr (.of_step (.option (.of_step (.scalar (by decide)))))⟩

end ShapeCodec.Gallery
