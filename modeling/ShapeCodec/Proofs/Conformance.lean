import ShapeCodec.Document.Update
import ShapeCodec.Proofs.Entries
import ShapeCodec.Proofs.Members

/-!
# Conformance

When a document is a value of a schema: its nodes are of the kinds that the schema asks for,
structures hold members and all that have to be there, a union holds one value, and nulls stand only
in collections that keep them. What is asked of a document beyond that is up to a set of rules.
-/

namespace ShapeCodec

/-- What is asked of the nodes of a document besides their kinds. -/
structure Document.Rules where
  /-- The label of a node that stands under a schema. -/
  label : SchemaRef → Label → Prop
  /-- A value where the schema allows anything. -/
  anything : SchemaRef → Document → Prop
  /-- A scalar under a schema. -/
  scalar : SchemaRef → Scalar → Prop
  /-- The tag of a union's value when no member is named that way. -/
  unknown : SchemaRef → String → Prop

namespace Document

/-- Every node stands under the schema that it was met at, which is all there is to be asked. -/
def Rules.labelled : Rules where
  label schema l := l = { schema }
  anything _ _ := True
  scalar _ _ := True
  unknown _ _ := True

/-- The members that have to be present are. -/
def HasRequired (m : Model) (schema : SchemaRef) (entries : Entries Document) : Prop :=
  ∀ member ∈ m.members schema, (m.traits member).mustBePresent = true →
    ∀ name, m.memberName? member = some name → name ∈ entries.keys

/--
A document is null or a value of a schema. Where a null may stand inside of a value is up to the
container: members are never null, and elements only in sparse collections.
-/
inductive Conforms (m : Model) (r : Rules) : SchemaRef → Document → Prop
  | null {schema : SchemaRef} {l : Label} : r.label schema l → Conforms m r schema (.null l)
  | anything {schema : SchemaRef} {d : Document} :
      (m.typeOf schema).form = .document → r.anything schema d → Conforms m r schema d
  | scalar {schema : SchemaRef} {l : Label} {v : Scalar} :
      (m.typeOf schema).form = .scalar v.type → r.label schema l → r.scalar schema v →
      Conforms m r schema (.leaf l v)
  | members {schema : SchemaRef} {l : Label} {entries : List (String × Document)} :
      (m.typeOf schema).form = .structure → r.label schema l → (Entries.keys entries).Nodup →
      (∀ e ∈ entries, e.2.isNull = false) →
      (∀ e ∈ entries, (m.member? schema e.1).isSome = true) →
      (∀ e ∈ entries, ∀ member, m.member? schema e.1 = some member → Conforms m r member e.2) →
      HasRequired m schema entries → Conforms m r schema (.map l entries)
  | union {schema : SchemaRef} {l : Label} {key : String} {d : Document} :
      (m.typeOf schema).form = .union → r.label schema l → d.isNull = false →
      (m.member? schema key = none → r.unknown schema key) →
      (∀ member, m.member? schema key = some member → Conforms m r member d) →
      Conforms m r schema (.map l [(key, d)])
  | list {schema member : SchemaRef} {l : Label} {items : List Document} :
      m.listMember schema = .ok member → r.label schema l →
      (∀ d ∈ items, d.isNull = true → m.isSparse schema = true) →
      (∀ d ∈ items, Conforms m r member d) → Conforms m r schema (.list l items)
  | map {schema member : SchemaRef} {l : Label} {entries : List (String × Document)} :
      m.mapValue schema = .ok member → r.label schema l → (Entries.keys entries).Nodup →
      (∀ e ∈ entries, e.2.isNull = true → m.isSparse schema = true) →
      (∀ e ∈ entries, Conforms m r member e.2) → Conforms m r schema (.map l entries)

/-! ### The parts of a document that conforms -/

section
variable {m : Model} {r : Rules} {schema : SchemaRef} {l : Label}

theorem Conforms.of_structure {entries : List (String × Document)}
    (hf : (m.typeOf schema).form = .structure) (h : Conforms m r schema (.map l entries)) :
    ∀ e ∈ entries, ∀ member, m.member? schema e.1 = some member → Conforms m r member e.2 := by
  cases h with
  | anything hf' | union hf' => simp [hf] at hf'
  | map hm => simp [Model.form_of_mapValue hm] at hf
  | members _ _ _ _ _ hall => exact hall

theorem Conforms.of_union {key : String} {d : Document} (hf : (m.typeOf schema).form = .union)
    (h : Conforms m r schema (.map l [(key, d)])) :
    ∀ member, m.member? schema key = some member → Conforms m r member d := by
  cases h with
  | anything hf' | members hf' => simp [hf] at hf'
  | map hm => simp [Model.form_of_mapValue hm] at hf
  | union _ _ _ _ hall => exact hall

theorem Conforms.of_list {member : SchemaRef} {items : List Document}
    (hm : m.listMember schema = .ok member) (h : Conforms m r schema (.list l items)) :
    ∀ d ∈ items, Conforms m r member d := by
  have hf := Model.form_of_listMember hm
  cases h with
  | anything hf' => simp [hf] at hf'
  | list hm' _ _ hall =>
      obtain rfl := Except.ok.inj (hm.symm.trans hm')
      exact hall

theorem Conforms.of_map {member : SchemaRef} {entries : List (String × Document)}
    (hm : m.mapValue schema = .ok member) (h : Conforms m r schema (.map l entries)) :
    ∀ e ∈ entries, Conforms m r member e.2 := by
  have hf := Model.form_of_mapValue hm
  cases h with
  | anything hf' | members hf' | union hf' => simp [hf] at hf'
  | map hm' _ _ _ hall =>
      obtain rfl := Except.ok.inj (hm.symm.trans hm')
      exact hall

end

/-! ### Checks of entries -/

/-- The check of keys passes exactly when they name members. -/
theorem checkKeys_eq_ok {m : Model} {schema : SchemaRef} {keys : List String} :
    checkKeys m schema keys = .ok () ↔ ∀ key ∈ keys, (m.member? schema key).isSome = true := by
  induction keys with
  | nil => exact iff_of_true rfl nofun
  | cons key keys ih =>
      rw [List.forall_mem_cons, ← ih, checkKeys, Model.expectMember]
      cases m.member? schema key with
      | none => exact iff_of_false nofun fun h => by cases h.1
      | some member => exact ⟨fun h => ⟨rfl, h⟩, fun h => h.2⟩

/-- The check for required members passes exactly when they are present. -/
theorem checkRequired_iff {m : Model} {schema : SchemaRef} {present : String → Bool} :
    m.checkRequired schema present = .ok () ↔
      ∀ member ∈ m.members schema, (m.traits member).mustBePresent = true →
        ∀ name, m.memberName? member = some name → present name = true := by
  unfold Model.checkRequired
  dsimp only
  constructor
  · intro h member hm hp name hn
    split at h
    · simp at h
    · rename_i hf
      have := List.find?_eq_none.mp hf member hm
      simpa [hp, hn] using this
  · intro h
    split
    · rename_i member hf
      have hp := List.find?_some hf
      simp only [Bool.and_eq_true, Option.any_eq_true, Bool.not_eq_true'] at hp
      obtain ⟨hp, name, hn, ha⟩ := hp
      have := h member (List.mem_of_find?_eq_some hf) hp name hn
      rw [ha] at this
      simp at this
    · rfl

/-- So it passes for entries that have them. -/
theorem checkRequired_eq_ok {m : Model} {schema : SchemaRef} {entries : Entries Document} :
    m.checkRequired schema (Entries.contains · entries) = .ok () ↔
      HasRequired m schema entries := by
  simp only [checkRequired_iff, HasRequired, Entries.contains_iff]

end Document
end ShapeCodec
