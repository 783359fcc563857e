import ShapeCodec.Proofs.Denotation
import ShapeCodec.Proofs.Targets
import ShapeCodec.Proofs.ValueReading

/-!
# Written under a schema

What a value calls for when it is written under a schema: a structure writes members of that schema
and no others, and only where the schema is neither a structure nor a union is there anything with
keys of its own. Documents and typed values keep to this.
-/

namespace ShapeCodec

/-! ### Calls under a schema -/

namespace Call

/-- The schema that a call hands its value on under. -/
def schema? : Call → Option SchemaRef
  | .scalar schema _ | .null schema | .document schema _ | .structure schema _ | .list schema _
  | .map schema _ => some schema
  | .entry .. | .attempt _ | .fail _ => none

/--
A value is written under a schema: a structure writes members of the schema, and what is no
structure of members is written only where the schema is neither a structure nor a union.
-/
def Under (m : Model) (S : SchemaRef) : Call → Prop
  | .structure _ members =>
    ∀ call ∈ members, ∀ schema, call.schema? = some schema → schema ∈ m.members S
  | .map .. | .document .. => (m.typeOf S).isStructureLike = false
  | _ => True

/-- A structure none of whose members comes about. -/
theorem under_structure_fail (m : Model) (S : SchemaRef) (schema : SchemaRef) (e : Error) :
    (Call.structure schema [.fail e]).Under m S := by
  intro call hc s hs
  rw [List.mem_singleton.mp hc] at hs
  cases hs

end Call

namespace Writer

variable {α : Type} {m : Model} {sink : Sink α}

theorem of_denote_structure {s schema : SchemaRef} {calls : List Call} {value : α}
    (h : denote m sink (.structure s calls) = .ok (schema, value)) : s = schema ∧
      ∃ pairs, denoteMembers m sink calls = .ok pairs ∧
        value = sink.map s (Entries.ofList pairs) := by
  rw [denote] at h
  obtain ⟨pairs, hpairs, h⟩ := Result.bind_eq_ok.mp h
  dsimp only at h
  split at h
  · cases h
  · obtain ⟨rfl, rfl⟩ := Prod.mk.inj (Except.ok.inj h)
    exact ⟨rfl, pairs, hpairs, rfl⟩

theorem of_return {β : Type} {r : Result β} {f : β → α} {s schema : SchemaRef} {value : α}
    (h : (do return (s, f (← r)) : Result (SchemaRef × α)) = .ok (schema, value)) :
    s = schema ∧ ∃ b, value = f b := by
  obtain ⟨b, -, h⟩ := Result.bind_eq_ok.mp h
  obtain ⟨rfl, rfl⟩ := Prod.mk.inj (Except.ok.inj h)
  exact ⟨rfl, b, rfl⟩

/-- Values are handed on under the schema of their call. -/
theorem schema?_of_denote {call : Call} {schema : SchemaRef} {value : α}
    (h : denote m sink call = .ok (schema, value)) : call.schema? = some schema := by
  cases call with
  | «structure» s members => exact congrArg some (of_denote_structure h).1
  | null s =>
      rw [denote] at h
      exact congrArg (fun p => some p.1) (Except.ok.inj h)
  | scalar s v => rw [denote] at h; exact congrArg some (of_return (f := id) h).1
  | document s d => rw [denote] at h; exact congrArg some (of_return (f := id) h).1
  | list s elements => rw [denote] at h; exact congrArg some (of_return h).1
  | map s entries => rw [denote] at h; exact congrArg some (of_return h).1
  | entry key value => rw [denote] at h; cases h
  | attempt call => rw [denote] at h; cases h
  | fail e => rw [denote] at h; cases h

/-- A structure has no other keys than those of the members that it writes. -/
theorem memberKey?_of_denoteMembers {calls : List Call} {pairs : List (String × α)}
    (h : denoteMembers m sink calls = .ok pairs) {key : String} (hk : key ∈ Entries.keys pairs) :
    ∃ call ∈ calls, ∃ schema, call.schema? = some schema ∧ sink.memberKey? schema = some key := by
  induction calls generalizing pairs with
  | nil =>
      rw [denoteMembers] at h
      obtain rfl := Except.ok.inj h
      cases hk
  | cons call calls ih =>
      rw [denoteMembers] at h
      obtain ⟨⟨schema, value⟩, hcall, h⟩ := Result.bind_eq_ok.mp h
      obtain ⟨k, hkey, h⟩ := Result.bind_eq_ok.mp h
      obtain ⟨rest, hrest, h⟩ := Result.bind_eq_ok.mp h
      obtain rfl := Except.ok.inj h
      rcases List.mem_cons.mp hk with rfl | hk
      · exact ⟨call, List.mem_cons_self .., schema, schema?_of_denote hcall,
          memberKey_eq_ok_iff.mp hkey⟩
      · obtain ⟨call', hmem, hschema⟩ := ih hrest hk
        exact ⟨call', List.mem_cons_of_mem _ hmem, hschema⟩

end Writer

/-! ### Documents and typed values -/

theorem Document.schema_of_calls {m : Model} {d : Document} {S schema : SchemaRef}
    (h : (calls m d S).schema? = some schema) : schema = S := by
  have hcalls := callsFor_calls m d S
  generalize calls m d S = call at hcalls h
  cases hcalls with
  | misfit he => cases h
  | _ => exact (Option.some.inj h).symm

/-- A document is written under any schema as a value of it. -/
theorem Document.calls_under (m : Model) (d : Document) (S : SchemaRef) :
    (calls m d S).Under m S := by
  have h := callsFor_calls m d S
  generalize calls m d S = call at h
  cases h with
  | null l | scalar hf | list hm | misfit he => exact trivial
  | kept hf => exact Bool.eq_false_iff.mpr (ShapeType.isStructureLike_iff.not.mpr (by simp [hf]))
  | map hm =>
      have hf := Model.form_of_mapValue hm
      exact Bool.eq_false_iff.mpr (ShapeType.isStructureLike_iff.not.mpr (by simp [hf]))
  | members hf =>
      intro call hc schema hs
      obtain ⟨p, hp, rfl⟩ := List.mem_map.mp hc
      obtain ⟨hmember, -, -, -⟩ := mem_memberParts.mp hp
      rw [schema_of_calls hs]
      exact hmember
  | opened he => exact Call.under_structure_fail m S S _

namespace Typed
namespace Value

variable (m : Model) (types : Table)

theorem memberAt_ne_serialization {m : Model} (schema : SchemaRef) (index : Nat)
    (reason : String) : m.memberAt schema index ≠ .error (.serialization reason) := by
  intro h
  unfold Model.memberAt at h
  split at h <;> cases h

/-- The fields of a record call for members of its schema, up to one that has none. -/
theorem mem_fieldCalls {schema : SchemaRef} {call : Call} {index : Nat} {fields : List Value}
    (h : call ∈ fieldCalls m types schema index fields) :
    (∃ e, call = .fail e ∧ ∀ reason, e ≠ .serialization reason) ∨
      ∃ member ∈ m.members schema, ∃ v ∈ fields, call = v.calls m types member := by
  induction fields generalizing index with
  | nil =>
      rw [fieldCalls] at h
      cases h
  | cons v vs ih =>
      have hrest (h : call ∈ fieldCalls m types schema (index + 1) vs) :
          (∃ e, call = .fail e ∧ ∀ reason, e ≠ .serialization reason) ∨
            ∃ member ∈ m.members schema, ∃ w ∈ v :: vs, call = w.calls m types member := by
        rcases ih h with hfail | ⟨member, hm, w, hw, hc⟩
        · exact .inl hfail
        · exact .inr ⟨member, hm, w, List.mem_cons_of_mem v hw, hc⟩
      cases hm : m.memberAt schema index with
      | error e =>
          rw [fieldCalls.eq_def] at h
          simp only [hm] at h
          refine .inl ⟨e, List.mem_singleton.mp h, fun reason he => ?_⟩
          exact memberAt_ne_serialization schema index reason (he ▸ hm)
      | ok member =>
          cases hv : v.isMissing with
          | true =>
              cases v with
              | missing =>
                  rw [fieldCalls_cons_missing m types hm] at h
                  exact hrest h
              | _ => cases hv
          | false =>
              rw [fieldCalls_cons m types hm hv] at h
              rcases List.mem_cons.mp h with rfl | h
              · have hmember := Model.mem_members_of_memberAt? (Model.memberAt_eq_ok_iff.mp hm)
                exact .inr ⟨member, hmember, v, List.mem_cons_self .., rfl⟩
              · exact hrest h

variable {m types}

/-- Calls that follow from finding a member fail only where there is none. -/
theorem sound_ofMember {r : Result SchemaRef} {f : SchemaRef → Call}
    (hr : ∀ reason, r ≠ .error (.serialization reason)) (hf : ∀ member, (f member).Sound) :
    (Call.ofResult (r.map f)).Sound := by
  refine .ofResult (fun reason he => hr reason (Result.map_eq_error.mp he)) fun call hc => ?_
  obtain ⟨member, -, rfl⟩ := Result.map_eq_ok.mp hc
  exact hf member

/-- Whatever schema a typed value is written under, its calls are sound. -/
theorem calls_sound (v : Value) (S : SchemaRef) : (v.calls m types S).Sound := by
  match v with
  | scalar s => exact .scalar S s
  | document d => exact Document.calls_sound d S
  | list items =>
      rw [calls]
      refine sound_ofMember (Document.memberOf_ne_serialization S .list 0) fun member => ?_
      rw [itemCalls_eq_map]
      refine .list fun call hc => ?_
      obtain ⟨v, hv, rfl⟩ := List.mem_map.mp hc
      have := List.sizeOf_lt_of_mem hv
      exact calls_sound v member
  | map entries =>
      rw [calls]
      refine sound_ofMember (Document.memberOf_ne_serialization S .map 1) fun member => ?_
      rw [entryCalls_eq_map]
      refine .map fun e he => ?_
      have := List.sizeOf_lt_of_mem he
      have : sizeOf e.2 < sizeOf e := by
        obtain ⟨k, v⟩ := e
        show sizeOf v < sizeOf (k, v)
        rw [Prod.mk.sizeOf_spec]
        omega
      exact calls_sound e.2 member
  | missing => exact .null S
  | present v => exact calls_sound v S
  | record type fields =>
      rw [calls]
      refine .structure fun call hc => ?_
      rcases mem_fieldCalls m types hc with ⟨e, rfl, he⟩ | ⟨member, -, v, hv, rfl⟩
      · exact .fail he
      · have := List.sizeOf_lt_of_mem hv
        exact calls_sound v member
  | variant type index content =>
      rw [calls]
      refine .structure fun call hc => ?_
      rw [List.mem_singleton.mp hc]
      exact sound_ofMember (memberAt_ne_serialization _ index) fun member =>
        calls_sound content member
  | constant type index => exact .scalar S _
  | unknown type content =>
      rw [calls]
      split
      · exact .scalar S content
      · refine .structure fun call hc => ?_
        rw [List.mem_singleton.mp hc]
        exact .fail nofun
  termination_by sizeOf v
  decreasing_by
    all_goals simp only [list.sizeOf_spec, map.sizeOf_spec, present.sizeOf_spec, record.sizeOf_spec,
      variant.sizeOf_spec] at *
    all_goals omega

/-- A record or union at the root of a value is bound to a schema. -/
def BoundTo (types : Table) (S : SchemaRef) : Value → Prop
  | record type _ | variant type _ _ => (types.get type).schema = S
  | present v => BoundTo types S v
  | _ => True

/-- A value is handed on under the schema that it is written under. -/
theorem schema?_calls (v : Value) (S : SchemaRef) :
    ∀ schema, (v.calls m types S).schema? = some schema → schema = S := by
  have hof {r : Result SchemaRef} {f : SchemaRef → Call}
      (hf : ∀ member, (f member).schema? = some S) :
      ∀ schema, (Call.ofResult (r.map f)).schema? = some schema → schema = S := by
    intro schema h
    cases r with
    | ok member => exact (Option.some.inj ((hf member).symm.trans h)).symm
    | error e => cases h
  match v with
  | document d => exact fun _ h => Document.schema_of_calls h
  | list items =>
      rw [calls]
      exact hof fun _ => rfl
  | map entries =>
      rw [calls]
      exact hof fun _ => rfl
  | present v =>
      rw [calls]
      exact schema?_calls v S
  | unknown type content =>
      rw [calls]
      split <;> exact fun _ h => (Option.some.inj h).symm
  | scalar _ | missing | record .. | variant .. | constant .. =>
      rw [calls]
      exact fun _ h => (Option.some.inj h).symm

/-- A value that is bound to a schema is written under it as a value of it. -/
theorem calls_under (v : Value) {S : SchemaRef} (hv : v.BoundTo types S) :
    (v.calls m types S).Under m S := by
  match v with
  | document d => exact Document.calls_under m d S
  | list items =>
      rw [calls]
      cases m.listMember S <;> exact trivial
  | map entries =>
      rw [calls]
      cases hm : m.mapValue S with
      | error e => exact trivial
      | ok member =>
          show (m.typeOf S).isStructureLike = false
          rw [(Model.mapValue_eq_ok_iff.mp hm).1]
          rfl
  | present v =>
      rw [calls]
      exact calls_under v hv
  | record type fields =>
      rw [calls]
      obtain rfl : (types.get type).schema = S := hv
      intro call hc schema hs
      rcases mem_fieldCalls m types hc with ⟨e, rfl, -⟩ | ⟨member, hm, w, -, rfl⟩
      · cases hs
      · exact schema?_calls w member schema hs ▸ hm
  | variant type index content =>
      rw [calls]
      obtain rfl : (types.get type).schema = S := hv
      intro call hc schema hs
      rw [List.mem_singleton.mp hc] at hs
      cases hm : m.memberAt (types.get type).schema index with
      | error e =>
          rw [hm] at hs
          cases hs
      | ok member =>
          rw [hm] at hs
          have hmember := Model.mem_members_of_memberAt? (Model.memberAt_eq_ok_iff.mp hm)
          exact schema?_calls content member schema hs ▸ hmember
  | unknown type content =>
      rw [calls]
      split
      · exact trivial
      · exact Call.under_structure_fail m S S _
  | scalar _ | missing | constant .. =>
      rw [calls]
      exact trivial

end Value

/-- What a value of a type that has a schema of its own is at its root. -/
inductive Value.RootOf : ValueType → Value → Prop
  | scalar (type : ScalarType) (v : Scalar) : RootOf (.scalar type) (.scalar v)
  | document (d : Document) : RootOf .document (.document d)
  | record (type : Nat) (fields : List Value) : RootOf (.named type) (.record type fields)
  | variant (type index : Nat) (content : Value) :
      RootOf (.named type) (.variant type index content)
  | constant (type index : Nat) : RootOf (.named type) (.constant type index)
  | unknown (type : Nat) (content : Scalar) : RootOf (.named type) (.unknown type content)

theorem rootOf_of_readConstant {α : Type} {s : Scope} {type : Nat} {constants : List (Constant α)}
    {keeps : Bool} {schema : SchemaRef} {matching : α → Bool} {w : Scalar} {v : Value}
    (h : readConstant s type constants keeps schema matching w = .ok v) :
    v.RootOf (.named type) := by
  unfold readConstant at h
  split at h
  · exact Except.ok.inj h ▸ .constant type _
  split at h
  · exact Except.ok.inj h ▸ .unknown type w
  · cases h

/-- What is read as a type has the root of one. -/
theorem rootOf_of_read {Label Leaf : Type} {src : Source Label Leaf} {s : Scope}
    {type : ValueType} {S schema : SchemaRef} (htype : s.types.schemaOf? type = some S)
    {t : Tree Label Leaf} {v : Value} (h : read src s type schema t = .ok v) : v.RootOf type := by
  cases type with
  | scalar type =>
      rw [read, valueWith_scalar] at h
      obtain ⟨w, -, rfl⟩ := Result.map_eq_ok.mp h
      exact .scalar type w
  | document =>
      rw [read, valueWith_document] at h
      obtain ⟨d, -, rfl⟩ := Result.map_eq_ok.mp h
      exact .document d
  | named type =>
      rw [read, valueWith_eq, readNode_named, readDeclared] at h
      split at h
      · obtain ⟨_, -, h⟩ := Result.bind_eq_ok.mp h
        obtain ⟨_, -, h⟩ := Result.bind_eq_ok.mp h
        obtain ⟨fields, -, h⟩ := Result.bind_eq_ok.mp h
        exact Except.ok.inj h ▸ .record type fields
      · unfold readUnion at h
        obtain ⟨chosen, -, h⟩ := Result.bind_eq_ok.mp h
        split at h
        · obtain ⟨index, -, h⟩ := Result.bind_eq_ok.mp h
          split at h
          · obtain ⟨content, -, h⟩ := Result.bind_eq_ok.mp h
            exact Except.ok.inj h ▸ .variant type index content
          · cases h
        · split at h
          · exact Except.ok.inj h ▸ .unknown type _
          · cases h
      · obtain ⟨_, -, h⟩ := Result.bind_eq_ok.mp h
        exact rootOf_of_readConstant h
      · obtain ⟨_, -, h⟩ := Result.bind_eq_ok.mp h
        exact rootOf_of_readConstant h
  | list element => cases htype
  | map sorted value => cases htype
  | option type => cases htype

/-- What is read as a type that has a schema of its own is bound to that schema. -/
theorem boundTo_of_read {Label Leaf : Type} {src : Source Label Leaf} {s : Scope}
    {type : ValueType} {S schema : SchemaRef} (htype : s.types.schemaOf? type = some S)
    {t : Tree Label Leaf} {v : Value} (h : read src s type schema t = .ok v) :
    v.BoundTo s.types S := by
  cases rootOf_of_read htype h with
  | record type fields => exact Option.some.inj htype
  | variant type index content => exact Option.some.inj htype
  | _ => exact trivial

end ShapeCodec.Typed
