import ShapeCodec.Proofs.ShownReads
import ShapeCodec.Proofs.ShownWrites
import ShapeCodec.Typed.Codec

/-!
# What is shown of values that have been captured

Documents and typed values are written under the members of their schemas. So two of them that
differ in nothing but what they hold under sensitive members lead to calls alike, and what they are
captured as shows the same.
-/

namespace ShapeCodec

/-! ### Documents -/

namespace Document

variable {m : Model}

/-- Only where anything is allowed is a document kept as it is. -/
theorem keeps_calls {S : SchemaRef} (hS : (m.typeOf S).form ≠ .document) (d : Document) :
    (calls m d S).keeps = false := by
  have h := callsFor_calls m d S
  generalize calls m d S = call at h
  cases h with
  | kept hf => exact absurd hf hS
  | _ => rfl

theorem writtenAt_calls {S : SchemaRef} (hS : (m.typeOf S).form ≠ .document) (d : Document) :
    (calls m d S).WrittenAt S where
  isValue := (calls_sound d S).isValue
  schema := fun _ h => schema_of_calls h
  keeps := keeps_calls hS d

/-- The members that two documents hold at the same places, with both of their values. -/
def commonParts (m : Model) (S : SchemaRef) (parts : Entries (Document × Document)) :
    List (SchemaRef × Document × Document) :=
  (m.members S).filterMap fun member =>
    (m.memberName? member).bind fun name =>
      ((parts.find? name).filter fun q => !q.1.isNull).map fun q => (member, q)

theorem mem_commonParts {S : SchemaRef} {parts : Entries (Document × Document)}
    {q : SchemaRef × Document × Document} (h : q ∈ commonParts m S parts) :
    q.1 ∈ m.members S ∧ ∃ name, m.memberName? q.1 = some name ∧ (name, q.2) ∈ parts := by
  obtain ⟨member, hmember, hq⟩ := List.mem_filterMap.mp h
  obtain ⟨name, hname, hq⟩ := Option.bind_eq_some_iff.mp hq
  obtain ⟨d, hd, rfl⟩ := Option.map_eq_some_iff.mp hq
  have hfind := (Option.filter_eq_some_iff.mp hd).1
  exact ⟨hmember, name, hname, Entries.mem_of_find? hfind⟩

/-- Each of two documents that hold the same members calls for those. -/
theorem calls_commonParts {S : SchemaRef} {l : Label} {parts : Entries (Document × Document)}
    {f : Document × Document → Document}
    (hS : (m.typeOf S).form = .structure ∨ (m.typeOf S).form = .union)
    (hnull : ∀ member ∈ m.members S, ∀ p ∈ parts, m.memberName? member = some p.1 →
      (f p.2).isNull = p.2.1.isNull) :
    calls m (.map l (parts.map fun p => (p.1, f p.2))) S =
      .structure S ((commonParts m S parts).map fun q => calls m (f q.2) q.1) := by
  rw [calls_members hS, memberParts, commonParts, List.map_filterMap, List.map_filterMap]
  congr 1
  refine List.filterMap_congr fun member hmember => ?_
  cases hname : m.memberName? member with
  | none => rfl
  | some name =>
      have hfind := Entries.find?_map (f := f) (fun _ => rfl) name parts
      simp only [Option.bind_some, hfind]
      cases hq : Entries.find? name parts with
      | none => rfl
      | some q =>
          have hq' := hnull member hmember (name, q) (Entries.mem_of_find? hq) hname
          cases hn : q.1.isNull <;> simp [Option.filter, hq', hn]

/-- Documents that are told apart by nothing shown lead to calls alike. -/
theorem calls_alike (hm : m.AllLaidOut) {S : SchemaRef} {d e : Document}
    (h : (Document.source m).Alike m S d e) : (calls m d S).Alike m (calls m e S) := by
  induction h with
  | same d => exact .same _
  | hidden hS hf => exact .hidden hS (writtenAt_calls hf _) (writtenAt_calls hf _)
  | kept hf hd he htext =>
      rw [calls_document hf hd, calls_document hf he]
      exact .kept htext
  | @members S l l' parts hf hknown _ ih =>
      have hfound : ∀ member ∈ m.members S, ∀ p ∈ parts, m.memberName? member = some p.1 →
          (Document.source m).member? S p.1 = some member :=
        fun member hmember p _ hname =>
            Model.member?_of_mem (hm.laidOut S).names_nodup hmember hname
      rw [calls_commonParts (f := Prod.fst) hf fun _ _ _ _ _ => rfl,
        calls_commonParts (f := Prod.snd) hf fun member hmember p hp hname =>
          (hknown p hp member (hfound member hmember p hp hname)).isNull_eq.symm]
      refine .structure_map fun q hq => ?_
      obtain ⟨hmember, name, hname, hpart⟩ := mem_commonParts hq
      exact ih (name, q.2) hpart q.1 (hfound q.1 hmember (name, q.2) hpart hname)
  | items hm _ ih =>
      rw [calls_list hm, calls_list hm, List.map_map, List.map_map]
      exact .list_map ih
  | entries hm _ ih =>
      rw [calls_map hm, calls_map hm, List.map_map, List.map_map]
      exact .map_entries ih _

/-- Documents that are captured under a schema from documents alike show the same. -/
theorem inspect_writeAs_eq (hm : m.AllLaidOut) {S : SchemaRef} {d e d' e' : Document}
    (h : (Document.source m).Alike m S d e) (hd : writeAs m S d = .ok d')
    (he : writeAs m S e = .ok e') : d'.inspect m = e'.inspect m :=
  inspect_ofCall_eq (calls_alike hm h) hd he

end Document

/-! ### Typed values -/

namespace Typed.Value

/--
Typed values that differ in nothing but what they hold under sensitive schemas. A field is there in
both or in none; documents that are kept as they are have to show the same by themselves.
-/
inductive Alike (m : Model) (types : Table) : SchemaRef → Value → Value → Prop
  | same {S : SchemaRef} (v : Value) : Alike m types S v v
  | hidden {S : SchemaRef} {v w : Value} :
      m.isSensitive S = true → (m.typeOf S).form ≠ .document → Alike m types S v w
  | document {S : SchemaRef} {d e : Document} :
      (Document.source m).Alike m S d e → Alike m types S (.document d) (.document e)
  | present {S : SchemaRef} {v w : Value} :
      Alike m types S v w → Alike m types S (.present v) (.present w)
  | items {S member : SchemaRef} {parts : List (Value × Value)} :
      m.listMember S = .ok member → (∀ p ∈ parts, Alike m types member p.1 p.2) →
      Alike m types S (.list (parts.map Prod.fst)) (.list (parts.map Prod.snd))
  | entries {S member : SchemaRef} {parts : List (String × Value × Value)} :
      m.mapValue S = .ok member → (∀ p ∈ parts, Alike m types member p.2.1 p.2.2) →
      Alike m types S (.map (parts.map fun p => (p.1, p.2.1)))
        (.map (parts.map fun p => (p.1, p.2.2)))
  | fields {S : SchemaRef} {type : Nat} {parts : List (Value × Value)} :
      (∀ p ∈ parts, p.1.isMissing = p.2.isMissing) →
      (∀ i p member, parts[i]? = some p →
        m.memberAt (types.get type).schema i = .ok member → Alike m types member p.1 p.2) →
      Alike m types S (.record type (parts.map Prod.fst)) (.record type (parts.map Prod.snd))
  | content {S : SchemaRef} {type index : Nat} {v w : Value} :
      (∀ member, m.memberAt (types.get type).schema index = .ok member →
        Alike m types member v w) →
      Alike m types S (.variant type index v) (.variant type index w)

variable {m : Model} {types : Table}

theorem keeps_calls (v : Value) {S : SchemaRef} (hS : (m.typeOf S).form ≠ .document) :
    (v.calls m types S).keeps = false := by
  match v with
  | document d => exact Document.keeps_calls hS d
  | list items =>
      rw [calls]
      cases m.listMember S <;> rfl
  | map entries =>
      rw [calls]
      cases m.mapValue S <;> rfl
  | present v =>
      rw [calls]
      exact keeps_calls v hS
  | unknown type content =>
      rw [calls]
      split <;> rfl
  | scalar _ | missing | record .. | variant .. | constant .. =>
      rw [calls]
      rfl

theorem writtenAt_calls (v : Value) {S : SchemaRef} (hS : (m.typeOf S).form ≠ .document) :
    (v.calls m types S).WrittenAt S where
  isValue := (calls_sound v S).isValue
  schema := schema?_calls v S
  keeps := keeps_calls v hS

/-- The fields of two records, place by place, lead to calls alike. -/
theorem alike_fieldCalls {schema : SchemaRef} {index : Nat} {parts : List (Value × Value)}
    (hmissing : ∀ p ∈ parts, p.1.isMissing = p.2.isMissing)
    (h : ∀ i p member, parts[i]? = some p → m.memberAt schema (index + i) = .ok member →
      (p.1.calls m types member).Alike m (p.2.calls m types member)) :
    ∃ pairs : List (Call × Call),
      fieldCalls m types schema index (parts.map Prod.fst) = pairs.map Prod.fst ∧
      fieldCalls m types schema index (parts.map Prod.snd) = pairs.map Prod.snd ∧
      ∀ p ∈ pairs, p.1.Alike m p.2 := by
  induction parts generalizing index with
  | nil =>
      refine ⟨[], ?_, ?_, by simp⟩
      · rw [List.map_nil, fieldCalls]
        rfl
      · rw [List.map_nil, fieldCalls]
        rfl
  | cons p parts ih =>
      obtain ⟨v, w⟩ := p
      obtain ⟨hp, hmissing⟩ := List.forall_mem_cons.mp hmissing
      obtain ⟨pairs, hleft, hright, hpairs⟩ :=
        ih hmissing fun i p member hi hm =>
          h (i + 1) p member hi (by rwa [show index + (i + 1) = index + 1 + i by omega])
      rw [List.map_cons, List.map_cons]
      cases hm : m.memberAt schema index with
      | error e =>
          refine ⟨[(.fail e, .fail e)], ?_, ?_, List.forall_mem_singleton.mpr (.same _)⟩
          · rw [fieldCalls.eq_def]
            simp only [hm]
            rfl
          · rw [fieldCalls.eq_def]
            simp only [hm]
            rfl
      | ok member =>
          cases hv : v.isMissing with
          | true =>
              have hw : w.isMissing = true := hp.symm.trans hv
              cases v <;> cases hv
              cases w <;> cases hw
              rw [fieldCalls_cons_missing m types hm, fieldCalls_cons_missing m types hm]
              exact ⟨pairs, hleft, hright, hpairs⟩
          | false =>
              have hw : w.isMissing = false := hp.symm.trans hv
              rw [fieldCalls_cons m types hm hv, fieldCalls_cons m types hm hw, hleft, hright]
              exact ⟨(_, _) :: pairs, rfl, rfl,
                List.forall_mem_cons.mpr ⟨h 0 (v, w) member rfl hm, hpairs⟩⟩

/-- Typed values that are told apart by nothing shown lead to calls alike. -/
theorem calls_alike (hm : m.AllLaidOut) {S : SchemaRef} {v w : Value}
    (h : v.Alike m types S w) : (v.calls m types S).Alike m (w.calls m types S) := by
  induction h with
  | same v => exact .same _
  | hidden hS hf => exact .hidden hS (writtenAt_calls _ hf) (writtenAt_calls _ hf)
  | document h =>
      rw [calls, calls]
      exact Document.calls_alike hm h
  | present _ ih =>
      rw [calls, calls]
      exact ih
  | items hmember _ ih =>
      rw [calls, calls, hmember]
      simp only [itemCalls_eq_map, List.map_map]
      exact .list_map ih
  | entries hmember _ ih =>
      rw [calls, calls, hmember]
      simp only [entryCalls_eq_map, List.map_map]
      exact .map_entries ih _
  | @fields S type parts hmissing _ ih =>
      have hfields : ∀ i p member, parts[i]? = some p →
          m.memberAt (types.get type).schema (0 + i) = .ok member →
          (p.1.calls m types member).Alike m (p.2.calls m types member) :=
        fun i p member hi hm => ih i p member hi (by rwa [Nat.zero_add] at hm)
      obtain ⟨pairs, hleft, hright, hpairs⟩ := alike_fieldCalls hmissing hfields
      rw [calls, calls, hleft, hright]
      exact .members hpairs
  | @content S type index v w _ ih =>
      rw [calls, calls]
      cases hmember : m.memberAt (types.get type).schema index with
      | error e => exact .same _
      | ok member =>
          have hpair : ∀ p ∈ [(v.calls m types member, w.calls m types member)],
              p.1.Alike m p.2 := List.forall_mem_singleton.mpr (ih member hmember)
          exact .members hpair

/-- Documents that are captured from typed values alike show the same. -/
theorem inspect_toDocument_eq (hm : m.AllLaidOut) {S : SchemaRef} {v w : Value} {d e : Document}
    (h : v.Alike m types S w) (hd : v.toDocument m types S = .ok d)
    (he : w.toDocument m types S = .ok e) : d.inspect m = e.inspect m :=
  Document.inspect_ofCall_eq (calls_alike hm h) hd he

end Typed.Value
end ShapeCodec
