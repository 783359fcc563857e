import ShapeCodec.Proofs.CapturedCalls
import ShapeCodec.Proofs.ValueRoundTrip

/-!
# Typed values by way of a document

Which typed values are written the same right away and after they have been kept in a document:
records and unions are bound to the schemas that describe them, leaves are what their members ask
for, and nothing in a member is written as null.
-/

namespace ShapeCodec

variable {m : Model} {S : SchemaRef}

/-! ### Documents -/

theorem Document.isNull_calls {d : Document} (h : d.isNull = false) (S : SchemaRef) :
    (d.calls m S).isNull = false := by
  have hcalls := callsFor_calls m d S
  generalize d.calls m S = call at hcalls
  cases hcalls with
  | null l => simp at h
  | _ => rfl

/-- The members that a document has values for come in the order of the schema. -/
theorem Document.sublist_memberParts (m : Model) (S : SchemaRef) (entries : Entries Document) :
    ((memberParts m S entries).map Prod.fst).Sublist (m.members S) := by
  rw [memberParts]
  induction m.members S with
  | nil => exact .slnil
  | cons member members ih =>
      rw [List.filterMap_cons]
      split
      · exact ih.cons member
      · rename_i part hpart
        obtain ⟨name, -, hpart⟩ := Option.bind_eq_some_iff.mp hpart
        obtain ⟨d, -, rfl⟩ := Option.map_eq_some_iff.mp hpart
        exact ih.cons_cons member

/-- What a document calls for follows the schema if what its parts call for does. -/
theorem Document.CallsFor.follows {d : Document} {call : Call} (h : CallsFor m S d call)
    (hd : d.DistinctKeys)
    (ih : ∀ e : Document, e.Inside d → ∀ member, Call.Follows m member (calls m e member)) :
    call.Follows m S := by
  cases h with
  | null l => exact .null
  | kept hf hn => exact .document hf hn
  | scalar hf => exact .scalar (Scalar.suits_of_form hf)
  | list hm =>
      refine .list hm fun call hc => ?_
      obtain ⟨e, he, rfl⟩ := List.mem_map.mp hc
      exact ih e (.item he) _
  | @map l entries member hm =>
      let parts := entries.map fun e => (e.1, calls m e.2 member)
      have hparts : (entries.map fun e => Call.entry e.1 [calls m e.2 member]) =
          parts.map fun p => .entry p.1 [p.2] := by
        rw [List.map_map]
        rfl
      have hkeys : (parts.map Prod.fst).Nodup := by
        simpa [parts, Entries.keys, Function.comp_def] using hd.of_map.1
      rw [hparts]
      exact .map hm hkeys (List.forall_mem_map.mpr fun e he => ih e.2 (.entry he) member)
  | @members l entries hf =>
      let parts := (memberParts m S entries).map fun p => (p.1, calls m p.2.2 p.1)
      have hparts : ((memberParts m S entries).map fun p => calls m p.2.2 p.1) =
          parts.map Prod.snd := by
        rw [List.map_map]
        rfl
      have hsub : (parts.map Prod.fst).Sublist (m.members S) := by
        rw [List.map_map]
        exact sublist_memberParts m S entries
      rw [hparts]
      refine .members (ShapeType.isStructureLike_iff.mpr hf) hsub
        (List.forall_mem_map.mpr fun p hp => ?_) (List.forall_mem_map.mpr fun p hp => ?_)
      · obtain ⟨-, -, -, hnull⟩ := mem_memberParts.mp hp
        exact isNull_calls hnull p.1
      · obtain ⟨-, -, hfind, -⟩ := mem_memberParts.mp hp
        exact ih p.2.2 (.entry (Entries.mem_of_find? hfind)) p.1
  | misfit he => exact .fail
  | opened he => exact .opened (List.mem_singleton.mpr rfl)

/-- Whatever schema a document is written under, its calls follow it. -/
theorem Document.follows_calls {d : Document} (hd : d.DistinctKeys) (S : SchemaRef) :
    (d.calls m S).Follows m S := by
  induction d using Tree.induct_inside generalizing S with
  | h d ih => exact (callsFor_calls m d S).follows hd fun e he => ih e he (hd.inside he)

/-! ### Typed values -/

namespace Typed

variable {types : Table}

/--
A value is written under a schema as the schema describes it: records and unions are bound to it,
their members are missing or not written as null, and every leaf suits the schema of its place.
-/
inductive Value.Follows (m : Model) (types : Table) : SchemaRef → Value → Prop
  | scalar {S : SchemaRef} {v : Scalar} : v.Suits m S → Follows m types S (.scalar v)
  | document {S : SchemaRef} {d : Document} : d.DistinctKeys → Follows m types S (.document d)
  | list {S : SchemaRef} {items : List Value} :
      (∀ member, m.listMember S = .ok member → ∀ v ∈ items, Follows m types member v) →
      Follows m types S (.list items)
  | map {S : SchemaRef} {entries : List (String × Value)} : (Entries.keys entries).Nodup →
      (∀ member, m.mapValue S = .ok member → ∀ e ∈ entries, Follows m types member e.2) →
      Follows m types S (.map entries)
  | missing {S : SchemaRef} : Follows m types S .missing
  | present {S : SchemaRef} {v : Value} : Follows m types S v → Follows m types S (.present v)
  | record {S : SchemaRef} {type : Nat} {fields : List Value} :
      (m.typeOf S).isStructureLike = true → m.table? S = m.table? (types.get type).schema →
      (∀ i v member, fields[i]? = some v → m.memberAt? S i = some member →
        v.writesNull = true → v = .missing) →
      (∀ i v member, fields[i]? = some v → m.memberAt? S i = some member →
        Follows m types member v) →
      Follows m types S (.record type fields)
  | variant {S : SchemaRef} {type i : Nat} {content : Value} :
      (m.typeOf S).isStructureLike = true → m.table? S = m.table? (types.get type).schema →
      content.writesNull = false →
      (∀ member, m.memberAt? S i = some member → Follows m types member content) →
      Follows m types S (.variant type i content)
  | constant {S : SchemaRef} {type i : Nat} :
      (constantValue (types.get type).body i).Suits m S → Follows m types S (.constant type i)
  | unknown {S : SchemaRef} {type : Nat} {content : Scalar} :
      (writesUnknown (types.get type).body = true → content.Suits m S) →
      Follows m types S (.unknown type content)

/-- The leaves that are written the same right away and by way of a document. -/
def Leaves.suited (m : Model) : Leaves where
  scalar S v := v.Suits m S
  document _ d := d.DistinctKeys

/-- A value that fits its type and schema, leaf by leaf, follows the schema. -/
theorem Value.Fits.follows {type : ValueType} {v : Value}
    (h : v.Fits m types (.suited m) type S) : v.Follows m types S := by
  induction h with
  | scalar hv => exact .scalar hv
  | document hd => exact .document hd
  | list hm _ _ ih =>
      refine .list fun member hm' v hv => ?_
      rw [hm] at hm'
      exact Except.ok.inj hm' ▸ ih v hv
  | map hm hkeys _ _ _ ih =>
      refine .map hkeys fun member hm' e he => ?_
      rw [hm] at hm'
      exact Except.ok.inj hm' ▸ ih e he
  | missing => exact .missing
  | present _ _ ih => exact .present ih
  | @record type S fields values _ ht hf hlen _ habsent _ ih =>
      refine .record (ShapeType.isStructureLike_iff.mpr (.inl hf)) ht
        (fun i v member hv hm hn => (habsent i v member hv hm hn).1) fun i v member hv hm => ?_
      obtain ⟨hi, -⟩ := List.getElem?_eq_some_iff.mp hv
      exact ih i fields[i] v member (List.getElem?_eq_getElem (hlen ▸ hi)) hv hm
  | variant _ ht hf _ hm hn _ ih =>
      refine .variant (ShapeType.isStructureLike_iff.mpr (.inr hf)) ht hn fun member hm' => ?_
      rw [hm] at hm'
      exact Option.some.inj hm' ▸ ih
  | constant _ hget _ hv => exact .constant (Value.constantValue_of_getElem? hget ▸ hv)
  | unknown _ _ _ hv => exact .unknown fun _ => hv

namespace Value

/-- What is not written as null calls for no null. -/
theorem isNull_calls (v : Value) (h : v.writesNull = false) (S : SchemaRef) :
    (v.calls m types S).isNull = false := by
  have hof {r : Result SchemaRef} {f : SchemaRef → Call} (hf : ∀ t, (f t).isNull = false) :
      (Call.ofResult (r.map f)).isNull = false := by
    cases r with
    | ok t => exact hf t
    | error e => rfl
  induction v using writesNull.induct with
  | case1 => simp [writesNull] at h
  | case2 d =>
      rw [calls]
      exact Document.isNull_calls h S
  | case3 v ih =>
      rw [calls]
      exact ih h
  | case4 v hmissing hdocument hpresent =>
      cases v with
      | missing => exact absurd rfl hmissing
      | document d => exact absurd rfl (hdocument d)
      | present v => exact absurd rfl (hpresent v)
      | list items =>
          rw [calls]
          exact hof fun _ => rfl
      | map entries =>
          rw [calls]
          exact hof fun _ => rfl
      | unknown type content =>
          rw [calls]
          split <;> rfl
      | _ =>
          rw [calls]
          rfl

/--
The fields of a record call for values under members in the order of the schema, unless there are
more fields than members.
-/
theorem fieldCalls_cases (m : Model) (types : Table) (S : SchemaRef) (index : Nat)
    (fields : List Value) :
    (∃ e, .fail e ∈ fieldCalls m types S index fields) ∨
      ∃ parts : List (SchemaRef × Value),
        (parts.map Prod.fst).Sublist ((m.members S).drop index) ∧
        fieldCalls m types S index fields = parts.map (fun p => p.2.calls m types p.1) ∧
        ∀ p ∈ parts, p.2.isMissing = false ∧
          ∃ i, fields[i]? = some p.2 ∧ m.memberAt? S (index + i) = some p.1 := by
  induction fields generalizing index with
  | nil => exact .inr ⟨[], List.nil_sublist _, by rw [fieldCalls]; rfl, by simp⟩
  | cons v fields ih =>
      cases hm : m.memberAt S index with
      | error e =>
          refine .inl ⟨e, ?_⟩
          rw [fieldCalls.eq_def]
          simp [hm]
      | ok member =>
          have hat := Model.memberAt_eq_ok_iff.mp hm
          have hdrop : (m.members S).drop index = member :: (m.members S).drop (index + 1) := by
            obtain ⟨hi, hget⟩ :=
              List.getElem?_eq_some_iff.mp ((m.getElem?_members S index).trans hat)
            rw [List.drop_eq_getElem_cons hi, hget]
          have hnext {p : SchemaRef × Value}
              (h : ∃ i, fields[i]? = some p.2 ∧ m.memberAt? S (index + 1 + i) = some p.1) :
              ∃ i, (v :: fields)[i]? = some p.2 ∧ m.memberAt? S (index + i) = some p.1 := by
            obtain ⟨i, hi, hp⟩ := h
            exact ⟨i + 1, hi, by rwa [Nat.add_assoc, Nat.add_comm 1] at hp⟩
          cases hv : v.isMissing with
          | true =>
              obtain rfl := eq_missing hv
              rw [fieldCalls_cons_missing m types hm, hdrop]
              rcases ih (index + 1) with hfail | ⟨parts, hsub, heq, hparts⟩
              · exact .inl hfail
              · exact .inr ⟨parts, hsub.cons member, heq, fun p hp =>
                  ⟨(hparts p hp).1, hnext (hparts p hp).2⟩⟩
          | false =>
              rw [fieldCalls_cons m types hm hv, hdrop]
              rcases ih (index + 1) with ⟨e, he⟩ | ⟨parts, hsub, heq, hparts⟩
              · exact .inl ⟨e, List.mem_cons_of_mem _ he⟩
              refine .inr ⟨(member, v) :: parts, hsub.cons_cons member, by rw [heq]; rfl, ?_⟩
              refine List.forall_mem_cons.mpr ⟨⟨hv, 0, rfl, hat⟩, fun p hp => ?_⟩
              exact ⟨(hparts p hp).1, hnext (hparts p hp).2⟩

/-- The fields of a record call for members of a schema that has those of the record's own. -/
theorem follows_fieldCalls {owner : SchemaRef} {fields : List Value}
    (hS : (m.typeOf S).isStructureLike = true) (ht : m.table? S = m.table? owner)
    (hnull : ∀ i v member, fields[i]? = some v → m.memberAt? S i = some member →
      v.writesNull = true → v = .missing)
    (h : ∀ i v member, fields[i]? = some v → m.memberAt? S i = some member →
      (v.calls m types member).Follows m member) :
    Call.Follows m S (.structure S (fieldCalls m types owner 0 fields)) := by
  rcases fieldCalls_cases m types owner 0 fields with ⟨e, he⟩ | ⟨parts, hsub, hcalls, hparts⟩
  · exact .opened he
  rw [List.drop_zero, ← Model.members_congr ht] at hsub
  have hfield : ∀ p ∈ parts, p.2.isMissing = false ∧
      ∃ i, fields[i]? = some p.2 ∧ m.memberAt? S i = some p.1 := by
    intro p hp
    obtain ⟨hv, i, hi, hmember⟩ := hparts p hp
    rw [Nat.zero_add, ← Model.memberAt?_congr ht] at hmember
    exact ⟨hv, i, hi, hmember⟩
  have hsnd : parts.map (fun p => p.2.calls m types p.1) =
      (parts.map fun p => (p.1, p.2.calls m types p.1)).map Prod.snd := by
    rw [List.map_map]
    rfl
  rw [hcalls, hsnd]
  refine .members hS (by rwa [List.map_map]) (List.forall_mem_map.mpr fun p hp => ?_)
    (List.forall_mem_map.mpr fun p hp => ?_)
  · obtain ⟨hv, i, hi, hmember⟩ := hfield p hp
    refine isNull_calls p.2 (Bool.eq_false_iff.mpr fun hw => ?_) p.1
    rw [hnull i p.2 p.1 hi hmember hw] at hv
    cases hv
  · obtain ⟨-, i, hi, hmember⟩ := hfield p hp
    exact h i p.2 p.1 hi hmember

/-- What a value calls for follows the schema that the value follows. -/
theorem follows_calls {v : Value} (h : v.Follows m types S) : (v.calls m types S).Follows m S := by
  induction h with
  | scalar hv =>
      rw [calls]
      exact .scalar hv
  | document hd =>
      rw [calls]
      exact Document.follows_calls hd _
  | @list S items _ ih =>
      rw [calls]
      cases hm : m.listMember S with
      | error e => exact .fail
      | ok member =>
          show Call.Follows m S (.list S (itemCalls m types items member))
          rw [itemCalls_eq_map]
          exact .list hm (List.forall_mem_map.mpr fun v hv => ih member hm v hv)
  | @map S entries hn _ ih =>
      rw [calls]
      cases hm : m.mapValue S with
      | error e => exact .fail
      | ok member =>
          let parts := entries.map fun e => (e.1, e.2.calls m types member)
          have hparts : entryCalls m types entries member =
              parts.map fun p => .entry p.1 [p.2] := by
            rw [entryCalls_eq_map, List.map_map]
            rfl
          have hkeys : (parts.map Prod.fst).Nodup := by
            simpa [parts, Entries.keys, Function.comp_def] using hn
          show Call.Follows m S (.map S (entryCalls m types entries member))
          rw [hparts]
          exact .map hm hkeys (List.forall_mem_map.mpr fun e he => ih member hm e he)
  | missing =>
      rw [calls]
      exact .null
  | present _ ih =>
      rw [calls]
      exact ih
  | record hS ht hnull _ ih =>
      rw [calls]
      exact follows_fieldCalls hS ht hnull ih
  | @variant S type i content hS ht hnull _ ih =>
      rw [calls]
      cases hm : m.memberAt (types.get type).schema i with
      | error e => exact .opened (List.mem_singleton.mpr rfl)
      | ok member =>
          have hat : m.memberAt? S i = some member :=
            (Model.memberAt?_congr ht i).trans (Model.memberAt_eq_ok_iff.mp hm)
          have hmember := Model.mem_members_of_memberAt? hat
          let parts := [(member, content.calls m types member)]
          show Call.Follows m S (.structure S (parts.map Prod.snd))
          exact .members hS (List.singleton_sublist.mpr hmember)
            (List.forall_mem_singleton.mpr (isNull_calls content hnull member))
            (List.forall_mem_singleton.mpr (ih member hat))
  | constant hv =>
      rw [calls]
      exact .scalar hv
  | @unknown S type content hv =>
      rw [calls]
      split
      · rename_i hw
        exact .scalar (hv hw)
      · exact .opened (List.mem_singleton.mpr rfl)

/--
A value that follows a schema is written as the same JSON right away and by way of a document, which
is written under the schema that it carries; and if one way fails, so does the other.
-/
theorem written_through_document {v : Value} {c : Codec} (hS : (m.typeOf S).isStructureLike = true)
    (hv : v.Follows m types S) (hn : m.DistinctNames S) (hk : m.DistinctKeys c S) (j : Json) :
    c.toJson m (v.calls m types S) = .ok j ↔
      ∃ d, v.toDocument m types S = .ok d ∧ c.toJson m (d.calls m d.schema) = .ok j := by
  have hfollows := v.follows_calls hv
  have hcall : (v.calls m types S).isValue = true := (calls_sound v S).isValue
  -- what is written is the value that the call stands for
  have hwrite {α : Type} {sink : Sink α} {call : Call} {a : α} (hc : call.isValue = true) :
      Writer.write m sink call = .ok a ↔ Writer.value? m sink call = some a := by
    rw [Writer.write_eq_denote hc, ← Result.toOption_eq_some, Result.toOption_map, Writer.value?]
  have hagrees : Writer.Agrees m c S (v.calls m types S) :=
    Writer.agrees_of_follows hfollows hn hk
  have hschema {d : Document}
      (hd : Writer.value? m (Document.sink m) (v.calls m types S) = some d) : d.schema = S := by
    refine (Writer.captured_of_value? hfollows hd).2 fun hf => ?_
    rcases ShapeType.isStructureLike_iff.mp hS with hs | hs <;> rw [hf] at hs <;> cases hs
  calc c.toJson m (v.calls m types S) = .ok j
      ↔ Writer.value? m (c.scope m).sink (v.calls m types S) = some j := hwrite hcall
    _ ↔ ∃ d, Writer.value? m (Document.sink m) (v.calls m types S) = some d ∧
          Writer.value? m (c.scope m).sink (d.calls m S) = some j := by
        rw [hagrees, Option.bind_eq_some_iff]
    _ ↔ ∃ d, v.toDocument m types S = .ok d ∧ c.toJson m (d.calls m d.schema) = .ok j := by
        refine exists_congr fun d => ?_
        constructor
        · rintro ⟨hd, hj⟩
          rw [hschema hd]
          exact ⟨(hwrite hcall).mpr hd, (hwrite (Document.calls_sound d S).isValue).mpr hj⟩
        · rintro ⟨hd, hj⟩
          have hd := (hwrite hcall).mp hd
          rw [hschema hd] at hj
          exact ⟨hd, (hwrite (Document.calls_sound d S).isValue).mp hj⟩

end Value

end Typed

/-- Where a codec's keys are unambiguous, they are distinct. -/
theorem Codec.Unambiguous.distinctKeys {c : Codec} (h : c.Unambiguous m S) :
    m.DistinctKeys c S := by
  intro t ht hlike
  cases htable : m.table? t with
  | none =>
      rw [Model.declarations, htable]
      exact List.nodup_nil
  | some key =>
      rw [Model.typeOf_of_table? htable] at hlike
      rw [Model.declarations_of_table? htable]
      exact (h t ht key htable hlike).1

namespace Gallery

open Typed

/-- Nodes, which hold nodes, are written the same by way of a document. -/
theorem nodes_written_through_document :
    ∃ d, twoNodes.toDocument model types (schema model "t#Node") = .ok d ∧
      ({} : Codec).toJson model (d.calls model d.schema) = .ok (.object
        [("value", .number (.ofInt 1)), ("next", .object [("value", .number (.ofInt 2))])]) := by
  have hnames : model.DistinctNames (schema model "t#Node") := (allLaidOut.laidOut _).distinctNames
  have hkeys : ({} : Codec).Unambiguous model (schema model "t#Node") :=
    Codec.unambiguous_of_shapes (by decide) _
  have hnumber (n : Sized .integer) :
      (Scalar.integer .integer n).Suits model (.member (.declared 19) 0) :=
    Scalar.suits_of_form
      (show (model.typeOf (.member (.declared 19) 0)).form = .scalar (.integer .integer) by
        decide)
  have hnodes : twoNodes.Follows model types (schema model "t#Node") :=
    (nodes_fit hnumber).follows
  exact (Value.written_through_document (by decide) hnodes hnames hkeys.distinctKeys _).mp
    rfl

/-- Types that do not quite fit: a long number for a byte, and a variant that may be missing. -/
def looseTypes : Table :=
  { declarations := #[
      { name := "LooseScalars", schema := schema model "t#Scalars",
        body := .record [⟨"flag", .boolean⟩, ⟨"b", .integer .long⟩] },
      { name := "LooseChoice", schema := schema model "t#Choice",
        body := .union [⟨"Text", optional string⟩] none }] }

/-- A number that is too large for the member that it is in. -/
def looseScalars : Value :=
  .record 0 [.scalar (.boolean true), .scalar (.integer .long ⟨1000, rfl⟩)]

/-- A union whose one member is missing. -/
def looseChoice : Value :=
  .variant 1 0 .missing

/--
What does not fit its member is written right away, but not once it is in a document. Of two members
with one name a document writes the last for both, and it writes times as it does without a format.
-/
theorem loose_not_written_through_document :
    (({} : Codec).toJson model (looseScalars.calls model looseTypes (schema model "t#Scalars")) =
        .ok (.object [("flag", .boolean true), ("b", .number (.ofInt 1000))]) ∧
      ∃ d e, looseScalars.toDocument model looseTypes (schema model "t#Scalars") = .ok d ∧
        ({} : Codec).toJson model (d.calls model d.schema) = .error e) ∧
    (({} : Codec).toJson model (looseChoice.calls model looseTypes (schema model "t#Choice")) =
        .ok (.object [("text", .null)]) ∧
      ∃ d e, looseChoice.toDocument model looseTypes (schema model "t#Choice") = .ok d ∧
        ({} : Codec).toJson model (d.calls model d.schema) = .error e) ∧
    unchecked.DistinctKeys {} (schema unchecked "x#Twins") ∧
    (({} : Codec).toJson unchecked
        (bothTwins.calls unchecked uncheckedTypes (schema unchecked "x#Twins")) =
          .ok (.object [("x", .number (.ofInt 1)), ("y", .number (.ofInt 2))]) ∧
      ∃ d, bothTwins.toDocument unchecked uncheckedTypes (schema unchecked "x#Twins") = .ok d ∧
        ({} : Codec).toJson unchecked (d.calls unchecked d.schema) =
          .ok (.object [("x", .number (.ofInt 2)), ("y", .number (.ofInt 2))])) ∧
    ({} : Codec).toJson unchecked
        (stamp.calls unchecked uncheckedTypes (schema unchecked "x#Stamp")) =
          .ok (.object [("at", .string "1970-01-01T00:00:05Z")]) ∧
      ∃ d, stamp.toDocument unchecked uncheckedTypes (schema unchecked "x#Stamp") = .ok d ∧
        ({} : Codec).toJson unchecked (d.calls unchecked d.schema) =
          .ok (.object [("at", .number (.ofInt 5))]) := by
  have hkeys : ({} : Codec).Unambiguous unchecked (schema unchecked "x#Twins") :=
    Codec.unambiguous_of_shapes (by decide) _
  exact ⟨⟨rfl, _, _, rfl, rfl⟩, ⟨rfl, _, _, rfl, rfl⟩, hkeys.distinctKeys, ⟨rfl, _, rfl, rfl⟩,
    rfl, _, rfl, rfl⟩

end Gallery

end ShapeCodec
