import ShapeCodec.Codec
import ShapeCodec.Proofs.CallValues

/-!
# Writing by way of a document

Calls can be run on JSON right away, or on a document first, whose own calls are then run on JSON.
Calls that follow a schema come to the same JSON both ways, or fail both ways: a document keeps the
members in the order they were written in, which is that of the schema, and each part is written
again under the schema that it was written under.
-/

namespace ShapeCodec

/-! ### Calls that follow a schema -/

/-- A leaf is written the same after it has been kept under a schema and asked for as its type. -/
def Scalar.Suits (m : Model) (S : SchemaRef) (v : Scalar) : Prop :=
  match (m.typeOf S).form with
  | .scalar type =>
    ∃ w, v.as type = .ok w ∧ ∀ format, Json.ofScalar format w = Json.ofScalar format v
  | .document => v.type = .timestamp → m.timestampFormat? S = none
  | _ => False

theorem Scalar.suits_of_form {m : Model} {S : SchemaRef} {v : Scalar}
    (h : (m.typeOf S).form = .scalar v.type) : v.Suits m S := by
  rw [Suits, h]
  exact ⟨v, v.as_type, fun _ => rfl⟩

namespace Call

def isNull : Call → Bool
  | .null _ => true
  | _ => false

/--
A call writes what a schema describes, or fails: elements, values and members under the schemas that
are there for them, the members in the order of the schema and none of them as null.
-/
inductive Follows (m : Model) : SchemaRef → Call → Prop
  | null {S : SchemaRef} : Follows m S (.null S)
  | fail {S : SchemaRef} {e : Error} : Follows m S (.fail e)
  | scalar {S : SchemaRef} {v : Scalar} : v.Suits m S → Follows m S (.scalar S v)
  | document {S : SchemaRef} {d : Document} :
      (m.typeOf S).form = .document → d.isNull = false → Follows m S (.document S d)
  | list {S member : SchemaRef} {elements : List Call} : m.listMember S = .ok member →
      (∀ call ∈ elements, Follows m member call) → Follows m S (.list S elements)
  | map {S member : SchemaRef} {parts : List (String × Call)} : m.mapValue S = .ok member →
      (parts.map Prod.fst).Nodup → (∀ p ∈ parts, Follows m member p.2) →
      Follows m S (.map S (parts.map fun p => .entry p.1 [p.2]))
  | members {S : SchemaRef} {parts : List (SchemaRef × Call)} :
      (m.typeOf S).isStructureLike = true → (parts.map Prod.fst).Sublist (m.members S) →
      (∀ p ∈ parts, p.2.isNull = false) → (∀ p ∈ parts, Follows m p.1 p.2) →
      Follows m S (.structure S (parts.map Prod.snd))
  /-- A structure of which some member does not come about. -/
  | opened {S : SchemaRef} {calls : List Call} {e : Error} :
      .fail e ∈ calls → Follows m S (.structure S calls)

theorem Follows.schema? {m : Model} {S s : SchemaRef} {call : Call} (h : Follows m S call)
    (hs : call.schema? = some s) : s = S := by
  cases h with
  | fail => cases hs
  | _ => exact (Option.some.inj hs).symm

end Call

/-! ### Members and their keys -/

namespace Model

variable {m : Model} {S : SchemaRef}

/-- Behind the members of a schema are its declarations, in order. -/
theorem map_declarationOf? (m : Model) (S : SchemaRef) :
    (m.members S).map m.declarationOf? = (m.declarations S).map some := by
  rw [members, declarations]
  cases m.table? S with
  | none => rfl
  | some key =>
      refine List.ext_getElem? fun i => ?_
      by_cases hi : i < (m.shape key).memberList.length <;>
        simp [declarationOf?, declaration?, hi]

/-- Members have distinct keys if the keys of their declarations are distinct. -/
theorem nodup_keys_of_declarations {f : SchemaRef → Option String} {key : Member → String}
    (hf : ∀ member d, m.declarationOf? member = some d → f member = some (key d))
    (hn : ((m.declarations S).map key).Nodup) :
    ((m.members S).map fun member => (f member).getD "").Nodup := by
  have hkeys : (m.members S).map (fun member => (f member).getD "") =
      (m.declarations S).map key := by
    have hdecls := congrArg (List.map fun d? => (d?.map key).getD "") (m.map_declarationOf? S)
    rw [List.map_map, List.map_map] at hdecls
    refine Eq.trans (List.map_congr_left fun member hm => ?_) hdecls
    obtain ⟨d, -, hd⟩ := declarationOf?_of_mem hm
    simp [hd, hf member d hd]
  rwa [hkeys]

/-- No two members of a structure or union that a schema reaches have one key in a codec. -/
def DistinctKeys (m : Model) (c : Codec) : SchemaRef → Prop :=
  m.Everywhere fun t => (m.typeOf t).isStructureLike = true →
    ((m.declarations t).map (Member.key c.wireNames)).Nodup

end Model

/-- The key of a member in what a sink writes. -/
def Sink.keyOf {α : Type} (sink : Sink α) (member : SchemaRef) : String :=
  (sink.memberKey? member).getD ""

/-- Members have keys, and no two members of a schema have the same. -/
structure Sink.Keys {α : Type} (sink : Sink α) (m : Model) (S : SchemaRef) : Prop where
  memberKey? : ∀ member ∈ m.members S, sink.memberKey? member = some (sink.keyOf member)
  nodup : ((m.members S).map sink.keyOf).Nodup

theorem Sink.Keys.nodup_of_sublist {α β : Type} {sink : Sink α} {m : Model} {S : SchemaRef}
    (h : sink.Keys m S) {parts : List (SchemaRef × β)}
    (hsub : (parts.map Prod.fst).Sublist (m.members S)) :
    (parts.map fun p => sink.keyOf p.1).Nodup := by
  have hnodup := (hsub.map sink.keyOf).nodup h.nodup
  simpa [Function.comp_def] using hnodup

theorem Sink.keys_of_declarations {α : Type} {sink : Sink α} {m : Model} {S : SchemaRef}
    (key : Member → String)
    (hf : ∀ member d, m.declarationOf? member = some d → sink.memberKey? member = some (key d))
    (hn : ((m.declarations S).map key).Nodup) : sink.Keys m S where
  memberKey? := by
    intro member hm
    obtain ⟨d, -, hd⟩ := Model.declarationOf?_of_mem hm
    rw [Sink.keyOf, hf member d hd, Option.getD_some]
  nodup := Model.nodup_keys_of_declarations hf hn

theorem Document.keys_sink {m : Model} {S : SchemaRef} (h : m.DistinctNames S)
    (hS : (m.typeOf S).isStructureLike = true) : (Document.sink m).Keys m S :=
  Sink.keys_of_declarations Member.name
    (fun _ _ hd => congrArg (Option.map Member.name) hd) (h.here hS)

theorem Codec.keys_sink {c : Codec} {m : Model} {S : SchemaRef} (h : m.DistinctKeys c S)
    (hS : (m.typeOf S).isStructureLike = true) : (c.scope m).sink.Keys m S :=
  Sink.keys_of_declarations (Member.key c.wireNames)
    (fun _ _ hd => Model.memberKey?_of_declarationOf? hd) (h.here hS)

/-- The values of members of a schema, in its order, as they stand in a document. -/
theorem Document.memberParts_of_sublist {m : Model} {S : SchemaRef}
    (hk : (Document.sink m).Keys m S) {parts : List (SchemaRef × Document)}
    (hsub : (parts.map Prod.fst).Sublist (m.members S)) (hnull : ∀ p ∈ parts, p.2.isNull = false) :
    memberParts m S (parts.map fun p => ((Document.sink m).keyOf p.1, p.2)) =
      parts.map fun p => (p.1, (Document.sink m).keyOf p.1, p.2) := by
  have hn : (Entries.keys (parts.map fun p => ((Document.sink m).keyOf p.1, p.2))).Nodup := by
    simpa [Entries.keys, Function.comp_def] using hk.nodup_of_sublist hsub
  have hname : ∀ member ∈ m.members S,
      m.memberName? member = some ((Document.sink m).keyOf member) := hk.memberKey?
  refine filterMap_of_sublist (m.nodup_members S) hsub (fun p hp => ?_) fun member hm hnot => ?_
  · have hfind := Entries.find?_of_mem hn
      (List.mem_map_of_mem (f := fun p => ((Document.sink m).keyOf p.1, p.2)) hp)
    rw [hname p.1 (hsub.subset (List.mem_map_of_mem hp)), Option.bind_some, hfind]
    simp [hnull p hp]
  · have hnone : Entries.find? ((Document.sink m).keyOf member)
        (parts.map fun p => ((Document.sink m).keyOf p.1, p.2)) = none := by
      rw [Entries.find?_eq_none_iff]
      intro hkey
      obtain ⟨e, he, heq⟩ := List.mem_map.mp hkey
      obtain ⟨p, hp, rfl⟩ := List.mem_map.mp he
      -- a key belongs to one member
      have hmember := List.inj_on_of_nodup_map hk.nodup
        (hsub.subset (List.mem_map_of_mem hp)) hm heq
      exact hnot (hmember ▸ List.mem_map_of_mem hp)
    rw [hname member hm, Option.bind_some, hnone]
    rfl

namespace Writer

/-! ### Both ways -/

variable {m : Model} {c : Codec} {S : SchemaRef}

/-- A call writes the same JSON right away and by way of a document, or fails both ways. -/
def Agrees (m : Model) (c : Codec) (S : SchemaRef) (call : Call) : Prop :=
  value? m (c.scope m).sink call =
    (value? m (Document.sink m) call).bind fun d => value? m (c.scope m).sink (d.calls m S)

theorem structureOf_of_nodup {α : Type} {sink : Sink α} {pairs : List (String × α)}
    (hn : (Entries.keys pairs).Nodup) : structureOf m sink S pairs =
      if m.typeOf S = .union ∧ pairs.length ≠ 1 then none else some (sink.map S pairs) := by
  rw [structureOf, Entries.ofList_of_nodup hn]

/-- What is kept under a schema carries it, and is null only if that was written. -/
theorem captured_of_value? {call : Call} {d : Document} (h : Call.Follows m S call)
    (hd : value? m (Document.sink m) call = some d) :
    d.isNull = call.isNull ∧ ((m.typeOf S).form ≠ .document → d.schema = S) := by
  cases h with
  | null =>
      rw [value?_null] at hd
      exact Option.some.inj hd ▸ ⟨rfl, fun _ => rfl⟩
  | fail => simp [value?_fail] at hd
  | scalar =>
      rw [value?_scalar] at hd
      exact Option.some.inj hd ▸ ⟨rfl, fun _ => rfl⟩
  | document hf hn =>
      rw [value?_document] at hd
      exact Option.some.inj hd ▸ ⟨hn, fun hne => absurd hf hne⟩
  | list =>
      rw [value?_list] at hd
      obtain ⟨_, -, rfl⟩ := Option.map_eq_some_iff.mp hd
      exact ⟨rfl, fun _ => rfl⟩
  | map =>
      rw [value?_map] at hd
      obtain ⟨_, -, rfl⟩ := Option.map_eq_some_iff.mp hd
      exact ⟨rfl, fun _ => rfl⟩
  | members | opened =>
      obtain ⟨⟨s, d'⟩, hdenote, heq⟩ := Option.map_eq_some_iff.mp hd
      obtain ⟨rfl, _, -, rfl⟩ := of_denote_structure (Result.toOption_eq_some.mp hdenote)
      exact heq ▸ ⟨rfl, fun _ => rfl⟩

/-- Parts that are kept for later keep what they are parts of. -/
theorem map_fst_of_captured {κ : Type} {parts : List (κ × Call)} {ds : List (κ × Document)}
    (h : (parts.mapM fun p => (value? m (Document.sink m) p.2).map fun d => (p.1, d)) = some ds) :
    ds.map Prod.fst = parts.map Prod.fst := by
  refine map_of_mapM_option h fun p q hq => ?_
  obtain ⟨d, -, rfl⟩ := Option.map_eq_some_iff.mp hq
  rfl

/-- Parts that are written right away are those kept for later, written then. -/
theorem mapM_value?_of_agrees {κ β : Type} {parts : List (κ × Call)} (schema : κ → SchemaRef)
    (f : κ → Json → β) (h : ∀ p ∈ parts, Agrees m c (schema p.1) p.2) :
    (parts.mapM fun p => (value? m (c.scope m).sink p.2).map (f p.1)) =
      (parts.mapM fun p => (value? m (Document.sink m) p.2).map fun d => (p.1, d)).bind fun ds =>
        ds.mapM fun q => (value? m (c.scope m).sink (q.2.calls m (schema q.1))).map (f q.1) := by
  rw [← mapM_option_bind]
  refine mapM_option_congr fun p hp => ?_
  rw [h p hp]
  cases value? m (Document.sink m) p.2 <;> rfl

/-- Members of a schema that stand in a document are written from there as they are one by one. -/
theorem structureOf_captured {ds : List (SchemaRef × Document)}
    (hS : (m.typeOf S).isStructureLike = true) (hD : (Document.sink m).Keys m S)
    (hJ : (c.scope m).sink.Keys m S) (hsub : (ds.map Prod.fst).Sublist (m.members S))
    (hnull : ∀ q ∈ ds, q.2.isNull = false) :
    (ds.mapM fun q => (value? m (c.scope m).sink (q.2.calls m q.1)).map fun j =>
        ((c.scope m).sink.keyOf q.1, j)).bind (structureOf m (c.scope m).sink S) =
      (structureOf m (Document.sink m) S
        (ds.map fun q => ((Document.sink m).keyOf q.1, q.2))).bind fun d =>
          value? m (c.scope m).sink (d.calls m S) := by
  have hmem : ∀ q ∈ ds, q.1 ∈ m.members S := fun q hq => hsub.subset (List.mem_map_of_mem hq)
  have hentries : (Entries.keys (ds.map fun q => ((Document.sink m).keyOf q.1, q.2))).Nodup := by
    simpa [Entries.keys, Function.comp_def] using hD.nodup_of_sublist hsub
  rw [structureOf_of_nodup hentries, List.length_map]
  by_cases harity : m.typeOf S = .union ∧ ds.length ≠ 1
  · -- members are counted in the document and in JSON alike
    rw [if_pos harity]
    cases hjs : ds.mapM fun q => (value? m (c.scope m).sink (q.2.calls m q.1)).map fun j =>
        ((c.scope m).sink.keyOf q.1, j) with
    | none => rfl
    | some js =>
        have hkeys : js.map Prod.fst = ds.map fun q => (c.scope m).sink.keyOf q.1 := by
          refine map_of_mapM_option hjs fun q r hr => ?_
          obtain ⟨j, -, rfl⟩ := Option.map_eq_some_iff.mp hr
          rfl
        have hnodup : (Entries.keys js).Nodup := by
          rw [Entries.keys, hkeys]
          exact hJ.nodup_of_sublist hsub
        have hlength : js.length = ds.length := by simpa using congrArg List.length hkeys
        rw [Option.bind_some, structureOf_of_nodup hnodup, hlength, if_pos harity]
        rfl
  · rw [if_neg harity, Option.bind_some]
    have hcalls : Document.calls m ((Document.sink m).map S
          (ds.map fun p => ((Document.sink m).keyOf p.1, p.2))) S =
        .structure S ((ds.map fun q => (q.1, q.2.calls m q.1)).map Prod.snd) := by
      rw [List.map_map]
      refine (Document.calls_members (ShapeType.isStructureLike_iff.mp hS)).trans ?_
      rw [Document.memberParts_of_sublist hD hsub hnull, List.map_map]
      rfl
    rw [hcalls, value?_structure
      (List.forall_mem_map.mpr fun q _ s hs => Document.schema_of_calls hs)
      (List.forall_mem_map.mpr fun q hq => hJ.memberKey? q.1 (hmem q hq)), List.mapM_map]
    rfl

theorem agrees_members {parts : List (SchemaRef × Call)}
    (hS : (m.typeOf S).isStructureLike = true) (hn : m.DistinctNames S) (hk : m.DistinctKeys c S)
    (hsub : (parts.map Prod.fst).Sublist (m.members S)) (hnull : ∀ p ∈ parts, p.2.isNull = false)
    (hf : ∀ p ∈ parts, Call.Follows m p.1 p.2) (ih : ∀ p ∈ parts, Agrees m c p.1 p.2) :
    Agrees m c S (.structure S (parts.map Prod.snd)) := by
  have hD := Document.keys_sink hn hS
  have hJ := Codec.keys_sink hk hS
  have hmem : ∀ p ∈ parts, p.1 ∈ m.members S := fun p hp => hsub.subset (List.mem_map_of_mem hp)
  have hschema : ∀ p ∈ parts, ∀ s, p.2.schema? = some s → s = p.1 := fun p hp s hs =>
    (hf p hp).schema? hs
  have hcaptured : value? m (Document.sink m) (.structure S (parts.map Prod.snd)) =
      ((parts.mapM fun p => (value? m (Document.sink m) p.2).map fun d => (p.1, d)).map fun ds =>
        ds.map fun p => ((Document.sink m).keyOf p.1, p.2)).bind
          (structureOf m (Document.sink m) S) := by
    rw [value?_structure hschema fun p hp => hD.memberKey? p.1 (hmem p hp), ← mapM_option_map]
    simp only [Option.map_map]
    rfl
  rw [Agrees, value?_structure hschema fun p hp => hJ.memberKey? p.1 (hmem p hp), hcaptured,
    mapM_value?_of_agrees id (fun member j => ((c.scope m).sink.keyOf member, j)) ih]
  cases hds : parts.mapM fun p => (value? m (Document.sink m) p.2).map fun d => (p.1, d) with
  | none => rfl
  | some ds =>
      have hdnull : ∀ q ∈ ds, q.2.isNull = false := by
        intro q hq
        obtain ⟨p, hp, hpq⟩ := mem_of_mapM_option hds hq
        obtain ⟨d, hd, rfl⟩ := Option.map_eq_some_iff.mp hpq
        exact (captured_of_value? (hf p hp) hd).1.trans (hnull p hp)
      exact structureOf_captured hS hD hJ (map_fst_of_captured hds ▸ hsub) hdnull

theorem agrees_list {member : SchemaRef} {elements : List Call}
    (hm : m.listMember S = .ok member) (ih : ∀ call ∈ elements, Agrees m c member call) :
    Agrees m c S (.list S elements) := by
  have hparts : elements.mapM (value? m (c.scope m).sink) =
      (elements.mapM (value? m (Document.sink m))).bind fun ds =>
        ds.mapM fun d => value? m (c.scope m).sink (d.calls m member) := by
    rw [← mapM_option_bind]
    exact mapM_option_congr ih
  rw [Agrees, value?_list, value?_list, hparts]
  cases elements.mapM (value? m (Document.sink m)) with
  | none => rfl
  | some ds =>
      show _ = value? m (c.scope m).sink (Document.calls m (.list { schema := S } ds) S)
      rw [Document.calls_list hm, value?_list, List.mapM_map]
      rfl

theorem agrees_map {member : SchemaRef} {parts : List (String × Call)}
    (hm : m.mapValue S = .ok member) (hkeys : (parts.map Prod.fst).Nodup)
    (ih : ∀ p ∈ parts, Agrees m c member p.2) :
    Agrees m c S (.map S (parts.map fun p => .entry p.1 [p.2])) := by
  rw [Agrees, value?_map, value?_map, mapM_value?_of_agrees (fun _ => member) Prod.mk ih]
  cases hds : parts.mapM fun p => (value? m (Document.sink m) p.2).map fun d => (p.1, d) with
  | none => rfl
  | some ds =>
      have hentries : Entries.ofList ds = ds :=
        Entries.ofList_of_nodup (by rw [Entries.keys, map_fst_of_captured hds]; exact hkeys)
      have hcalls : Document.calls m (.map { schema := S } ds) S = .map S
          ((ds.map fun q => (q.1, q.2.calls m member)).map fun p => .entry p.1 [p.2]) := by
        rw [Document.calls_map hm, List.map_map]
        rfl
      rw [Option.map_some, Option.bind_some, Option.bind_some, hentries]
      show _ = value? m (c.scope m).sink (Document.calls m (.map { schema := S } ds) S)
      rw [hcalls, value?_map, List.mapM_map]
      rfl

theorem value?_opened {α : Type} {sink : Sink α} {calls : List Call} {e : Error}
    (h : .fail e ∈ calls) : value? m sink (.structure S calls) = none := by
  have hfails : ∃ e, denoteMembers m sink calls = .error e := by
    induction calls with
    | nil => cases h
    | cons call calls ih =>
        rw [denoteMembers]
        cases hd : denote m sink call with
        | error e => exact ⟨e, rfl⟩
        | ok p =>
            have hrest : .fail e ∈ calls := by
              refine (List.mem_cons.mp h).resolve_left fun heq => ?_
              rw [← heq, denote] at hd
              cases hd
            obtain ⟨e', hrest⟩ := ih hrest
            rw [hrest]
            cases hk : memberKey m sink p.1 with
            | error e => exact ⟨e, by simp [hk]⟩
            | ok key => exact ⟨e', by simp [hk]⟩
  obtain ⟨e, he⟩ := hfails
  rw [value?, denote, he]
  rfl

theorem agrees_scalar {v : Scalar} (h : v.Suits m S) : Agrees m c S (.scalar S v) := by
  unfold Scalar.Suits at h
  rw [Agrees, value?_scalar, value?_scalar]
  split at h
  · rename_i type hf
    obtain ⟨w, hw, hsame⟩ := h
    have hcalls : Document.calls m (.leaf { schema := S } v) S = .scalar S w := by
      rw [Document.calls, Tree.walk_leaf]
      show Document.scalarCalls m { schema := S } v S = _
      simp only [Document.scalarCalls, hf, hw]
      rfl
    show _ = value? m (c.scope m).sink (Document.calls m (.leaf { schema := S } v) S)
    rw [hcalls, value?_scalar]
    exact congrArg some (hsame _).symm
  · rename_i hf
    have hcalls : Document.calls m (.leaf { schema := S } v) S =
        .document S (.leaf { schema := S } v) := Document.calls_document hf rfl
    show _ = value? m (c.scope m).sink (Document.calls m (.leaf { schema := S } v) S)
    rw [hcalls, value?_document]
    have htype := ShapeType.form_eq_document.mp hf
    have hdocument : (c.scope m).document (.leaf { schema := S } v) =
        .ok (Json.ofScalar c.config.timestampFormat v) := by
      rw [Json.Scope.document, Tree.height, Tree.walk_leaf]
      exact if_pos htype
    have hformat : Json.ofScalar (c.config.timestampFormatFor m S) v =
        Json.ofScalar c.config.timestampFormat v := by
      cases v with
      | timestamp t => rw [Config.timestampFormatFor, h rfl, Option.getD_none]
      | _ => rfl
    show some (Json.ofScalar (c.config.timestampFormatFor m S) v) =
      ((c.scope m).document (.leaf { schema := S } v)).toOption
    rw [hdocument, hformat]
    rfl
  · exact h.elim

/-- Calls that follow a schema agree, under schemas whose members have distinct names and keys. -/
theorem agrees_of_follows {call : Call} (h : Call.Follows m S call) (hn : m.DistinctNames S)
    (hk : m.DistinctKeys c S) : Agrees m c S call := by
  induction h with
  | @null S =>
      rw [Agrees, value?_null, value?_null, Option.bind_some]
      show _ = value? m (c.scope m).sink (Document.calls m (.null { schema := S }) S)
      rw [Document.calls_null, value?_null]
  | fail => rw [Agrees, value?_fail, value?_fail]; rfl
  | scalar hv => exact agrees_scalar hv
  | @document S d hf hnull =>
      have hcaptured : value? m (Document.sink m) (.document S d) = some d := value?_document d
      rw [Agrees, hcaptured, Option.bind_some, Document.calls_document hf hnull]
  | list hm _ ih =>
      have hmember := Model.mem_of_listMember hm
      exact agrees_list hm fun call hc => ih call hc (hn.member hmember) (hk.member hmember)
  | map hm hnodup _ ih =>
      have hmember := Model.mem_of_mapValue hm
      exact agrees_map hm hnodup fun p hp => ih p hp (hn.member hmember) (hk.member hmember)
  | members hS hsub hnull hf ih =>
      exact agrees_members hS hn hk hsub hnull hf fun p hp =>
        have hmember := hsub.subset (List.mem_map_of_mem hp)
        ih p hp (hn.member hmember) (hk.member hmember)
  | opened he => rw [Agrees, value?_opened he, value?_opened he]; rfl

end Writer
end ShapeCodec
