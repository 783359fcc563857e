import ShapeCodec.Proofs.Rereading
import ShapeCodec.Proofs.ValueDocuments
import ShapeCodec.Proofs.ValueRoundTrip

/-!
# Typed values by way of a document that was read

A typed value can be read from JSON right away, or out of the document that the JSON is read as. For
types that match the schema both come to the same.
-/

namespace ShapeCodec.Typed

open Reader (Reads presentMembers_read kept_items_read kept_entries_read)

variable {m : Model} {types : Table} {standin : Standin} {depth : Nat} {S : SchemaRef}

/-! ### Parts that are read alike -/

section
variable {Label Leaf Label' Leaf' : Type} {f : Tree Label Leaf → ValueReader}
  {g : Tree Label' Leaf' → ValueReader} {member : SchemaRef} {type : ValueType}

theorem readItems_alike {parts : List (Tree Label Leaf × Tree Label' Leaf')}
    (h : ∀ p ∈ parts, Result.Alike (f p.1 type depth member) (g p.2 type depth member)) :
    Result.Alike
      (readItems type depth member
        ((parts.map fun p => .ok p.1).map (Except.map fun u => u.visit f)))
      (readItems type depth member
        ((parts.map fun p => .ok p.2).map (Except.map fun u => u.visit g))) := by
  induction parts with
  | nil => rfl
  | cons p parts ih =>
      obtain ⟨hp, h⟩ := List.forall_mem_cons.mp h
      simp only [List.map_cons, readItems, Except.map, Result.ok_bind, Tree.visit_result]
      exact hp.bind fun v => (ih h).bind fun vs => rfl

theorem readEntries_alike {sorted : Bool} {read : Entries Value}
    {parts : List (String × Tree Label Leaf × Tree Label' Leaf')}
    (h : ∀ p ∈ parts, Result.Alike (f p.2.1 type depth member) (g p.2.2 type depth member)) :
    Result.Alike
      (readEntries sorted type depth member read
        ((parts.map fun p => .ok (p.1, p.2.1)).map (Except.map fun e => (e.1, e.2.visit f))))
      (readEntries sorted type depth member read
        ((parts.map fun p => .ok (p.1, p.2.2)).map (Except.map fun e => (e.1, e.2.visit g)))) := by
  induction parts generalizing read with
  | nil => rfl
  | cons p parts ih =>
      obtain ⟨hp, h⟩ := List.forall_mem_cons.mp h
      simp only [List.map_cons, readEntries, Except.map, Result.ok_bind, Tree.visit_result]
      exact hp.bind fun v => ih h

theorem readSlots_alike {config config' : Config} {fields : List (Field ValueType)}
    {parts : List (SchemaRef × Tree Label Leaf × Tree Label' Leaf')}
    (h : ∀ p ∈ parts, ∀ i field, m.expectMemberIndex p.1 = .ok i → fields[i]? = some field →
      Result.Alike (f p.2.1 field.type.present depth p.1) (g p.2.2 field.type.present depth p.1)) :
    Result.Alike
      (readSlots { model := m, config, types } fields depth
        (parts.map fun p => (p.1, p.2.1.visit f)))
      (readSlots { model := m, config := config', types } fields depth
        (parts.map fun p => (p.1, p.2.2.visit g))) := by
  induction parts with
  | nil => rfl
  | cons p parts ih =>
      obtain ⟨hp, h⟩ := List.forall_mem_cons.mp h
      simp only [List.map_cons, readSlots]
      cases hi : m.expectMemberIndex p.1 with
      | error e => rfl
      | ok i =>
          simp only [Result.ok_bind]
          cases hfield : fields[i]? with
          | none => exact ih h
          | some field => exact (hp i field hi hfield).bind fun v => (ih h).bind fun slots => rfl

end

/-! ### One value -/

section
variable (m types standin) (c : Codec) (config : Config)

/-- A value of a type is read the same from JSON and from a document, or from neither. -/
def ReadsAlike (j : Json) (d : Document) (type : ValueType) (depth : Nat) (S : SchemaRef) : Prop :=
  Result.Alike
    (valueWith (c.source m) { model := m, config := c.config, types } standin j type depth S)
    (valueWith (Document.source m) { model := m, config, types } standin d type depth S)

end

variable {c : Codec} {config : Config} {j : Json} {d : Document} {type : ValueType}

/-- It is enough to look at types that are neither documents nor options. -/
theorem readsAlike_of_plain
    (hj : Reads (c.source m) { model := m, config := c.config } depth S j d)
    (hd : Reads (Document.source m) { model := m, config } depth S d d)
    (h : ∀ type, type.Plain → Matches m types type S →
      ReadsAlike m types standin c config j d type depth S)
    (ht : Matches m types type S) : ReadsAlike m types standin c config j d type depth S := by
  have hnull : d.isNull = j.isNull := hj.isNull (Json.source_lawful m c.config c.wireNames)
  induction type with
  | document =>
      rw [ReadsAlike, valueWith_document, valueWith_document]
      rw [hj.run, hd.run]
      rfl
  | option type ih =>
      cases hn : j.isNull with
      | true =>
          obtain ⟨l, rfl⟩ := Tree.isNull_eq_true hn
          obtain ⟨l', rfl⟩ := Tree.isNull_eq_true (hnull.trans hn)
          rw [ReadsAlike, valueWith_null, valueWith_null]
          rfl
      | false =>
          rw [ReadsAlike, valueWith_option hn, valueWith_option (hnull.trans hn)]
          exact (ih ht.of_option).map _
  | _ => exact h _ ⟨rfl, nofun⟩ ht

/-- What is read as a value of an enumeration depends on the scalar only. -/
theorem enumeration_alike {Label Leaf Label' Leaf' : Type} {src : Source Label Leaf}
    {src' : Source Label' Leaf'} {config config' : Config} {t : Tree Label Leaf}
    {u : Tree Label' Leaf'} {type : Nat} {wire : ScalarType}
    (hw : wireType? (types.get type).body = some wire)
    (h : Result.Alike (src.scalar wire S t) (src'.scalar wire S u)) :
    Result.Alike
      (valueWith src { model := m, config, types } standin t (.named type) depth S)
      (valueWith src' { model := m, config := config', types } standin u (.named type) depth
        S) := by
  rw [valueWith_eq, valueWith_eq, readNode_named, readNode_named, readDeclared, readDeclared]
  cases hb : (types.get type).body with
  | record fields => simp [hb, wireType?] at hw
  | union variants unknown => simp [hb, wireType?] at hw
  | words constants unknown =>
      obtain rfl : ScalarType.string = wire := by simpa [hb, wireType?] using hw
      simp only [Tree.partsWith_tree]
      exact h.bind fun v => rfl
  | numbers constants unknown =>
      obtain rfl : ScalarType.integer .integer = wire := by simpa [hb, wireType?] using hw
      simp only [Tree.partsWith_tree]
      exact h.bind fun v => rfl

/-- Types other than documents and options have no null. -/
theorem valueWith_null_ne_ok {Label Leaf : Type} {src : Source Label Leaf} {s : Scope} {l : Label}
    (hs : ∀ type v, src.scalar type S (.null l) ≠ .ok v) (hplain : type.Plain)
    (ht : Matches s.model s.types type S) (v : Value) :
    valueWith src s standin (.null l) type depth S ≠ .ok v := by
  intro h
  cases ht.step with
  | scalar =>
      rw [valueWith_scalar] at h
      obtain ⟨w, hw, -⟩ := Result.map_eq_ok.mp h
      exact hs _ w hw
  | document => exact hplain.not_document rfl
  | option => cases hplain.not_option
  | list =>
      obtain ⟨_, _, _, _, -, -, ht, -⟩ := of_valueWith_list h
      cases ht
  | map =>
      obtain ⟨_, _, _, _, -, -, ht, -⟩ := of_valueWith_map h
      cases ht
  | record hb =>
      obtain ⟨_, _, -, ht, -⟩ := of_valueWith_record hb h
      cases ht
  | union hb =>
      obtain ⟨_, _, _, _, -, ht, -⟩ := of_valueWith_union hb h
      cases ht
  | enumeration hw =>
      obtain ⟨w, hscalar, -⟩ := of_valueWith_enumeration hw h
      exact hs _ w hscalar

/-! ### Values by the rules for documents -/

section
variable (hplain : type.Plain) (ht : Matches m types type S)
include hplain ht

theorem readsAlike_null (l : Unit) :
    ReadsAlike m types standin c config (Tree.null l) (Tree.null { schema := S }) type depth S :=
  .of_fail
    (valueWith_null_ne_ok (fun type v => Json.readScalar_null_ne_ok _ type l v) hplain ht)
    (valueWith_null_ne_ok (fun type v => Document.readScalar_null_ne_ok m type _ v) hplain ht)

theorem readsAlike_scalar {wire : ScalarType} {v : Scalar}
    (hf : (m.typeOf S).form = .scalar wire) (hv : (c.source m).scalar wire S j = .ok v) :
    ReadsAlike m types standin c config j (.leaf { schema := S } v) type depth S := by
  have hwire : v.type = wire := (Json.source_lawful m c.config c.wireNames).scalar_type hv
  have hscalar : Result.Alike ((c.source m).scalar wire S j)
      ((Document.source m).scalar wire S (.leaf { schema := S } v)) := by
    have hleaf : (Document.source m).scalar wire S (.leaf { schema := S } v) = .ok v :=
      hwire ▸ Document.readScalar_leaf m _ v
    rw [hv, hleaf]
    rfl
  obtain rfl | ⟨n, rfl, hw⟩ := ht.of_scalar hplain hf
  · rw [ReadsAlike, valueWith_scalar, valueWith_scalar]
    exact hscalar.map _
  · exact enumeration_alike hw hscalar

theorem readsAlike_items {member : SchemaRef} {l : Unit} {items : List Json}
    {parts : List (Json × Document)} (hm : m.listMember S = .ok member)
    (hdepth : depth < c.config.maxDepth) (hdepth' : depth < config.maxDepth)
    (hk : Scope.kept { model := m, config := c.config } S Tree.isNull items =
      parts.map fun p => .ok p.1)
    (hk' : Scope.kept { model := m, config } S Tree.isNull (parts.map Prod.snd) =
      parts.map fun p => .ok p.2)
    (ih : ∀ p ∈ parts, ∀ type, Matches m types type member →
      ReadsAlike m types standin c config p.1 p.2 type (depth + 1) member) :
    ReadsAlike m types standin c config (.list l items) (.list { schema := S } (parts.map Prod.snd))
      type depth S := by
  obtain ⟨element, rfl, helement⟩ := ht.of_listMember hplain hm
  rw [ReadsAlike, valueWith_items (s := { model := m, config := c.config, types }) hdepth hm,
    valueWith_items (s := { model := m, config, types }) hdepth' hm, hk, hk']
  exact (readItems_alike fun p hp => ih p hp _ helement).map _

theorem readsAlike_entries {member : SchemaRef} {l : Unit} {entries : List (String × Json)}
    {parts : List (String × Json × Document)} (hm : m.mapValue S = .ok member)
    (hdepth : depth < c.config.maxDepth) (hdepth' : depth < config.maxDepth)
    (hk : Scope.kept { model := m, config := c.config } S (fun e => e.2.isNull) entries =
      parts.map fun p => .ok (p.1, p.2.1))
    (hk' : Scope.kept { model := m, config } S (fun e => e.2.isNull)
      (Entries.ofList (parts.map fun p => (p.1, p.2.2))) = parts.map fun p => .ok (p.1, p.2.2))
    (ih : ∀ p ∈ parts, ∀ type, Matches m types type member →
      ReadsAlike m types standin c config p.2.1 p.2.2 type (depth + 1) member) :
    ReadsAlike m types standin c config (.map l entries)
      (.map { schema := S } (Entries.ofList (parts.map fun p => (p.1, p.2.2)))) type depth S := by
  obtain ⟨sorted, value, rfl, hvalue⟩ := ht.of_mapValue hplain hm
  rw [ReadsAlike, valueWith_entries (s := { model := m, config := c.config, types }) hdepth hm,
    valueWith_entries (s := { model := m, config, types }) hdepth' hm, hk, hk']
  exact (readEntries_alike fun p hp => ih p hp _ hvalue).map _

theorem readsAlike_members {l : Unit} {entries : List (String × Json)} {es : Entries Document}
    {parts : List (SchemaRef × Json × Document)} (hf : (m.typeOf S).form = .structure)
    (hdepth : depth < c.config.maxDepth) (hdepth' : depth < config.maxDepth)
    (hp : (c.source m).presentMembers S Tree.isNull entries = parts.map fun p => (p.1, p.2.1))
    (hp' : (Document.source m).presentMembers S Tree.isNull es = parts.map fun p => (p.1, p.2.2))
    (hmem : ∀ p ∈ parts, p.1 ∈ m.members S)
    (ih : ∀ p ∈ parts, ∀ type, Matches m types type p.1 →
      ReadsAlike m types standin c config p.2.1 p.2.2 type (depth + 1) p.1) :
    ReadsAlike m types standin c config (.map l entries) (.map { schema := S } es) type depth
      S := by
  obtain ⟨n, fields, rfl, hb, -, hfields⟩ := ht.of_structure hplain hf
  rw [ReadsAlike, valueWith_fields hdepth hb, valueWith_fields hdepth' hb, hp, hp', List.map_map,
    List.map_map]
  refine Result.Alike.bind (readSlots_alike fun p hin i field hi hfield => ?_) fun slots => ?_
  · have hat := Model.memberAt?_of_index (hmem p hin) hi
    exact ih p hin _ (hfields i field p.1 hfield hat).present
  · have hbuilt : buildFields { model := m, config := c.config, types } standin S slots 0 fields =
        buildFields { model := m, config, types } standin S slots 0 fields :=
      buildFields_congr_model (by rfl) ..
    rw [hbuilt]
    rfl

theorem readsAlike_known {member : SchemaRef} {l : Unit} {entries : List (String × Json)}
    {key name : String} {u : Json} {e : Document} (hf : (m.typeOf S).form = .union)
    (hdepth : depth < c.config.maxDepth) (hdepth' : depth < config.maxDepth)
    (hc : (c.source m).candidates Tree.isNull entries = [(key, u)])
    (hm : (c.source m).member? S key = some member) (he : e.isNull = false)
    (hname : m.member? S name = some member)
    (ih : ∀ type, Matches m types type member →
      ReadsAlike m types standin c config u e type (depth + 1) member) :
    ReadsAlike m types standin c config (.map l entries) (.map { schema := S } [(name, e)])
      type depth S := by
  obtain ⟨n, variants, unknown, rfl, hb, hlen, hvariants⟩ := ht.of_union hplain hf
  obtain ⟨i, hi⟩ := Model.mem_members_iff.mp (Model.mem_of_member? hname).1
  obtain ⟨variant, hv⟩ : ∃ variant, variants[i]? = some variant :=
    ⟨_, List.getElem?_eq_getElem (Nat.lt_of_lt_of_le (Model.lt_of_memberAt? hi) hlen)⟩
  have hindex := Model.expectMemberIndex_of_memberAt? hi
  rw [ReadsAlike,
    valueWith_known (s := { model := m, config := c.config, types }) hdepth hb l hc hm hindex hv,
    valueWith_known (s := { model := m, config, types }) hdepth' hb _
      (Document.candidates_singleton name he) hname hindex hv]
  exact (ih _ (hvariants i _ member hv hi)).map _

theorem readsAlike_unknown {l : Unit} {entries : List (String × Json)} {tag : String} {u : Json}
    {e : Document} (hf : (m.typeOf S).form = .union) (hdepth : depth < c.config.maxDepth)
    (hdepth' : depth < config.maxDepth)
    (hc : (c.source m).candidates Tree.isNull entries = [(tag, u)])
    (hm : (c.source m).member? S tag = none) (he : e.isNull = false)
    (hname : m.member? S tag = none) :
    ReadsAlike m types standin c config (.map l entries) (.map { schema := S } [(tag, e)])
      type depth S := by
  obtain ⟨n, variants, unknown, rfl, hb, -, -⟩ := ht.of_union hplain hf
  rw [ReadsAlike,
    valueWith_unknown (s := { model := m, config := c.config, types }) hdepth hb l hc hm,
    valueWith_unknown (s := { model := m, config, types }) hdepth' hb _
      (Document.candidates_singleton tag he) hname]
  rfl

end

/-- What has been read as a document can be read on as it could be read right away. -/
theorem readsAlike_of_reads
    (h : Reads (c.source m) { model := m, config := c.config } depth S j d) (hj : j.DistinctKeys)
    (hback : (c.source m).LeadsBack m S) (hu : c.UnionsByName m S)
    (hd : c.config.maxDepth ≤ config.maxDepth) (ht : Matches m types type S) :
    ReadsAlike m types standin c config j d type depth S := by
  have hl : (c.source m).Lawful m := Json.source_lawful m c.config c.wireNames
  induction j using Tree.induct_inside generalizing depth S d type with
  | h j ih =>
    refine readsAlike_of_plain h (h.reread hl hj hback hu.source hd) (fun type hplain ht => ?_) ht
    cases h with
    | null l => exact readsAlike_null hplain ht l
    | document hf hnull => exact absurd hf (ht.form_ne_document hplain)
    | scalar hf hnull hv => exact readsAlike_scalar hplain ht hf hv
    | @members _ _ l entries parts hf hdepth hp hr hc =>
        obtain ⟨hkeys, hvalues⟩ := hj.of_map
        have hlike := ShapeType.isStructureLike_iff.mpr (.inl hf)
        have hpart : ∀ p ∈ parts, ∃ key, (key, p.2.1) ∈ entries ∧ p.1 ∈ m.members S := by
          intro p hp'
          obtain ⟨key, he, hkey, -⟩ := (c.source m).exists_entry_of_presentMembers_eq hp hp'
          exact ⟨key, he, hl.mem_members hkey⟩
        have hpresent := presentMembers_read (s := { model := m, config := c.config }) hl
          (hback.here hlike) hkeys hp hr
        refine readsAlike_members hplain ht hf hdepth (Nat.lt_of_lt_of_le hdepth hd) hp hpresent
          (fun p hp' => (hpart p hp').elim fun _ h => h.2) fun p hp' type ht => ?_
        obtain ⟨key, he, hmember⟩ := hpart p hp'
        exact ih _ (.entry he) (hr p hp') (hvalues _ he) (hback.member hmember)
          (hu.member hmember) ht
    | @known _ _ member l entries key u e hf hdepth hc hm hr =>
        obtain ⟨he, hnull, -⟩ := (c.source m).mem_of_candidates hc
        have hmember := hl.mem_members hm
        have hname := hback.here (ShapeType.isStructureLike_iff.mpr (.inr hf)) key member hm
        exact readsAlike_known hplain ht hf hdepth (Nat.lt_of_lt_of_le hdepth hd) hc hm
          ((hr.isNull hl).trans hnull) hname fun type ht =>
            ih _ (.entry he) hr (hj.of_map.2 _ he) (hback.member hmember) (hu.member hmember) ht
    | @unknown _ _ l entries tag u hf hdepth hc hm =>
        obtain ⟨-, hnull, -⟩ := (c.source m).mem_of_candidates hc
        exact readsAlike_unknown hplain ht hf hdepth (Nat.lt_of_lt_of_le hdepth hd) hc hm
          ((Json.toDocument_isNull u).trans hnull) ((hu.member? hf tag).symm.trans hm)
    | @list _ _ member l items parts hm hdepth hk hr =>
        have hmember := Model.mem_of_listMember hm
        refine readsAlike_items hplain ht hm hdepth (Nat.lt_of_lt_of_le hdepth hd) hk
          (kept_items_read { model := m, config := c.config } hl hk hr) fun p hp type ht => ?_
        have hitem := (Scope.mem_of_kept_eq { model := m, config := c.config } hk hp).1
        exact ih _ (.item hitem) (hr p hp) (hj.of_list _ hitem) (hback.member hmember)
          (hu.member hmember) ht
    | @map _ _ member l entries parts hm hdepth hk hr =>
        have hmember := Model.mem_of_mapValue hm
        obtain ⟨hkeys, hvalues⟩ := hj.of_map
        refine readsAlike_entries hplain ht hm hdepth (Nat.lt_of_lt_of_le hdepth hd) hk
          (kept_entries_read { model := m, config := c.config } hl hkeys hk hr)
          fun p hp type ht => ?_
        have hentry := (Scope.mem_of_kept_eq { model := m, config := c.config } hk hp).1
        exact ih _ (.entry hentry) (hr p hp) (hvalues _ hentry) (hback.member hmember)
          (hu.member hmember) ht

/--
For a type that matches the schema, a value is read from JSON exactly if a document is, and that
value is read from the document. Documents go by names, so each member that a key leads to has to be
the one that its name leads to. They are read as deep as the default allows.
-/
theorem read_through_document (ht : Matches m types type S) (hback : (c.source m).LeadsBack m S)
    (hu : c.UnionsByName m S) (hd : c.config.maxDepth ≤ 64) (hj : j.DistinctKeys) (v : Value) :
    ofJson m types type S c j = .ok v ↔
      ∃ d, c.ofJson m S j = .ok d ∧ ofDocument m types type S {} d = .ok v := by
  have hroom : c.config.maxDepth ≤ ({} : Config).maxDepth := hd
  have halike {d : Document} (hread : c.ofJson m S j = .ok d) :
      ofJson m types type S c j = .ok v ↔ ofDocument m types type S {} d = .ok v :=
    (readsAlike_of_reads (Reader.documentAt_eq_ok_iff.mp hread) hj hback hu hroom ht).ok_iff
  constructor
  · intro h
    obtain ⟨d, hr⟩ := exists_reads (Json.source_lawful m c.config c.wireNames) ht h
    have hread : c.ofJson m S j = .ok d := hr.run
    exact ⟨d, hread, (halike hread).mp h⟩
  · rintro ⟨d, hread, h⟩
    exact (halike hread).mpr h

end ShapeCodec.Typed

namespace ShapeCodec.Gallery

open Typed

/-- Nodes match their schema, again and again. -/
theorem node_matches : Matches model types node (schema model "t#Node") := by
  let Holds (type : ValueType) (S : SchemaRef) : Prop :=
    (type = node ∨ type = .option node) ∧
        (S = .shape (.declared 19) ∨ S = .member (.declared 19) 1) ∨
      type = int ∧ S = .member (.declared 19) 0
  refine ⟨Holds, ?_, .inl ⟨.inl rfl, .inl (by decide)⟩⟩
  rintro type S (⟨rfl | rfl, hS⟩ | ⟨rfl, rfl⟩)
  · have hshape : model.table? S = some (.declared 19) ∧
        (model.typeOf S).form = .structure ∧ (model.members S).length = 2 := by
      rcases hS with rfl | rfl <;> decide
    obtain ⟨htable, hf, hlen⟩ := hshape
    have hbody : (types.get 14).body = .record [⟨"value", int⟩, ⟨"next", .option node⟩] := rfl
    refine .record hbody hf (by rw [hlen]; decide) (forall_places htable ?_)
    exact List.forall_mem_cons.mpr
      ⟨.inr ⟨rfl, rfl⟩, List.forall_mem_singleton.mpr (.inl ⟨.inr rfl, .inr rfl⟩)⟩
  · exact .option (.inl ⟨.inl rfl, hS⟩)
  · exact .scalar (by decide)

/-- The schemas that nodes lead to. -/
def nodeSchemas : List SchemaRef :=
  [.shape (.declared 19), .member (.declared 19) 0, .member (.declared 19) 1]

/-- Nodes, which hold nodes, are read the same by way of a document. -/
theorem nodes_read_through_document :
    ∃ d, ({} : Codec).ofJson model (schema model "t#Node") (.object
        [("value", .number (.ofInt 1)), ("next", .object [("value", .number (.ofInt 2))])]) =
          .ok d ∧
      ofDocument model types node (schema model "t#Node") {} d = .ok twoNodes := by
  have hnames : model.DistinctNames (schema model "t#Node") := (allLaidOut.laidOut _).distinctNames
  have hback : (({} : Codec).source model).LeadsBack model (schema model "t#Node") :=
    Codec.source_leadsBack fun _ => hnames
  have hclosed : ∀ t ∈ nodeSchemas, ∀ member ∈ model.members t, member ∈ nodeSchemas := by
    decide
  have hunions : ({} : Codec).UnionsByName model (schema model "t#Node") :=
    Model.everywhere_of_closed hclosed (by decide) (by decide)
  have hlast : (Json.object [("value", .number (.ofInt 2))]).DistinctKeys :=
    .map (by decide) (List.forall_mem_singleton.mpr (.leaf _ _))
  have hkeys : (Json.object [("value", .number (.ofInt 1)),
      ("next", .object [("value", .number (.ofInt 2))])]).DistinctKeys :=
    .map (by decide) (List.forall_mem_cons.mpr ⟨.leaf _ _, List.forall_mem_singleton.mpr hlast⟩)
  exact (read_through_document node_matches hback hunions (by decide) hkeys twoNodes).mp rfl

/-- The schemas that members of one name lead to. -/
def twinSchemas : List SchemaRef :=
  [.shape (.declared 0), .member (.declared 0) 0, .member (.declared 0) 1]

/-- A number under each of the wire keys of two members that have one name. -/
def twinNumbers : Json :=
  .object [("x", .number (.ofInt 1)), ("y", .number (.ofInt 2))]

/-- Two members of one name are both read right away, but only the last by way of a document. -/
theorem twins_not_read_through_document :
    Matches unchecked uncheckedTypes (.named 0) (schema unchecked "x#Twins") ∧
    ({} : Codec).UnionsByName unchecked (schema unchecked "x#Twins") ∧
    twinNumbers.DistinctKeys ∧
    ofJson unchecked uncheckedTypes (.named 0) (schema unchecked "x#Twins") {} twinNumbers =
      .ok bothTwins ∧
    ¬ ∃ d, ({} : Codec).ofJson unchecked (schema unchecked "x#Twins") twinNumbers = .ok d ∧
      ofDocument unchecked uncheckedTypes (.named 0) (schema unchecked "x#Twins") {} d =
        .ok bothTwins := by
  have hclosed : ∀ t ∈ twinSchemas, ∀ member ∈ unchecked.members t, member ∈ twinSchemas := by
    decide
  have hkeys : twinNumbers.DistinctKeys :=
    .map (by decide)
      (List.forall_mem_cons.mpr ⟨.leaf _ _, List.forall_mem_singleton.mpr (.leaf _ _)⟩)
  refine ⟨twins_match, Model.everywhere_of_closed hclosed (by decide) (by decide), hkeys, rfl, ?_⟩
  rintro ⟨d, hd, hv⟩
  obtain rfl := Except.ok.inj (hd.symm.trans rfl)
  -- under the one name stands what was read last
  have hlast : bothTwins =
      .record 0 [.missing, .present (.scalar (.integer .integer ⟨2, two_fits⟩))] :=
    Except.ok.inj (hv.symm.trans rfl)
  simp [bothTwins] at hlast

end ShapeCodec.Gallery
