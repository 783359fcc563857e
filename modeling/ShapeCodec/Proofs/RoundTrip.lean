import ShapeCodec.Proofs.Calls
import ShapeCodec.Proofs.Medium
import ShapeCodec.Proofs.Reading

/-!
# Documents, written and read again

A document that conforms to a schema and holds only scalars that a medium carries is read from what
it was written as, with the same values. The writer walks the members of the schema and the reader
the entries of its input; both are followed along the proof that the document conforms.
-/

namespace ShapeCodec

/-- Choices for the members of a list, gathered in a list. -/
theorem exists_parts {α β : Type} {P : α → β → Prop} {xs : List α} (h : ∀ x ∈ xs, ∃ y, P x y) :
    ∃ parts : List (α × β), parts.map Prod.fst = xs ∧ ∀ p ∈ parts, P p.1 p.2 := by
  induction xs with
  | nil => exact ⟨[], rfl, by simp⟩
  | cons x xs ih =>
      obtain ⟨⟨y, hy⟩, h⟩ := List.forall_mem_cons.mp h
      obtain ⟨parts, rfl, hp⟩ := ih h
      exact ⟨(x, y) :: parts, rfl, List.forall_mem_cons.mpr ⟨hy, hp⟩⟩

/-- The same where only what stands beside something is chosen for. -/
theorem exists_parts_beside {κ α β : Type} {P : κ → α → β → Prop} {es : List (κ × α)}
    (h : ∀ e ∈ es, ∃ y, P e.1 e.2 y) :
    ∃ parts : List (κ × α × β), (parts.map fun p => (p.1, p.2.1)) = es ∧
      ∀ p ∈ parts, P p.1 p.2.1 p.2.2 := by
  obtain ⟨found, rfl, hp⟩ := exists_parts h
  refine ⟨found.map fun p => (p.1.1, p.1.2, p.2), ?_, List.forall_mem_map.mpr hp⟩
  rw [List.map_map]
  rfl

namespace Document

/-! ### Equality by kind -/

theorem same_null (l l' : Label) : same (.null l) (.null l') = true := by
  rw [same, Tree.walk_null]
  rfl

theorem same_leaf (l l' : Label) (v w : Scalar) :
    same (.leaf l v) (.leaf l' w) = v.same w := by
  rw [same, Tree.walk_leaf]
  rfl

/-- Lists are equal when they are element by element. -/
theorem same_list (l l' : Label) {parts : List (Document × Document)}
    (h : ∀ p ∈ parts, p.1.same p.2 = true) :
    same (.list l (parts.map Prod.fst)) (.list l' (parts.map Prod.snd)) = true := by
  rw [same, Tree.walk_list]
  show (_ == _ && _) = true
  rw [Bool.and_eq_true_iff]
  constructor
  · simp
  · rw [List.map_map, List.zip_map', List.all_map, List.all_eq_true]
    exact h

/-- Maps are equal when their entries are, in whatever order. -/
theorem same_map (l l' : Label) (es es' : List (String × Document)) :
    same (.map l es) (.map l' es') = Entries.sameBy same es es' := by
  rw [same, Tree.walk_map]
  show Entries.sameBy _ _ es' = _
  simp only [Entries.sameBy, List.length_map, List.all_map]
  rfl

/-- Without floats that are no number, a document equals itself. -/
theorem same_self {d : Document} (hk : d.DistinctKeys)
    (hl : d.AllLeaves fun v => v.isNaN = false) : d.same d = true := by
  induction d using Tree.induct_kind with
  | null l => exact same_null l l
  | leaf l v =>
      cases hl with
      | leaf _ hv => rw [same_leaf, Scalar.same_self hv]
  | list l items ih =>
      cases hl with
      | list hl =>
          have hs : ∀ p ∈ items.map fun d => (d, d), same p.1 p.2 = true :=
            List.forall_mem_map.mpr fun d hd => ih d hd (hk.of_list d hd) (hl d hd)
          simpa [Function.comp_def] using same_list l l hs
  | map l entries ih =>
      cases hl with
      | map hl =>
          obtain ⟨hn, hk⟩ := hk.of_map
          have hs : Entries.sameBy same entries
              ((entries.map fun e => (e.1, e.2, e.2)).map fun p => (p.1, p.2.2)) = true := by
            refine Entries.sameBy_of_parts hn ?_ ?_ ?_
            · simp [Entries.keys, Function.comp_def]
            · exact List.forall_mem_map.mpr fun e he => he
            · exact List.forall_mem_map.mpr fun e he => ih e he (hk e he) (hl e he)
          rw [same_map]
          simpa [Function.comp_def] using hs

end Document

namespace Medium

variable {Label Leaf : Type} {M : Medium Label Leaf}

variable (M) in
/-- `t` is written for a document, and an equal document `d'` is read from it again. -/
structure Copies (schema : SchemaRef) (d : Document) (t : Tree Label Leaf) (d' : Document) :
    Prop where
  writes : M.Writes (d.calls M.model schema) schema t
  isNull : t.isNull = d.isNull
  same : d.same d' = true
  reads : ∀ depth, depth + d.nesting ≤ M.config.maxDepth →
    Reader.Reads M.source M.scope depth schema t d'

variable (M) in
/-- A document can be written under a schema and read again. -/
def Keeps (schema : SchemaRef) (d : Document) : Prop :=
  ∃ p : Tree Label Leaf × Document, M.Copies schema d p.1 p.2

/-! ### One node -/

theorem keeps_null (schema : SchemaRef) (l : ShapeCodec.Label) : M.Keeps schema (.null l) := by
  refine ⟨(.null (M.label schema), .null { schema }), ?_, rfl, Document.same_null _ _, ?_⟩
  · rw [Document.calls_null]
    exact writes_null schema
  · intro depth _
    exact .null _

theorem keeps_scalar {schema : SchemaRef} {l : ShapeCodec.Label} {v : Scalar}
    (hf : (M.model.typeOf schema).form = .scalar v.type) (hv : M.Carries schema v)
    (hs : v.same v = true) : M.Keeps schema (.leaf l v) := by
  obtain ⟨t, hw, hn, hr⟩ := hv
  refine ⟨(t, .leaf { schema } v), ?_, hn, ?_, ?_⟩
  · rw [Document.calls_leaf hf]
    exact Writer.writes_scalar hw
  · rw [Document.same_leaf, hs]
  · intro depth _
    exact .scalar hf hn hr

theorem keeps_list {schema member : SchemaRef} {l : ShapeCodec.Label} {items : List Document}
    (hm : M.model.listMember schema = .ok member)
    (hn : ∀ d ∈ items, d.isNull = true → M.model.isSparse schema = true)
    (h : ∀ d ∈ items, M.Keeps member d) : M.Keeps schema (.list l items) := by
  obtain ⟨parts, rfl, hp⟩ := exists_parts h
  refine ⟨(.list (M.label schema) (parts.map fun p => p.2.1),
    .list { schema } (parts.map fun p => p.2.2)), ?_, rfl, ?_, ?_⟩
  · rw [Document.calls_list hm]
    have hw : ∀ q ∈ parts.map fun p => (p.1.calls M.model member, p.2.1), M.Writes q.1 member q.2 :=
      List.forall_mem_map.mpr fun p hp' => (hp p hp').writes
    simpa [Function.comp_def] using writes_list schema hw
  · have hs : ∀ q ∈ parts.map fun p => (p.1, p.2.2), q.1.same q.2 = true :=
      List.forall_mem_map.mpr fun p hp' => (hp p hp').same
    simpa [Function.comp_def] using Document.same_list l { schema } hs
  · intro depth hd
    have hpos : depth < M.config.maxDepth := by
      rw [Tree.nesting_list] at hd
      omega
    have hkept := kept_items (fun p hp' => (hp p hp').isNull) hn
    have hr : ∀ q ∈ parts.map fun p => p.2,
        Reader.Reads M.source M.scope (depth + 1) member q.1 q.2 := by
      refine List.forall_mem_map.mpr fun p hp' => (hp p hp').reads _ ?_
      have hlt := Tree.nesting_item_lt (l := l) (List.mem_map_of_mem (f := Prod.fst) hp')
      omega
    have hread := Reader.Reads.list (s := M.scope) (l := M.label schema) hm hpos hkept hr
    rw [List.map_map] at hread
    exact hread

theorem keeps_map {schema member : SchemaRef} {l : ShapeCodec.Label}
    {entries : List (String × Document)} (hm : M.model.mapValue schema = .ok member)
    (hkeys : (Entries.keys entries).Nodup)
    (hn : ∀ e ∈ entries, e.2.isNull = true → M.model.isSparse schema = true)
    (h : ∀ e ∈ entries, M.Keeps member e.2) : M.Keeps schema (.map l entries) := by
  obtain ⟨parts, rfl, hp⟩ := exists_parts h
  have hnodup : (parts.map fun p => p.1.1).Nodup := by
    simpa [Entries.keys, Function.comp_def] using hkeys
  refine ⟨(.map (M.label schema) (parts.map fun p => (p.1.1, p.2.1)),
    .map { schema } (parts.map fun p => (p.1.1, p.2.2))), ?_, rfl, ?_, ?_⟩
  · rw [Document.calls_map hm]
    have hw : ∀ q ∈ parts.map fun p => (p.1.1, p.1.2.calls M.model member, p.2.1),
        M.Writes q.2.1 member q.2.2 :=
      List.forall_mem_map.mpr fun p hp' => (hp p hp').writes
    have hfst : ((parts.map fun p => (p.1.1, p.1.2.calls M.model member, p.2.1)).map
        Prod.fst).Nodup := by
      simpa [Function.comp_def] using hnodup
    simpa [Function.comp_def] using writes_map schema hw hfst
  · have hs : Entries.sameBy Document.same (parts.map Prod.fst)
        ((parts.map fun p => (p.1.1, p.1.2, p.2.2)).map fun q => (q.1, q.2.2)) = true := by
      refine Entries.sameBy_of_parts hkeys ?_ ?_ ?_
      · simp [Entries.keys, Function.comp_def]
      · exact List.forall_mem_map.mpr fun p hp' => List.mem_map_of_mem (f := Prod.fst) hp'
      · exact List.forall_mem_map.mpr fun p hp' => (hp p hp').same
    rw [Document.same_map]
    simpa [Function.comp_def] using hs
  · intro depth hd
    have hpos : depth < M.config.maxDepth := by
      rw [Tree.nesting_map] at hd
      omega
    have hkept := kept_entries (fun p hp' => (hp p hp').isNull) hn
    have hr : ∀ q ∈ parts.map fun p => (p.1.1, p.2),
        Reader.Reads M.source M.scope (depth + 1) member q.2.1 q.2.2 := by
      refine List.forall_mem_map.mpr fun p hp' => (hp p hp').reads _ ?_
      have hlt := Tree.nesting_entry_lt (l := l) (List.mem_map_of_mem (f := Prod.fst) hp')
      omega
    have hread := Reader.Reads.map (s := M.scope) (l := M.label schema) hm hpos hkept hr
    have hlist : (Entries.keys (parts.map fun p => (p.1.1, p.2.2))).Nodup := by
      simpa [Entries.keys, Function.comp_def] using hnodup
    rw [List.map_map] at hread
    show Reader.Reads M.source M.scope depth schema _ (.map { schema } (parts.map _))
    rw [← Entries.ofList_of_nodup hlist]
    exact hread

/-! ### Structures and unions -/

section
variable {schema : SchemaRef} {entries : List (String × Document)}
  {parts : List ((SchemaRef × String × Document) × Tree Label Leaf × Document)}

/-- The members that a structure holds are written so that just these are found again. -/
theorem writes_members (hK : M.Keyed schema) (hf : (M.model.typeOf schema).form = .structure)
    (hfst : parts.map Prod.fst = Document.memberParts M.model schema entries)
    (hp : ∀ p ∈ parts, M.Copies p.1.1 p.1.2.2 p.2.1 p.2.2) (l : ShapeCodec.Label) :
    ∃ written, M.Writes (Document.calls M.model (.map l entries) schema) schema
        (.map (M.label schema) written) ∧
      M.source.presentMembers schema Tree.isNull written = parts.map fun p => (p.1.1, p.2.1) := by
  have hin : ∀ p ∈ parts, p.1 ∈ Document.memberParts M.model schema entries :=
    fun p hp' => hfst ▸ List.mem_map_of_mem hp'
  let called := parts.map fun p => (p.1.1, p.1.2.2.calls M.model p.1.1, p.2.1)
  have hmembers : ∀ q ∈ called, q.1 ∈ M.model.members schema :=
    List.forall_mem_map.mpr fun p hp' => (Document.mem_memberParts.mp (hin p hp')).1
  have hdistinct : (called.map Prod.fst).Nodup := by
    have hn := Document.nodup_memberParts M.model schema entries
    rw [← hfst, List.map_map] at hn
    rw [List.map_map]
    exact hn
  have hwrites : ∀ q ∈ called, M.Writes q.2.1 q.1 q.2.2 :=
    List.forall_mem_map.mpr fun p hp' => (hp p hp').writes
  have hthere : ∀ q ∈ called, q.2.2.isNull = false :=
    List.forall_mem_map.mpr fun p hp' =>
      (hp p hp').isNull.trans (Document.mem_memberParts.mp (hin p hp')).2.2.2
  obtain ⟨written, hw, hpresent⟩ := writes_structure hK hf hmembers hdistinct hwrites hthere
  refine ⟨written, ?_, ?_⟩
  · rw [Document.calls_members (.inl hf), ← hfst]
    simpa [called, Function.comp_def] using hw
  · rw [hpresent, List.map_map]
    rfl

/-- Members that are found again are entered under their names, as they were. -/
theorem reads_members {depth : Nat} {written : List (String × Tree Label Leaf)}
    (hf : (M.model.typeOf schema).form = .structure) (hpos : depth < M.config.maxDepth)
    (hfst : parts.map Prod.fst = Document.memberParts M.model schema entries)
    (hperm : (Entries.keys entries).Perm (parts.map fun p => p.1.2.1))
    (hkeys : (Entries.keys entries).Nodup) (hreq : Document.HasRequired M.model schema entries)
    (hfound : M.source.presentMembers schema Tree.isNull written =
      parts.map fun p => (p.1.1, p.2.1))
    (hr : ∀ p ∈ parts, Reader.Reads M.source M.scope (depth + 1) p.1.1 p.2.1 p.2.2) :
    Reader.Reads M.source M.scope depth schema (.map (M.label schema) written)
      (.map { schema } (parts.map fun p => (p.1.2.1, p.2.2))) := by
  have hnames : Reader.memberEntries M.scope (parts.map fun p => (p.1.1, p.2)) =
      parts.map fun p => (p.1.2.1, p.2.2) := by
    rw [Reader.memberEntries, List.map_map]
    refine List.map_congr_left fun p hp => ?_
    have hin : p.1 ∈ Document.memberParts M.model schema entries :=
      hfst ▸ List.mem_map_of_mem hp
    show ((M.model.memberName? p.1.1).getD "", p.2.2) = _
    rw [(Document.mem_memberParts.mp hin).2.1, Option.getD_some]
  have hnodup : (Entries.keys (parts.map fun p => (p.1.2.1, p.2.2))).Nodup := by
    simpa [Entries.keys, Function.comp_def] using hperm.nodup hkeys
  have hcheck : Document.HasRequired M.model schema (parts.map fun p => (p.1.2.1, p.2.2)) := by
    intro member hmem hrequired name hname
    have hkey := hperm.mem_iff.mp (hreq member hmem hrequired name hname)
    simpa [Entries.keys, Function.comp_def] using hkey
  have hcheck := Document.checkRequired_eq_ok.mpr hcheck
  have hpresent : M.source.presentMembers schema Tree.isNull written =
      (parts.map fun p => (p.1.1, p.2)).map fun q => (q.1, q.2.1) := by
    rw [hfound, List.map_map]
    rfl
  have hparts : ∀ q ∈ parts.map fun p => (p.1.1, p.2),
      Reader.Reads M.source M.scope (depth + 1) q.1 q.2.1 q.2.2 := List.forall_mem_map.mpr hr
  rw [← Entries.ofList_of_nodup hnodup, ← hnames] at hcheck ⊢
  exact .members hf hpos hpresent hparts hcheck

end

theorem keeps_structure {schema : SchemaRef} {l : ShapeCodec.Label}
    {entries : List (String × Document)} (hS : M.model.LaidOut schema) (hK : M.Keyed schema)
    (hf : (M.model.typeOf schema).form = .structure) (hkeys : (Entries.keys entries).Nodup)
    (hnull : ∀ e ∈ entries, e.2.isNull = false)
    (hmem : ∀ e ∈ entries, (M.model.member? schema e.1).isSome = true)
    (hreq : Document.HasRequired M.model schema entries)
    (h : ∀ e ∈ entries, ∀ member, M.model.member? schema e.1 = some member → M.Keeps member e.2) :
    M.Keeps schema (.map l entries) := by
  have hparts : ∀ p ∈ Document.memberParts M.model schema entries, M.Keeps p.1 p.2.2 := by
    intro p hp
    obtain ⟨hin, hname, hfind, -⟩ := Document.mem_memberParts.mp hp
    exact h _ (Entries.mem_of_find? hfind) p.1 (Model.member?_of_mem hS.names_nodup hin hname)
  obtain ⟨parts, hfst, hp⟩ := exists_parts hparts
  have hentry : ∀ p ∈ parts, p.1.2 ∈ entries := by
    intro p hp'
    have hin : p.1 ∈ Document.memberParts M.model schema entries :=
      hfst ▸ List.mem_map_of_mem hp'
    exact Entries.mem_of_find? (Document.mem_memberParts.mp hin).2.2.1
  -- the members of the schema stand in another order than the entries
  have hperm : (Entries.keys entries).Perm (parts.map fun p => p.1.2.1) := by
    have hall := Document.memberParts_perm hS hkeys hnull hmem
    rw [← hfst, List.map_map] at hall
    exact hall
  obtain ⟨written, hw, hfound⟩ := writes_members hK hf hfst hp l
  refine ⟨(.map (M.label schema) written,
    .map { schema } (parts.map fun p => (p.1.2.1, p.2.2))), hw, rfl, ?_, ?_⟩
  · have hs : Entries.sameBy Document.same entries
        ((parts.map fun p => (p.1.2.1, p.1.2.2, p.2.2)).map fun q => (q.1, q.2.2)) = true := by
      refine Entries.sameBy_of_parts hkeys ?_ (List.forall_mem_map.mpr hentry) ?_
      · rw [List.map_map]
        exact hperm
      · exact List.forall_mem_map.mpr fun p hp' => (hp p hp').same
    rw [Document.same_map]
    simpa [Function.comp_def] using hs
  · intro depth hd
    have hpos : depth < M.config.maxDepth := by
      rw [Tree.nesting_map] at hd
      omega
    refine reads_members hf hpos hfst hperm hkeys hreq hfound fun p hp' => ?_
    have hlt : p.1.2.2.nesting < (Tree.map l entries).nesting :=
      Tree.nesting_entry_lt (hentry p hp')
    exact (hp p hp').reads (depth + 1) (by omega)

theorem keeps_union {schema member : SchemaRef} {l : ShapeCodec.Label} {key : String} {d : Document}
    (hS : M.model.LaidOut schema) (hK : M.Keyed schema)
    (hf : (M.model.typeOf schema).form = .union) (hm : M.model.member? schema key = some member)
    (hnull : d.isNull = false) (h : M.Keeps member d) : M.Keeps schema (.map l [(key, d)]) := by
  obtain ⟨⟨t, d'⟩, hp⟩ := h
  obtain ⟨hin, hname⟩ := Model.mem_of_member? hm
  obtain ⟨wire, hw, hcandidates, hfound⟩ := writes_union hK hf hin hp.writes
    (hp.isNull.trans hnull)
  refine ⟨(.map (M.label schema) [(wire, t)], .map { schema } [(key, d')]), ?_, rfl, ?_, ?_⟩
  · rw [Document.calls_members (.inr hf), Document.memberParts_singleton hS hm hnull]
    exact hw
  · rw [Document.same_map]
    simp [Entries.sameBy, Entries.find?, hp.same]
  · intro depth hd
    have hpos : depth < M.config.maxDepth := by
      rw [Tree.nesting_map] at hd
      omega
    have hlt : d.nesting < (Tree.map l [(key, d)]).nesting :=
      Tree.nesting_entry_lt (List.mem_singleton_self (key, d))
    have hread := Reader.Reads.known (l := M.label schema) hf hpos hcandidates hfound
      (hp.reads (depth + 1) (by omega))
    have hkey : (M.scope.model.memberName? member).getD "" = key := by
      show (M.model.memberName? member).getD "" = key
      rw [hname, Option.getD_some]
    rw [hkey] at hread
    exact hread

/-! ### Whole documents -/

/-- A document that conforms is kept, if the medium carries its scalars and finds its members. -/
theorem keeps_of_conforms {r : Document.Rules} (hr : ∀ {schema v}, r.scalar schema v →
      M.Carries schema v ∧ v.same v = true)
    (ha : ∀ schema d, ¬ r.anything schema d) (hu : ∀ schema tag, ¬ r.unknown schema tag)
    {schema : SchemaRef} {d : Document} (h : d.Conforms M.model r schema) :
    M.model.LaidOut schema → M.model.Everywhere M.Keyed schema → M.Keeps schema d := by
  induction h with
  | null => exact fun _ _ => keeps_null _ _
  | anything _ hd => exact absurd hd (ha _ _)
  | scalar hf _ hv => exact fun _ _ => keeps_scalar hf (hr hv).1 (hr hv).2
  | members hf _ hkeys hnull hmem _ hreq ih =>
      intro hS hK
      refine keeps_structure hS hK.here hf hkeys hnull hmem hreq fun e he member hm => ?_
      have hin := (Model.mem_of_member? hm).1
      exact ih e he member hm (hS.member hin) (hK.member hin)
  | @union schema l key d hf _ hnull hunknown _ ih =>
      intro hS hK
      cases hm : M.model.member? schema key with
      | none => exact absurd (hunknown hm) (hu _ _)
      | some member =>
          have hin := (Model.mem_of_member? hm).1
          exact keeps_union hS hK.here hf hm hnull (ih member hm (hS.member hin) (hK.member hin))
  | list hm _ hn _ ih =>
      intro hS hK
      have hin := Model.mem_of_listMember hm
      exact keeps_list hm hn fun d hd => ih d hd (hS.member hin) (hK.member hin)
  | map hm _ hkeys hn _ ih =>
      intro hS hK
      have hin := Model.mem_of_mapValue hm
      exact keeps_map hm hkeys hn fun e he => ih e he (hS.member hin) (hK.member hin)

end Medium

/-! ### JSON -/

/-- Documents of plain scalars: nothing without a schema, no tag that is not known. -/
def Document.Rules.plain (c : Codec) (m : Model) : Document.Rules where
  label _ _ := True
  anything _ _ := False
  scalar schema v := v.Plain (c.config.timestampFormatFor m schema)
  unknown _ _ := False

/-- The JSON that a document is written as is read as an equal document. -/
def Codec.ReadsBack (c : Codec) (m : Model) (schema : SchemaRef) (d : Document) : Prop :=
  ∃ j d', c.toJson m (d.calls m schema) = .ok j ∧ c.ofJson m schema j = .ok d' ∧ d.same d' = true

/-- What conforms and is plain goes through JSON, whatever the settings of the codec. -/
theorem Codec.readsBack_of_conforms {c : Codec} {m : Model} {S : SchemaRef} {d : Document}
    (hS : m.LaidOut S) (hk : c.Unambiguous m S) (hd : d.Conforms m (.plain c m) S)
    (hn : d.nesting ≤ c.config.maxDepth) : c.ReadsBack m S d := by
  have hplain : ∀ {schema v}, (Document.Rules.plain c m).scalar schema v →
      (c.medium m).Carries schema v ∧ v.same v = true :=
    fun hv => ⟨Codec.carries hv, Scalar.same_self hv.isNaN⟩
  obtain ⟨⟨j, d'⟩, hcopy⟩ := Medium.keeps_of_conforms (M := c.medium m) hplain
    (fun _ _ => id) (fun _ _ => id) hd hS hk.keyed
  refine ⟨j, d', hcopy.writes.write_eq_ok, ?_, hcopy.same⟩
  have hdepth : 0 + d.nesting ≤ c.config.maxDepth := by omega
  exact (hcopy.reads 0 hdepth).run

/-- Trees of the gallery hold a list of trees. -/
def Gallery.treeSchema : SchemaRef :=
  schema model "t#Tree"

/-- A tree with one branch, whose label comes last. -/
def Gallery.sapling : Document :=
  .map { schema := treeSchema }
    [ ("children", .list { schema := .prelude .documentList }
        [.map { schema := treeSchema } [("label", Document.ofString "leaf")]])
    , ("label", Document.ofString "root") ]

/-- A tree goes through JSON and comes back with its label first. -/
theorem readsBack_of_conforms_sapling :
    ({} : Codec).ReadsBack Gallery.model Gallery.treeSchema Gallery.sapling := by
  refine Codec.readsBack_of_conforms (Gallery.allLaidOut.laidOut _)
    (Codec.unambiguous_of_shapes (by decide) _) ?_ (by decide)
  have htext : (Gallery.model.typeOf (.member (.declared 20) 0)).form = .scalar .string := by
    decide
  have hlabel : ∀ text, Document.Conforms Gallery.model (.plain {} Gallery.model)
      (.member (.declared 20) 0) (Document.ofString text) :=
    fun _ => .scalar htext trivial trivial
  have hleaf : Document.Conforms Gallery.model (.plain {} Gallery.model)
      (.member (.declared 21) 0) (.map { schema := Gallery.treeSchema }
        [("label", Document.ofString "leaf")]) := by
    refine .members (by decide) trivial (by decide) (by decide) (by decide) ?_
      (Document.checkRequired_eq_ok.mp rfl)
    intro e he member hm
    obtain rfl := List.mem_singleton.mp he
    obtain rfl : member = .member (.declared 20) 0 := Option.some.inj (hm.symm.trans rfl)
    exact hlabel _
  refine .members (by decide) trivial (by decide) (by decide) (by decide) ?_
    (Document.checkRequired_eq_ok.mp rfl)
  intro e he member hm
  rcases List.mem_pair.mp he with rfl | rfl
  · obtain rfl : member = .member (.declared 20) 1 := Option.some.inj (hm.symm.trans rfl)
    have hlist : Gallery.model.listMember (.member (.declared 20) 1) =
        .ok (.member (.declared 21) 0) := rfl
    refine .list hlist trivial (by decide) ?_
    intro d hd
    obtain rfl := List.mem_singleton.mp hd
    exact hleaf
  · obtain rfl : member = .member (.declared 20) 0 := Option.some.inj (hm.symm.trans rfl)
    exact hlabel _

/-- A union, one of whose members has the reserved name but another key on the wire. -/
def markedUnion : Model :=
  { shapes := #[
      { id := ⟨"x#U"⟩
        type := .union
        members := some [
          { name := "__type", target := .resolved (.scalar .string),
            traits := { jsonName := some "kind" } },
          { name := "b", target := .resolved (.scalar .string) } ] } ] }

/-- A value of that union. -/
def markedValue : Document :=
  .map { schema := .shape (.declared 0) } [("__type", Document.ofString "a")]

/-- The codec that leaves the wire keys alone. -/
def Codec.byName : Codec :=
  { wireNames := false }

/-- By names the value is written under the reserved key, which is not read again. -/
theorem reserved_name_not_read :
    markedUnion.LaidOut (.shape (.declared 0)) ∧
    ({} : Codec).Unambiguous markedUnion (.shape (.declared 0)) ∧
    markedValue.Conforms markedUnion (.plain .byName markedUnion) (.shape (.declared 0)) ∧
    markedValue.nesting ≤ Codec.byName.config.maxDepth ∧
    ¬ Codec.byName.ReadsBack markedUnion (.shape (.declared 0)) markedValue := by
  have hall : markedUnion.AllLaidOut := by decide
  refine ⟨hall.laidOut _, Codec.unambiguous_of_shapes (by decide) _, ?_, by decide, ?_⟩
  · refine .union rfl trivial rfl (fun hn => absurd hn (by decide)) fun member hm => ?_
    obtain rfl : member = .member (.declared 0) 0 := Option.some.inj (hm.symm.trans rfl)
    exact .scalar rfl trivial trivial
  · rintro ⟨j, d', hj, hd, -⟩
    have hwritten : Codec.byName.toJson markedUnion
        (markedValue.calls markedUnion (.shape (.declared 0))) =
          .ok (.object [("__type", .string "a")]) := rfl
    obtain rfl := Except.ok.inj (hwritten.symm.trans hj)
    have hread : Codec.byName.ofJson markedUnion (.shape (.declared 0))
        (.object [("__type", .string "a")]) = .error (.unionArity ⟨"x#U"⟩ 0) := rfl
    rw [hread] at hd
    exact absurd hd (by simp)

end ShapeCodec
