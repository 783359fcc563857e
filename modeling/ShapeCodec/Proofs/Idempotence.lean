import ShapeCodec.Proofs.DepthLimit
import ShapeCodec.Proofs.Reordering

/-!
# Reading once is enough

What has been read under a schema is settled: reading it again under that schema changes nothing,
and writing it changes no more than the order of members, if every union holds a member that is
known. The writer only keeps what the schema has, so it matters that reading left nothing else.
-/

namespace ShapeCodec

open ShapeCodec.Tree (Parts Visited)

variable {Label Leaf β : Type} {m : Model} {S : SchemaRef}

/-! ### Tags that no member goes by -/

namespace Source

/-- The tags of a union that no member goes by. -/
def unknownHere (src : Source Label Leaf) (m : Model) (schema : SchemaRef)
    (node : Parts Label Leaf β) : List String :=
  match (m.typeOf schema).form, node with
  | .union, .map _ entries =>
    ((src.candidates Visited.isNull entries).map Prod.fst).filter
      fun tag => (src.member? schema tag).isNone
  | _, _ => []

/-- The unknown tags in a node, by what is known of its parts. -/
def unknownTagsNode (src : Source Label Leaf) (m : Model)
    (node : Parts Label Leaf (SchemaRef → List String)) (schema : SchemaRef) : List String :=
  src.unknownHere m schema node ++ (src.handedOn m schema node).flatMap fun p => p.2.result p.1

/-- The tags of all unions that the walk of a schema meets, as far as no member goes by them. -/
def unknownTags (src : Source Label Leaf) (m : Model) (schema : SchemaRef)
    (t : Tree Label Leaf) : List String :=
  t.walk (.ofParts (src.unknownTagsNode m)) schema

variable {src : Source Label Leaf} {l : Label} {entries : List (String × Tree Label Leaf)}

theorem unknownHere_union (f : Tree Label Leaf → β) (hf : (m.typeOf S).form = .union) :
    src.unknownHere m S ((Tree.map l entries).partsWith f) =
      ((src.candidates Tree.isNull entries).map Prod.fst).filter
        fun tag => (src.member? S tag).isNone := by
  have hvisited := src.candidates_visit f entries
  simp only [Tree.visit] at hvisited
  simp only [unknownHere, hf, Tree.partsWith, hvisited, List.map_map]
  rfl

/-- Unknown tags of a part are unknown tags of the whole. -/
theorem unknownTags_part {t : Tree Label Leaf} {p : SchemaRef × Tree Label Leaf}
    (h : src.unknownTags m S t = []) (hp : p ∈ src.partsUnder m S t) :
    src.unknownTags m p.1 p.2 = [] := by
  rw [unknownTags, Tree.walk_ofParts, unknownTagsNode, handedOn_partsWith] at h
  exact List.flatMap_eq_nil_iff.mp (List.append_eq_nil_iff.mp h).2 _ (List.mem_map_of_mem hp)

/-- Without unknown tags, the tag of a union is that of a member. -/
theorem exists_member_of_unknownTags {tag : String} {u : Tree Label Leaf}
    (hf : (m.typeOf S).form = .union) (hc : src.candidates Tree.isNull entries = [(tag, u)])
    (h : src.unknownTags m S (.map l entries) = []) :
    ∃ member, src.member? S tag = some member := by
  rw [unknownTags, Tree.walk_ofParts, unknownTagsNode, unknownHere_union _ hf, hc] at h
  cases hm : src.member? S tag with
  | some member => exact ⟨member, rfl⟩
  | none => simp [hm] at h

end Source

namespace Document

/-- The tags in a document that no member of their union goes by. -/
def unknownTags (m : Model) (S : SchemaRef) (d : Document) : List String :=
  (Document.source m).unknownTags m S d

/-! ### Writing what has been read -/

/-- Every node has the label that it is read with, a null also where anything is allowed. -/
def Rules.settled : Rules where
  label schema l := l = { schema }
  anything _ d := d.isNull = false
  scalar _ _ := True
  unknown _ _ := True

/-- A document is written as another one that differs in the order of members only. -/
structure Rewrites (m : Model) (schema : SchemaRef) (d d' : Document) : Prop where
  writes : Writer.Writes m (Document.sink m) (d.calls m schema) schema d'
  reordered : d.Reordered m d'

section
variable {member : SchemaRef}

theorem rewrites_list {items : List Document} (hm : m.listMember S = .ok member)
    (h : ∀ d ∈ items, ∃ d', Rewrites m member d d') :
    ∃ d', Rewrites m S (.list { schema := S } items) d' := by
  obtain ⟨parts, rfl, hp⟩ := exists_parts h
  refine ⟨.list { schema := S } (parts.map Prod.snd), ?_,
    .list_parts fun p hp' => (hp p hp').reordered⟩
  have hw : ∀ q ∈ parts.map fun p => (p.1.calls m member, p.2),
      Writer.Writes m (Document.sink m) q.1 member q.2 :=
    List.forall_mem_map.mpr fun p hp' => (hp p hp').writes
  have hwritten : Writer.Writes m (Document.sink m) (.list S _) S _ := Writer.writes_list hw
  rw [List.map_map, List.map_map] at hwritten
  rw [calls_list hm, List.map_map]
  exact hwritten

theorem rewrites_map {entries : List (String × Document)} (hm : m.mapValue S = .ok member)
    (hkeys : (Entries.keys entries).Nodup) (h : ∀ e ∈ entries, ∃ d', Rewrites m member e.2 d') :
    ∃ d', Rewrites m S (.map { schema := S } entries) d' := by
  obtain ⟨parts, rfl, hp⟩ := exists_parts_beside (P := fun _ => Rewrites m member) h
  have hnodup : (parts.map Prod.fst).Nodup := by
    simpa [Entries.keys, Function.comp_def] using hkeys
  refine ⟨.map { schema := S } (parts.map fun p => (p.1, p.2.2)), ?_,
    .map_parts hnodup fun p hp' => (hp p hp').reordered⟩
  have hw : ∀ q ∈ parts.map fun p => (p.1, p.2.1.calls m member, p.2.2),
      Writer.Writes m (Document.sink m) q.2.1 member q.2.2 :=
    List.forall_mem_map.mpr fun p hp' => (hp p hp').writes
  have hwritten : Writer.Writes m (Document.sink m) (.map S _) S _ := Writer.writes_map hw
  have hkeys' : (Entries.keys (parts.map fun p => (p.1, p.2.2))).Nodup := by
    simpa [Entries.keys, Function.comp_def] using hnodup
  rw [List.map_map, List.map_map] at hwritten
  rw [calls_map hm, List.map_map, ← Entries.ofList_of_nodup hkeys']
  exact hwritten

/-! ### Structures and unions -/

/-- The members that a structure or union holds are written under their names. -/
theorem writes_members {entries : List (String × Document)} (l : ShapeCodec.Label)
    {parts : List ((SchemaRef × String × Document) × Document)}
    (hf : (m.typeOf S).form = .structure ∨ (m.typeOf S).form = .union)
    (hfst : parts.map Prod.fst = memberParts m S entries)
    (hnodup : (parts.map fun p => p.1.2.1).Nodup)
    (hone : m.typeOf S = .union → parts.length = 1)
    (hw : ∀ p ∈ parts, Writer.Writes m (Document.sink m) (p.1.2.2.calls m p.1.1) p.1.1 p.2) :
    Writer.Writes m (Document.sink m) (calls m (.map l entries) S) S
      (.map { schema := S } (parts.map fun p => (p.1.2.1, p.2))) := by
  let called := parts.map fun p => (p.1.1, p.1.2.2.calls m p.1.1, p.1.2.1, p.2)
  have hwrites : ∀ q ∈ called, Writer.Writes m (Document.sink m) q.2.1 q.1 q.2.2.2 :=
    List.forall_mem_map.mpr hw
  have hnames : ∀ q ∈ called, (Document.sink m).memberKey? q.1 = some q.2.2.1 := by
    refine List.forall_mem_map.mpr fun p hp => ?_
    have hin : p.1 ∈ memberParts m S entries := hfst ▸ List.mem_map_of_mem hp
    exact (mem_memberParts.mp hin).2.1
  have hkeys : (Entries.keys (called.map fun q => q.2.2)).Nodup := by
    simpa [called, Entries.keys, Function.comp_def] using hnodup
  have hwritten : Writer.Writes m (Document.sink m) (.structure S _) S _ :=
    Writer.writes_structure hwrites hnames hkeys (by simpa [called] using hone)
  rw [List.map_map, List.map_map] at hwritten
  rw [calls_members hf, ← hfst, List.map_map]
  exact hwritten

theorem rewrites_structure {entries : List (String × Document)} (hS : m.LaidOut S)
    (hf : (m.typeOf S).form = .structure) (hkeys : (Entries.keys entries).Nodup)
    (hnull : ∀ e ∈ entries, e.2.isNull = false)
    (hmem : ∀ e ∈ entries, (m.member? S e.1).isSome = true)
    (h : ∀ e ∈ entries, ∀ member, m.member? S e.1 = some member → ∃ d', Rewrites m member e.2 d') :
    ∃ d', Rewrites m S (.map { schema := S } entries) d' := by
  have hparts : ∀ p ∈ memberParts m S entries, ∃ d', Rewrites m p.1 p.2.2 d' := by
    intro p hp
    obtain ⟨hin, hname, hfind, -⟩ := mem_memberParts.mp hp
    exact h _ (Entries.mem_of_find? hfind) p.1 (Model.member?_of_mem hS.names_nodup hin hname)
  obtain ⟨parts, hfst, hp⟩ := exists_parts hparts
  have hperm : (Entries.keys entries).Perm (parts.map fun p => p.1.2.1) := by
    have hall := memberParts_perm hS hkeys hnull hmem
    rw [← hfst, List.map_map] at hall
    exact hall
  have hone : m.typeOf S = .union → parts.length = 1 := by
    intro hu
    rw [hu] at hf
    exact absurd hf (by decide)
  refine ⟨.map { schema := S } (parts.map fun p => (p.1.2.1, p.2)),
    writes_members _ (.inl hf) hfst (hperm.nodup hkeys) hone fun p hp' => (hp p hp').writes, ?_⟩
  refine .map (.inr ⟨hf, by simpa [Entries.keys, Function.comp_def] using hperm⟩) ?_
  -- the entry under the name of a member is the one that was written for it
  intro e he e' he' hkey
  obtain ⟨p, hp', rfl⟩ := List.mem_map.mp he'
  have hin : p.1 ∈ memberParts m S entries := hfst ▸ List.mem_map_of_mem hp'
  have hfind := (mem_memberParts.mp hin).2.2.1
  have hvalue : e.2 = p.1.2.2 := by
    rw [← hkey, Entries.find?_of_mem hkeys he] at hfind
    exact Option.some.inj hfind
  rw [hvalue]
  exact (hp p hp').reordered

theorem rewrites_union {key : String} {d : Document} (hS : m.LaidOut S)
    (hf : (m.typeOf S).form = .union) (hm : m.member? S key = some member)
    (hnull : d.isNull = false) (h : ∃ d', Rewrites m member d d') :
    ∃ d', Rewrites m S (.map { schema := S } [(key, d)]) d' := by
  obtain ⟨d', hd⟩ := h
  refine ⟨.map { schema := S } [(key, d')], ?_, ?_⟩
  · have hfst : [((member, key, d), d')].map Prod.fst = memberParts m S [(key, d)] :=
      (memberParts_singleton hS hm hnull).symm
    exact writes_members _ (.inr hf) hfst (by simp) (fun _ => rfl)
      (List.forall_mem_singleton.mpr hd.writes)
  · have hvalue : ∀ p ∈ [(key, d, d')], Reordered m p.2.1 p.2.2 :=
      List.forall_mem_singleton.mpr hd.reordered
    exact .map_parts (by simp) hvalue

end

/-- A settled document without unknown tags is written as it is, up to order. -/
theorem Conforms.rewrites {d : Document} (h : d.Conforms m .settled S) :
    m.LaidOut S → d.unknownTags m S = [] → ∃ d', Rewrites m S d d' := by
  induction h with
  | @null S l hl =>
      obtain rfl : l = { schema := S } := hl
      refine fun _ _ => ⟨.null { schema := S }, ?_, .refl _⟩
      rw [calls_null]
      exact Writer.writes_null S
  | @anything S d hf hnull =>
      refine fun _ _ => ⟨d, ?_, .refl _⟩
      rw [calls_document hf hnull]
      exact Writer.writes_document rfl
  | @scalar S l v hf hl _ =>
      obtain rfl : l = { schema := S } := hl
      refine fun _ _ => ⟨.leaf { schema := S } v, ?_, .refl _⟩
      rw [calls_leaf hf]
      exact Writer.writes_scalar rfl
  | @members S l entries hf hl hkeys hnull hmem _ _ ih =>
      intro hS hu
      obtain rfl : l = { schema := S } := hl
      refine rewrites_structure hS hf hkeys hnull hmem fun e he member hm => ?_
      refine ih e he member hm (hS.member (Model.mem_of_member? hm).1) ?_
      refine Source.unknownTags_part hu (p := (member, e.2)) ?_
      rw [Source.partsUnder_structure hf]
      exact (Document.source m).mem_presentMembers.mpr ⟨e.1, he, hm, hnull e he⟩
  | @union S l key d hf hl hnull _ _ ih =>
      intro hS hu
      obtain rfl : l = { schema := S } := hl
      have hone := candidates_singleton (m := m) key hnull
      obtain ⟨member, hm⟩ := Source.exists_member_of_unknownTags hf hone hu
      refine rewrites_union hS hf hm hnull (ih member hm (hS.member (Model.mem_of_member? hm).1) ?_)
      refine Source.unknownTags_part hu (p := (member, d)) ?_
      rw [Source.partsUnder_union hf, Source.knownMember_of_some hone hm]
      exact List.mem_singleton_self _
  | @list S member l items hm hl hnull _ ih =>
      intro hS hu
      obtain rfl : l = { schema := S } := hl
      refine rewrites_list hm fun d hd => ih d hd (hS.member (Model.mem_of_listMember hm)) ?_
      refine Source.unknownTags_part hu (p := (member, d)) ?_
      rw [Source.partsUnder_list hm]
      exact List.mem_map_of_mem (List.mem_filter.mpr ⟨hd, Model.keeps_iff.mpr (hnull d hd)⟩)
  | @map S member l entries hm hl hkeys hnull _ ih =>
      intro hS hu
      obtain rfl : l = { schema := S } := hl
      refine rewrites_map hm hkeys fun e he => ih e he (hS.member (Model.mem_of_mapValue hm)) ?_
      refine Source.unknownTags_part hu (p := (member, e.2)) ?_
      rw [Source.partsUnder_map hm]
      exact List.mem_map.mpr ⟨e, List.mem_filter.mpr ⟨he, Model.keeps_iff.mpr (hnull e he)⟩, rfl⟩

end Document

/-! ### What is read is settled -/

theorem Source.keepsTo_settled {src : Source Label Leaf} (hl : src.Lawful m) :
    src.KeepsTo .settled where
  label _ := rfl
  anything _ t hnull := (hl.isNull_untyped t).trans hnull
  scalar _ _ := trivial
  unknown _ _ := trivial

/--
A document is read under a schema as itself and, unless a tag in it is unknown, written as itself up
to the order of members.
-/
def Document.Settled (m : Model) (S : SchemaRef) (d : Document) : Prop :=
  d.readAs m {} S = .ok d ∧
    (d.unknownTags m S = [] → ∃ d', d.writeAs m S = .ok d' ∧ d.Reordered m d')

/-- What has been read is settled if it nests no deeper than the usual limit. -/
theorem Reader.Reads.settled {src : Source Label Leaf} {s : Scope} {t : Tree Label Leaf}
    {d : Document} (h : Reads src s 0 S t d) (hl : src.Lawful s.model) (hS : s.model.LaidOut S)
    (ht : t.DistinctKeys) (hback : src.LeadsBack s.model S) (hu : src.UnionsByName s.model S)
    (hn : d.nestingUnder s.model S ≤ ({} : Config).maxDepth) : d.Settled s.model S := by
  constructor
  · -- a limit that leaves room for the first reading as well as for the usual one
    let config : Config := ({} : Config).limited (max s.config.maxDepth ({} : Config).maxDepth)
    have hagain : Reads (Document.source s.model) { model := s.model, config } 0 S d d :=
      h.reread hl ht hback hu (Nat.le_max_left ..)
    exact (hagain.readsUpTo ({} : Config).maxDepth).1 hn
  · intro htags
    have hconforms : d.Conforms s.model .settled S :=
      h.conforms hl (Source.keepsTo_settled hl) hS (hu.not_strays hl)
    obtain ⟨d', hd⟩ := hconforms.rewrites hS htags
    exact ⟨d', hd.writes.write_eq_ok, hd.reordered⟩

/--
Reading under a schema whose shapes are laid out is idempotent. A document that has been read within
whatever settings, from JSON in which the members of unions go by their names or from a document, is
settled, if it nests no deeper than a reader with the usual settings goes.
-/
theorem reading_idempotent {m : Model} {S : SchemaRef} (hS : m.LaidOut S) :
    (∀ (c : Codec) (j : Json) (d : Document), c.UnionsByName m S → j.DistinctKeys →
      c.ofJson m S j = .ok d → d.nestingUnder m S ≤ 64 → d.Settled m S) ∧
    ∀ (config : Config) (t d : Document), t.DistinctKeys →
      t.readAs m config S = .ok d → d.nestingUnder m S ≤ 64 → d.Settled m S := by
  constructor
  · intro c j d hu hj h hn
    exact (Reader.documentAt_eq_ok_iff.mp h).settled (Json.source_lawful m _ _) hS hj
      (Codec.source_leadsBack fun _ => hS.distinctNames) hu.source hn
  · intro config t d ht h hn
    exact (Reader.documentAt_eq_ok_iff.mp h).settled (Document.source_lawful m) hS ht
      (Document.source_leadsBack m S) (Document.source_unionsByName m S) hn

namespace Gallery

/-- A union of the gallery, none of whose members has a wire key of its own. -/
def part : SchemaRef :=
  schema model "t#Part"

/-- The schemas that parts lead to. -/
def partSchemas : List SchemaRef :=
  [.shape (.declared 23), .member (.declared 23) 0, .member (.declared 23) 1,
    .member (.declared 22) 0, .member (.declared 0) 0] ++
  (List.range 6).map (.member (.declared 12))

theorem unionsByName_part : ({} : Codec).UnionsByName model part := by
  have hclosed : ∀ t ∈ partSchemas, ∀ member ∈ model.members t, member ∈ partSchemas := by
    decide
  exact Model.everywhere_of_closed hclosed (by decide) (by decide)

/-- A part whose name comes last. -/
def widgetPart : Json :=
  .object [("widget", .object [("count", .number (.ofInt 3)), ("widgetName", .string "gear")])]

theorem distinctKeys_widgetPart : widgetPart.DistinctKeys := by
  have hwidget : (Json.object
      [("count", .number (.ofInt 3)), ("widgetName", .string "gear")]).DistinctKeys :=
    .map (by decide) (List.forall_mem_cons.mpr ⟨.leaf _ _, List.forall_mem_singleton.mpr
      (.leaf _ _)⟩)
  exact .map (by decide) (List.forall_mem_singleton.mpr hwidget)

/-- The document of the part is read as itself and written with the name first. -/
theorem reading_idempotent_part : ∃ d, ({} : Codec).ofJson model part widgetPart = .ok d ∧
    d.readAs model {} part = .ok d ∧
    ∃ d', d.writeAs model part = .ok d' ∧ d.Reordered model d' := by
  obtain ⟨d, hd, hnesting, htags⟩ : ∃ d, ({} : Codec).ofJson model part widgetPart = .ok d ∧
      d.nestingUnder model part ≤ 64 ∧ d.unknownTags model part = [] :=
    ⟨_, rfl, by decide, by decide⟩
  obtain ⟨hread, hwritten⟩ := (reading_idempotent (allLaidOut.laidOut part)).1 {} widgetPart d
    unionsByName_part distinctKeys_widgetPart hd hnesting
  exact ⟨d, hd, hread, hwritten htags⟩

end Gallery
end ShapeCodec
