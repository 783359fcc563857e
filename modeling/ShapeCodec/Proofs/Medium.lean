import ShapeCodec.Codec
import ShapeCodec.Proofs.Layout
import ShapeCodec.Proofs.Leaves
import ShapeCodec.Proofs.Traversal
import ShapeCodec.Proofs.Writing

/-!
# Media

Output together with the input it is read from again. What can be written and read back in any
medium depends on two things only: that scalars come back, and that members are found again under
the keys they were written under. Both are settled here for JSON and for documents.
-/

namespace ShapeCodec

/-- A way of writing trees and the way of reading them again. -/
structure Medium (Label Leaf : Type) where
  model : Model
  config : Config
  sink : Sink (Tree Label Leaf)
  source : Source Label Leaf
  /-- The label of what is written under a schema, scalars apart. -/
  label : SchemaRef → Label
  null_eq : ∀ schema, sink.null schema = .null (label schema)
  list_eq : ∀ schema items, sink.list schema items = .list (label schema) items
  map_eq : ∀ schema entries, sink.map schema entries = .map (label schema) entries

namespace Medium

variable {Label Leaf : Type} (M : Medium Label Leaf)

/-- How the medium is read. -/
def scope : Scope :=
  { model := M.model, config := M.config }

/-- A scalar that is written under a schema is read again as it was. -/
def Carries (schema : SchemaRef) (v : Scalar) : Prop :=
  ∃ t, M.sink.scalar schema v = .ok t ∧ t.isNull = false ∧
    M.source.scalar v.type schema t = .ok v

/-- Members are found under the keys they are written under, and no tag of a union is skipped. -/
def Keyed (schema : SchemaRef) : Prop :=
  (M.model.typeOf schema).isStructureLike = true → ∀ member ∈ M.model.members schema,
    ∃ key, M.sink.memberKey? member = some key ∧ M.source.member? schema key = some member ∧
      (M.model.typeOf schema = .union → M.source.ignoresKey key = false)

/-- A call writes a tree. -/
abbrev Writes (call : Call) (schema : SchemaRef) (t : Tree Label Leaf) : Prop :=
  Writer.Writes M.model M.sink call schema t

variable {M}

theorem writes_null (schema : SchemaRef) :
    M.Writes (.null schema) schema (.null (M.label schema)) :=
  M.null_eq schema ▸ Writer.writes_null schema

/-! ### Lists and maps -/

theorem writes_list (schema : SchemaRef) {member : SchemaRef}
    {parts : List (Call × Tree Label Leaf)}
    (h : ∀ p ∈ parts, M.Writes p.1 member p.2) :
    M.Writes (.list schema (parts.map Prod.fst)) schema
      (.list (M.label schema) (parts.map Prod.snd)) :=
  M.list_eq schema _ ▸ Writer.writes_list h

theorem writes_map (schema : SchemaRef) {member : SchemaRef}
    {parts : List (String × Call × Tree Label Leaf)}
    (h : ∀ p ∈ parts, M.Writes p.2.1 member p.2.2)
    (hn : (parts.map Prod.fst).Nodup) :
    M.Writes (.map schema (parts.map fun p => .entry p.1 [p.2.1])) schema
      (.map (M.label schema) (parts.map fun p => (p.1, p.2.2))) := by
  have hkeys : (Entries.keys (parts.map fun p => (p.1, p.2.2))).Nodup := by
    simpa [Entries.keys, Function.comp_def] using hn
  rw [← M.map_eq, ← Entries.ofList_of_nodup hkeys]
  exact Writer.writes_map h

/-- Items are all read again if the collection may hold those of them that were written as null. -/
theorem kept_items {α β : Type} {schema : SchemaRef} {null : α → Bool}
    {parts : List (α × Tree Label Leaf × β)} (ht : ∀ p ∈ parts, p.2.1.isNull = null p.1)
    (hn : ∀ a ∈ parts.map Prod.fst, null a = true → M.model.isSparse schema = true) :
    M.scope.kept schema Tree.isNull (parts.map fun p => p.2.1) =
      (parts.map Prod.snd).map fun q => .ok q.1 := by
  rw [M.scope.kept_of_forall, List.map_map, List.map_map]
  · rfl
  · refine List.forall_mem_map.mpr fun p hp hnull => ?_
    rw [ht p hp] at hnull
    exact hn p.1 (List.mem_map_of_mem hp) hnull

/-- The same for entries of maps. -/
theorem kept_entries {α β : Type} {schema : SchemaRef} {null : α → Bool}
    {parts : List ((String × α) × Tree Label Leaf × β)}
    (ht : ∀ p ∈ parts, p.2.1.isNull = null p.1.2)
    (hn : ∀ e ∈ parts.map Prod.fst, null e.2 = true → M.model.isSparse schema = true) :
    M.scope.kept schema (fun e => e.2.isNull) (parts.map fun p => (p.1.1, p.2.1)) =
      (parts.map fun p => (p.1.1, p.2)).map fun q => .ok (q.1, q.2.1) := by
  rw [M.scope.kept_of_forall, List.map_map, List.map_map]
  · rfl
  · refine List.forall_mem_map.mpr fun p hp hnull => ?_
    rw [ht p hp] at hnull
    exact hn p.1 (List.mem_map_of_mem hp) hnull

/-! ### Structures and unions -/

/-- Members that are not null are all read, in the order in which they were written. -/
theorem presentMembers_of_found {src : Source Label Leaf} {schema : SchemaRef}
    {parts : List (SchemaRef × String × Tree Label Leaf)}
    (hk : ∀ p ∈ parts, src.member? schema p.2.1 = some p.1)
    (hn : ∀ p ∈ parts, p.2.2.isNull = false) :
    src.presentMembers schema Tree.isNull (parts.map fun p => p.2) =
      parts.map fun p => (p.1, p.2.2) := by
  rw [Source.presentMembers, List.filterMap_map, ← List.filterMap_eq_map]
  refine List.filterMap_congr fun p hp => ?_
  simp [hk p hp, hn p hp]

variable (M) in
/-- The key of a member; it has one wherever it counts. -/
def keyOf (member : SchemaRef) : String :=
  (M.sink.memberKey? member).getD ""

theorem Keyed.keyOf {schema member : SchemaRef} (hS : M.Keyed schema)
    (hf : (M.model.typeOf schema).isStructureLike = true) (hm : member ∈ M.model.members schema) :
    M.sink.memberKey? member = some (M.keyOf member) ∧
      M.source.member? schema (M.keyOf member) = some member ∧
      (M.model.typeOf schema = .union → M.source.ignoresKey (M.keyOf member) = false) := by
  obtain ⟨key, hkey, hfound, hu⟩ := hS hf member hm
  have heq : M.keyOf member = key := by rw [Medium.keyOf, hkey, Option.getD_some]
  rw [heq]
  exact ⟨hkey, hfound, hu⟩

/-- What is written for members of a structure is read as just these members. -/
theorem writes_structure {schema : SchemaRef} {parts : List (SchemaRef × Call × Tree Label Leaf)}
    (hS : M.Keyed schema) (hf : (M.model.typeOf schema).form = .structure)
    (hmem : ∀ p ∈ parts, p.1 ∈ M.model.members schema) (hn : (parts.map Prod.fst).Nodup)
    (hw : ∀ p ∈ parts, M.Writes p.2.1 p.1 p.2.2) (hnull : ∀ p ∈ parts, p.2.2.isNull = false) :
    ∃ entries, M.Writes (.structure schema (parts.map fun p => p.2.1)) schema
        (.map (M.label schema) entries) ∧
      M.source.presentMembers schema Tree.isNull entries = parts.map fun p => (p.1, p.2.2) := by
  have ht := ShapeType.form_eq_structure.mp hf
  have hlike : (M.model.typeOf schema).isStructureLike = true := by rw [ht]; rfl
  have hkey : ∀ p ∈ parts, M.sink.memberKey? p.1 = some (M.keyOf p.1) :=
    fun p hp => (hS.keyOf hlike (hmem p hp)).1
  -- the parts with their keys, once as they are written and once as they are read
  let keyed := parts.map fun p => (p.1, p.2.1, M.keyOf p.1, p.2.2)
  let found := parts.map fun p => (p.1, M.keyOf p.1, p.2.2)
  have hfound : ∀ p ∈ found, M.source.member? schema p.2.1 = some p.1 :=
    List.forall_mem_map.mpr fun p hp => (hS.keyOf hlike (hmem p hp)).2.1
  have hpresent : ∀ p ∈ found, p.2.2.isNull = false := List.forall_mem_map.mpr hnull
  have hkeys : (Entries.keys (keyed.map fun p => p.2.2)).Nodup := by
    have hfst : found.map Prod.fst = parts.map Prod.fst := by simp [found]
    have hnodup := Model.nodup_keys_of_found hfound (hfst ▸ hn)
    simpa [keyed, found, Function.comp_def] using hnodup
  have hone : M.model.typeOf schema = .union → keyed.length = 1 := by
    intro hu
    rw [ht] at hu
    exact absurd hu (by decide)
  have hwritten : M.Writes (.structure schema (keyed.map fun p => p.2.1)) schema
      (M.sink.map schema (keyed.map fun p => p.2.2)) :=
    Writer.writes_structure (List.forall_mem_map.mpr hw) (List.forall_mem_map.mpr hkey) hkeys hone
  have hcalls : (keyed.map fun p => p.2.1) = parts.map fun p => p.2.1 := by
    simp [keyed, Function.comp_def]
  have hentries : (keyed.map fun p => p.2.2) = found.map fun p => p.2 := by
    simp [keyed, found, Function.comp_def]
  rw [hcalls, hentries, M.map_eq] at hwritten
  refine ⟨_, hwritten, ?_⟩
  rw [presentMembers_of_found hfound hpresent]
  simp [found, Function.comp_def]

/-- What is written for a member of a union is read as that member. -/
theorem writes_union {schema member : SchemaRef} {call : Call} {t : Tree Label Leaf}
    (hS : M.Keyed schema) (hf : (M.model.typeOf schema).form = .union)
    (hmem : member ∈ M.model.members schema) (hw : M.Writes call member t)
    (hnull : t.isNull = false) :
    ∃ key, M.Writes (.structure schema [call]) schema (.map (M.label schema) [(key, t)]) ∧
      M.source.candidates Tree.isNull [(key, t)] = [(key, t)] ∧
      M.source.member? schema key = some member := by
  have ht := ShapeType.form_eq_union.mp hf
  have hlike : (M.model.typeOf schema).isStructureLike = true := by rw [ht]; rfl
  obtain ⟨hkey, hfound, hcounts⟩ := hS.keyOf hlike hmem
  let one := [(member, call, M.keyOf member, t)]
  have hwritten : M.Writes (.structure schema (one.map fun p => p.2.1)) schema
      (M.sink.map schema (one.map fun p => p.2.2)) :=
    Writer.writes_structure (by simpa [one] using hw) (by simpa [one] using hkey)
      (by simp [one, Entries.keys]) (fun _ => rfl)
  refine ⟨M.keyOf member, ?_, ?_, hfound⟩
  · rw [← M.map_eq]
    exact hwritten
  · simp [Source.candidates, hnull, hcounts ht]

end Medium

/-! ### Documents -/

/-- Documents, which keep the schema of every part. -/
def Document.medium (m : Model) (config : Config) : Medium Label Scalar where
  model := m
  config := config
  sink := Document.sink m
  source := Document.source m
  label := fun schema => { schema }
  null_eq _ := rfl
  list_eq _ _ := rfl
  map_eq _ _ := rfl

theorem Document.readScalar_leaf (m : Model) (l : Label) (v : Scalar) :
    Document.readScalar m v.type (.leaf l v) = .ok v := by
  unfold Document.readScalar
  split
  · rename_i ht
    cases v with
    | timestamp t => rfl
    | _ => simp [Scalar.type] at ht
  · exact Scalar.as_type v

/-- Scalars are kept as they are. -/
theorem Document.carries (m : Model) (config : Config) (schema : SchemaRef) (v : Scalar) :
    (Document.medium m config).Carries schema v :=
  ⟨.leaf { schema } v, rfl, rfl, Document.readScalar_leaf m _ v⟩

/-- Where names are distinct, every member is found by its name. -/
theorem Document.keyed {m : Model} {schema : SchemaRef} (h : m.DistinctNames schema)
    (config : Config) : m.Everywhere (Document.medium m config).Keyed schema := by
  intro t ht hlike member hmem
  obtain ⟨name, hname⟩ := Model.memberName?_of_mem hmem
  exact ⟨name, hname, Model.member?_of_mem (h t ht hlike) hmem hname, fun _ => rfl⟩

/-! ### JSON -/

namespace Codec

/-- JSON, as a codec writes and reads it. -/
def medium (c : Codec) (m : Model) : Medium Unit Json.Leaf where
  model := m
  config := c.config
  sink := (c.scope m).sink
  source := c.source m
  label := fun _ => ()
  null_eq _ := rfl
  list_eq _ _ := rfl
  map_eq _ _ := rfl

/-- Plain scalars are kept. -/
theorem carries {c : Codec} {m : Model} {schema : SchemaRef} {v : Scalar}
    (h : v.Plain (c.config.timestampFormatFor m schema)) : (c.medium m).Carries schema v :=
  ⟨Json.ofScalar (c.config.timestampFormatFor m schema) v, rfl, Json.ofScalar_isNull _ _,
    Json.readScalar_ofScalar h⟩

end Codec

/-- Members of a structure or union have distinct keys, and none of a union the reserved one. -/
def Shape.Unambiguous (wireNames : Bool) (s : Shape) : Prop :=
  s.type.isStructureLike = true →
    (s.memberList.map (Member.key wireNames)).Nodup ∧
      (s.type = .union → Json.typeKey ∉ s.memberList.map (Member.key wireNames))

instance (wireNames : Bool) (s : Shape) : Decidable (s.Unambiguous wireNames) := by
  unfold Shape.Unambiguous
  infer_instance

theorem PreludeShape.unambiguous (wireNames : Bool) (p : PreludeShape) :
    p.shape.Unambiguous wireNames := by
  intro hlike
  have hnone : p.shape.memberList = [] := by
    cases p with
    | unit => rfl
    | scalar type => cases type <;> rfl
    | document => rfl
    | documentList => exact absurd hlike (by decide)
    | documentMap => exact absurd hlike (by decide)
  rw [hnone]
  exact ⟨List.nodup_nil, fun _ => List.not_mem_nil⟩

namespace Codec

/-- The keys that a codec uses are unambiguous for a schema and all that it reaches. -/
def Unambiguous (c : Codec) (m : Model) : SchemaRef → Prop :=
  m.Everywhere fun t => ∀ key, m.table? t = some key → (m.shape key).Unambiguous c.wireNames

/-- It is enough to look at the declared shapes. -/
theorem unambiguous_of_shapes {c : Codec} {m : Model}
    (h : ∀ s ∈ m.shapes.toList, s.Unambiguous c.wireNames) (schema : SchemaRef) :
    c.Unambiguous m schema :=
  fun _ _ key _ => Model.forall_shape (PreludeShape.unambiguous c.wireNames)
    (fun s hs => h s (Array.mem_toList_iff.mpr hs)) key

/-- Where keys are unambiguous, every member is found by its key. -/
theorem Unambiguous.keyed {c : Codec} {m : Model} {schema : SchemaRef}
    (h : c.Unambiguous m schema) : m.Everywhere (c.medium m).Keyed schema := by
  intro t ht hlike member hmem
  obtain ⟨d, hd, hdecl⟩ := Model.declarationOf?_of_mem (m := m) hmem
  -- the shape whose declarations are shown at `t`
  obtain ⟨key, htable⟩ : ∃ key, m.table? t = some key := by
    obtain ⟨i, hi⟩ := Model.mem_members_iff.mp hmem
    obtain ⟨key, htable, -, -⟩ := Model.memberAt?_eq_some_iff.mp hi
    exact ⟨key, htable⟩
  have hlike : (m.typeOf t).isStructureLike = true := hlike
  rw [Model.typeOf_of_table? htable] at hlike
  obtain ⟨hn, hreserved⟩ := h t ht key htable hlike
  have hdecls := Model.declarations_of_table? htable
  rw [hdecls] at hd
  -- the wire key or the name, by the settings of the codec
  have hkey : (m.declarationOf? member).map (Member.key c.wireNames) =
      some (d.key c.wireNames) := by
    rw [hdecl]
    rfl
  refine ⟨d.key c.wireNames, Model.memberKey?_of_declarationOf? hdecl,
    Model.memberByKey?_of_mem (hdecls.symm ▸ hn) hmem hkey, ?_⟩
  intro hu
  have hu : m.typeOf t = .union := hu
  rw [Model.typeOf_of_table? htable] at hu
  have hin : d.key c.wireNames ∈ (m.shape key).memberList.map (Member.key c.wireNames) :=
    List.mem_map_of_mem hd
  have hne : d.key c.wireNames ≠ Json.typeKey := fun he => hreserved hu (he ▸ hin)
  exact beq_false_of_ne hne

end Codec
end ShapeCodec
