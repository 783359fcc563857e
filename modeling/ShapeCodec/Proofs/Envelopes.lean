import ShapeCodec.Gallery.Types
import ShapeCodec.Proofs.Untagging
import ShapeCodec.Proofs.WrittenUnder
import ShapeCodec.Typed.Registry

/-!
# Envelopes opened again

What is taken out of an envelope is what was put in. The two forms of envelope are told apart by
their keys alone, so there is one exception: a structure that is written with the single key
`__value` looks like a value in an envelope once the id of its type stands next to it.
-/

namespace ShapeCodec

/-! ### Tagged values -/

namespace Json

/-- The key and the text of the id that a value is tagged with. -/
def tag (m : Model) (S : SchemaRef) : String × Json :=
  (typeKey, .string (m.shapeId S).text)

/-- Whether the id of its type goes among the members of a value. -/
def embeds (m : Model) (S : SchemaRef) (j : Json) : Bool :=
  (m.typeOf S).isStructureLike && j.members?.isSome

/-- The value without the id of its type. -/
def untagged : Json → Json
  | .object members => .object (Entries.erase typeKey members)
  | j => j

/-- Where the id goes among the members, no member has its key. -/
def Taggable (m : Model) (S : SchemaRef) (j : Json) : Prop :=
  (m.typeOf S).isStructureLike = true → ∀ members, j = .object members →
    (Entries.keys members).Nodup ∧ typeKey ∉ Entries.keys members

/-- A structure that holds one member, which goes by the key of the value in an envelope. -/
def Mistakable (m : Model) (S : SchemaRef) (j : Json) : Prop :=
  (m.typeOf S).isStructureLike = true ∧ ∃ x, j = .object [(valueKey, x)]

section
variable {m : Model} {S : SchemaRef} {j : Json} {members : List (String × Json)}

theorem of_embeds (h : j.embeds m S = true) :
    (m.typeOf S).isStructureLike = true ∧ ∃ members, j = .object members := by
  rw [embeds, Bool.and_eq_true] at h
  refine ⟨h.1, ?_⟩
  cases j with
  | map l members => exact ⟨members, rfl⟩
  | null l => simp [members?] at h
  | leaf l v => simp [members?] at h
  | list l items => simp [members?] at h

theorem nodup_keys_tag (hk : (Entries.keys members).Nodup ∧ typeKey ∉ Entries.keys members) :
    (Entries.keys (tag m S :: members)).Nodup :=
  List.nodup_cons.mpr ⟨hk.2, hk.1⟩

theorem wrap_object (hS : (m.typeOf S).isStructureLike = true)
    (hk : (Entries.keys members).Nodup ∧ typeKey ∉ Entries.keys members) :
    wrap m S (.object members) = .object (tag m S :: members) := by
  unfold wrap
  rw [Model.typeOf_described, hS]
  show Json.object (Entries.ofList (tag m S :: members)) = _
  rw [Entries.ofList_of_nodup (nodup_keys_tag hk)]

theorem wrap_of_not_embeds (h : j.embeds m S = false) :
    wrap m S j = .object [tag m S, (valueKey, j)] := by
  unfold wrap
  rw [Model.typeOf_described]
  cases j with
  | map l members =>
      have hS : (m.typeOf S).isStructureLike = false := by simpa [embeds, members?] using h
      rw [hS]
      rfl
  | null l => rfl
  | leaf l v => rfl
  | list l items => rfl

/-! ### Taking values out -/

/-- An id that is accepted is read as it stands. -/
theorem parse_text {id found : ShapeId} (h : ShapeId.parse id.text = .ok found) :
    ShapeId.parse id.text = .ok id := by
  unfold ShapeId.parse ShapeId.parse? at h ⊢
  by_cases hw : ShapeId.wellFormed id.text = true
  · rw [if_pos hw]
  · rw [if_neg hw] at h
    cases h

theorem discriminator_tagged {id : ShapeId} (hid : ShapeId.parse (m.shapeId S).text = .ok id)
    (members : List (String × Json)) :
    discriminator (.object (tag m S :: members)) = .ok (some (m.shapeId S)) := by
  show (ShapeId.parse (m.shapeId S).text).map some = _
  rw [parse_text hid]
  rfl

theorem payload_envelope (x : Json) : payload (.object [tag m S, (valueKey, x)]) = x := rfl

/-- Next to the id of their type, members stay where they are. -/
theorem payload_tagged (h : ∀ x, members ≠ [(valueKey, x)]) :
    payload (.object (tag m S :: members)) = .object (tag m S :: members) := by
  rw [payload]
  simp only [members?]
  split
  · rename_i htwo
    rw [Bool.and_eq_true, decide_eq_true_eq] at htwo
    obtain ⟨⟨key, x⟩, rfl⟩ := List.length_eq_one_iff.mp (Nat.succ_injective htwo.1)
    have hne : key ≠ valueKey := fun heq => h x (heq ▸ rfl)
    have htag : typeKey ≠ valueKey := by decide
    simp [Entries.find?, tag, hne, htag]
  · rfl

theorem untagged_tagged (members : List (String × Json)) :
    untagged (.object (tag m S :: members)) = .object members := rfl

theorem nesting_untagged_le (j : Json) : j.untagged.nesting ≤ j.nesting := by
  cases j with
  | map l members =>
      have hle : ∀ e ∈ Entries.erase typeKey members,
          e.2.nesting ≤ (Tree.map l members).nesting - 1 := fun e he =>
        Nat.le_sub_one_of_lt (Tree.nesting_entry_lt (Entries.mem_of_mem_erase he))
      have := Tree.nesting_map_le l hle
      have hpos : 1 ≤ (Tree.map l members).nesting := by
        rw [Tree.nesting_map]
        omega
      show (Tree.map l (Entries.erase typeKey members)).nesting ≤ _
      omega
  | null l => exact Nat.le_refl _
  | leaf l v => exact Nat.le_refl _
  | list l items => exact Nat.le_refl _

/-- No value is its own only part. -/
theorem untagged_ne_object (x : Json) : x.untagged ≠ .object [(valueKey, x)] := by
  intro h
  have hle := nesting_untagged_le x
  have hlt := Tree.nesting_entry_lt (l := ()) (List.mem_singleton_self (valueKey, x))
  rw [h] at hle
  exact absurd hlt (Nat.not_lt.mpr hle)

/-! ### Envelopes in text -/

theorem merged_object (hn : (Entries.keys members).Nodup) :
    merged (.object members) = .object (members.map fun e => (e.1, merged e.2)) := by
  have hkeys : Entries.keys (members.map fun e => (e.1, merged e.2)) = Entries.keys members := by
    simp [Entries.keys, Function.comp_def]
  rw [object, merged_map, Entries.ofList_of_nodup (hkeys ▸ hn)]
  rfl

theorem embeds_merged (j : Json) : j.merged.embeds m S = j.embeds m S := by
  cases j with
  | null l => rw [merged_null]
  | leaf l v => rw [merged_leaf]
  | list l items =>
      rw [merged_list]
      rfl
  | map l members =>
      rw [merged_map]
      rfl

theorem Taggable.merged (h : j.Taggable m S) : j.merged.Taggable m S := by
  intro hS members hj
  cases j with
  | map l es =>
      have hk := h hS es rfl
      rw [← object, merged_object hk.1] at hj
      obtain rfl : es.map (fun e => (e.1, Json.merged e.2)) = members := by
        injection hj
      simpa [Entries.keys, Function.comp_def] using hk
  | null l => rw [merged_null] at hj; cases hj
  | leaf l v => rw [merged_leaf] at hj; cases hj
  | list l items => rw [merged_list] at hj; cases hj

theorem mistakable_of_merged (h : j.Taggable m S) (hm : j.merged.Mistakable m S) :
    j.Mistakable m S := by
  obtain ⟨hS, x, hx⟩ := hm
  refine ⟨hS, ?_⟩
  cases j with
  | map l es =>
      rw [← object, merged_object (h hS es rfl).1] at hx
      have hes : es.map (fun e => (e.1, Json.merged e.2)) = [(valueKey, x)] := by injection hx
      obtain ⟨⟨key, y⟩, rfl, he⟩ := List.map_eq_singleton_iff.mp hes
      obtain rfl : key = valueKey := congrArg Prod.fst he
      exact ⟨y, rfl⟩
  | null l => rw [merged_null] at hx; cases hx
  | leaf l v => rw [merged_leaf] at hx; cases hx
  | list l items => rw [merged_list] at hx; cases hx

/-- A text merges the members of an envelope as those of the value in it. -/
theorem merged_wrap (h : j.Taggable m S) : (j.wrap m S).merged = j.merged.wrap m S := by
  cases hj : j.embeds m S with
  | true =>
      obtain ⟨hS, members, rfl⟩ := of_embeds hj
      have hk := h hS members rfl
      have hk' := h.merged hS _ (merged_object hk.1)
      rw [wrap_object hS hk, merged_object (nodup_keys_tag hk), merged_object hk.1,
        wrap_object hS hk']
      rfl
  | false =>
      have hn : (Entries.keys [tag m S, (valueKey, j)]).Nodup := by
        show [typeKey, valueKey].Nodup
        decide
      rw [wrap_of_not_embeds hj, wrap_of_not_embeds ((embeds_merged j).trans hj), merged_object hn]
      rfl

/-- The id of its type next to members does not make a value nest deeper; an envelope does. -/
theorem nesting_wrap (h : j.Taggable m S) :
    (j.wrap m S).nesting = if j.embeds m S then j.nesting else j.nesting + 1 := by
  have hleaf : (tag m S).2.nesting = 0 := by simp [tag, Json.string, Tree.nesting]
  cases hj : j.embeds m S with
  | true =>
      obtain ⟨hS, members, rfl⟩ := of_embeds hj
      rw [wrap_object hS (h hS members rfl), if_pos rfl, Json.object, Json.object, Tree.nesting_map,
        Tree.nesting_map, List.map_cons, List.foldr_cons, hleaf, Nat.zero_max]
  | false =>
      rw [wrap_of_not_embeds hj, Json.object, Tree.nesting_map]
      simp only [List.map_cons, List.map_nil, List.foldr_cons, List.foldr_nil, hleaf]
      simp only [Bool.false_eq_true, if_false]
      omega

end

end Json

namespace Json

theorem ofScalar_ne_object (format : TimestampFormat) (v : Scalar)
    (members : List (String × Json)) : ofScalar format v ≠ .object members := by
  have hfloat : ∀ {f : Binary.Format} (style : Binary.Style) (x : Binary f),
      ofFloat style x ≠ .object members := by
    intro f style x h
    cases x <;> cases h
  cases v with
  | float x => exact hfloat .plain x
  | double x => exact hfloat .wire x
  | timestamp t =>
      intro h
      rw [ofScalar] at h
      unfold ofInstant at h
      split at h
      · split at h
        · cases h
        · exact hfloat _ _ h
      · cases h
  | _ =>
      intro h
      cases h

/-- What is written under a schema can be tagged, unless a member has the key of the tag. -/
theorem taggable_of_toJson {c : Codec} {m : Model} {S : SchemaRef} {call : Call} {v : Json}
    (hvalue : call.isValue = true) (hunder : call.Under m S) (h : c.toJson m call = .ok v)
    (hno : ∀ member ∈ m.members S, (c.scope m).memberKey? member ≠ some typeKey) :
    v.Taggable m S := by
  rintro hS members rfl
  have hdenote : Writer.write m (c.scope m).sink call = .ok (.object members) := h
  rw [Writer.write_eq_denote hvalue] at hdenote
  obtain ⟨⟨schema, j⟩, hdenote, rfl⟩ := Result.map_eq_ok.mp hdenote
  cases call with
  | «structure» s calls =>
      obtain ⟨-, pairs, hpairs, hobject⟩ := Writer.of_denote_structure hdenote
      have hmembers : members = Entries.ofList pairs := by injection hobject
      subst hmembers
      refine ⟨Entries.nodup_keys_ofList pairs, fun hkey => ?_⟩
      obtain ⟨e, he, hfst⟩ := List.mem_map.mp hkey
      have hpair := Entries.mem_keys_of_mem (Entries.mem_of_mem_ofList he)
      rw [hfst] at hpair
      obtain ⟨call, hc, s', hs', hk⟩ := Writer.memberKey?_of_denoteMembers hpairs hpair
      exact hno s' (hunder call hc s' hs') hk
  | scalar s v =>
      rw [Writer.denote] at hdenote
      exact absurd (congrArg Prod.snd (Except.ok.inj hdenote)) (ofScalar_ne_object _ v members)
  | null s =>
      rw [Writer.denote] at hdenote
      cases congrArg Prod.snd (Except.ok.inj hdenote)
  | list s elements =>
      rw [Writer.denote] at hdenote
      obtain ⟨values, -, hdenote⟩ := Result.bind_eq_ok.mp hdenote
      cases congrArg Prod.snd (Except.ok.inj hdenote)
  | map s entries => exact absurd (hunder.symm.trans hS) Bool.false_ne_true
  | document s d => exact absurd (hunder.symm.trans hS) Bool.false_ne_true
  | entry key value => rw [Writer.denote] at hdenote; cases hdenote
  | attempt call => rw [Writer.denote] at hdenote; cases hdenote
  | fail e => rw [Writer.denote] at hdenote; cases hdenote

/-! ### Opening envelopes -/

/-- Tagging a value under a schema is undone, unless the tagged value passes for an envelope. -/
structure Undone (c : Codec) (m : Model) (S : SchemaRef) (v : Json) : Prop where
  discriminator : (v.wrap m S).discriminator = .ok (some (m.shapeId S))
  /-- A value in an envelope is taken out of it. -/
  enveloped : v.embeds m S = false → (v.wrap m S).payload = v
  /-- The id next to members stays there, and taking it away leaves the value. -/
  embedded : v.embeds m S = true →
    ((v.wrap m S).payload.untagged = v ↔ ¬ v.Mistakable m S)
  /-- The one member that passes for the value in an envelope is taken out instead. -/
  mistaken : ∀ x, (m.typeOf S).isStructureLike = true → v = .object [(valueKey, x)] →
    (v.wrap m S).payload = x
  document : ¬ v.Mistakable m S → c.ofJson m S (v.wrap m S).payload = c.ofJson m S v
  typed : ¬ v.Mistakable m S → ∀ types type,
    Typed.ofJson m types type S c (v.wrap m S).payload = Typed.ofJson m types type S c v

section
variable {c : Codec} {m : Model} {S : SchemaRef} {v : Json}

theorem wrap_mistakable {x : Json} (hS : (m.typeOf S).isStructureLike = true) :
    wrap m S (.object [(valueKey, x)]) = .object [tag m S, (valueKey, x)] :=
  wrap_object hS ⟨List.nodup_singleton _, by
    show typeKey ∉ [valueKey]
    decide⟩

/-- Members that do not pass for an envelope stay next to the id of their type. -/
theorem payload_wrap_object {members : List (String × Json)}
    (hv : Taggable m S (.object members)) (hS : (m.typeOf S).isStructureLike = true)
    (hm : ¬ Mistakable m S (.object members)) :
    (wrap m S (.object members)).payload = .object (tag m S :: members) := by
  rw [wrap_object hS (hv hS members rfl)]
  exact payload_tagged fun x hx => hm ⟨hS, x, by rw [hx]⟩

/-- What is taken out is the value itself or the value with the id next to its members. -/
theorem payload_wrap (hv : v.Taggable m S) (hm : ¬ v.Mistakable m S) :
    (v.wrap m S).payload = v ∨
      (m.typeOf S).isStructureLike = true ∧ ∃ members, v = .object members ∧
        (v.wrap m S).payload = .object (tag m S :: members) := by
  cases hj : v.embeds m S with
  | false =>
      rw [wrap_of_not_embeds hj]
      exact .inl (payload_envelope v)
  | true =>
      obtain ⟨hS, members, rfl⟩ := of_embeds hj
      exact .inr ⟨hS, members, rfl, payload_wrap_object hv hS hm⟩

theorem discriminator_wrap {id : ShapeId} (hid : ShapeId.parse (m.shapeId S).text = .ok id)
    (hv : v.Taggable m S) : (v.wrap m S).discriminator = .ok (some (m.shapeId S)) := by
  cases hj : v.embeds m S with
  | false =>
      rw [wrap_of_not_embeds hj]
      exact discriminator_tagged hid _
  | true =>
      obtain ⟨hS, members, rfl⟩ := of_embeds hj
      rw [wrap_object hS (hv hS members rfl)]
      exact discriminator_tagged hid members

/-- Where no member has the key of the id, values are read past it. -/
theorem typed_payload (hno : m.memberByKey? c.wireNames S typeKey = none) (hv : v.Taggable m S)
    (hm : ¬ v.Mistakable m S) (types : Typed.Table) (type : Typed.ValueType) :
    Typed.ofJson m types type S c (v.wrap m S).payload = Typed.ofJson m types type S c v := by
  rcases payload_wrap hv hm with h | ⟨hS, members, rfl, h⟩
  · rw [h]
  · rw [h]
    exact Typed.valueWith_typeKey hS hno rfl ..

theorem undone_of_taggable {id : ShapeId} (hid : ShapeId.parse (m.shapeId S).text = .ok id)
    (hno : m.memberByKey? c.wireNames S typeKey = none) (hv : v.Taggable m S) :
    v.Undone c m S where
  discriminator := discriminator_wrap hid hv
  enveloped hj := by
    rw [wrap_of_not_embeds hj]
    exact payload_envelope v
  embedded hj := by
    obtain ⟨hS, members, rfl⟩ := of_embeds hj
    constructor
    · rintro h ⟨-, x, hx⟩
      rw [hx, wrap_mistakable hS, payload_envelope] at h
      exact untagged_ne_object x h
    · intro hm
      rw [payload_wrap_object hv hS hm, untagged_tagged]
  mistaken x hS hx := by
    rw [hx, wrap_mistakable hS, payload_envelope]
  document hm := by
    rcases payload_wrap hv hm with h | ⟨hS, members, rfl, h⟩
    · rw [h]
    · rw [h]
      exact documentAt_typeKey hS hno rfl ..
  typed hm := typed_payload hno hv hm

theorem memberByKey?_typeKey
    (h : ∀ member ∈ m.members S, (c.scope m).memberKey? member ≠ some typeKey) :
    m.memberByKey? c.wireNames S typeKey = none := by
  cases hmember : m.memberByKey? c.wireNames S typeKey with
  | none => rfl
  | some member =>
      obtain ⟨hmem, hkey⟩ := Model.mem_of_memberByKey? hmember
      obtain ⟨d, hd, hkey⟩ := Option.map_eq_some_iff.mp hkey
      exact absurd (hkey ▸ Model.memberKey?_of_declarationOf? hd) (h member hmem)

end

end Json

/-! ### Registered types -/

namespace Typed

variable {c : Codec} {m : Model} {types : Table} {r : TypeRegistry}

/-- A text is read as the type that it names. -/
theorem decode_of_parse {bytes : Bytes} {raw : Json} {id : ShapeId}
    (hparse : Codec.parse bytes = .ok raw) (hid : raw.discriminator = .ok (some id)) :
    r.decode c m types bytes =
      r.readAs (c.source m) { model := m, config := c.config, types } id raw.payload := by
  unfold TypeRegistry.decode Codec.decodeDocument ParsedDocument.ofJson
  simp only [hparse, hid, Result.ok_bind]
  rfl

theorem parse_of_decode {bytes : Bytes} {x : Dynamic} (h : r.decode c m types bytes = .ok x) :
    ∃ raw, Codec.parse bytes = .ok raw := by
  obtain ⟨parsed, hparsed, -⟩ := Result.bind_eq_ok.mp h
  obtain ⟨raw, hraw, -⟩ := Result.bind_eq_ok.mp hparsed
  exact ⟨raw, hraw⟩

/-- What a registered value is written as can be tagged. -/
theorem taggable_of_registered {x : Dynamic} {v : Json} {bytes : Bytes}
    (hschema : types.schemaOf? x.entry.type = some x.entry.schema)
    (hno : ∀ member ∈ m.members x.entry.schema, (c.scope m).memberKey? member ≠ some Json.typeKey)
    (hv : c.toJson m (x.calls m types) = .ok v)
    (hback : decode m types x.entry.type x.entry.schema c bytes = .ok x.value) :
    v.Taggable m x.entry.schema := by
  obtain ⟨j, -, hread⟩ := Result.bind_eq_ok.mp hback
  have hbound := boundTo_of_read hschema hread
  exact Json.taggable_of_toJson (Value.calls_sound x.value x.entry.schema).isValue
    (Value.calls_under x.value hbound) hv hno

/-- A value that comes back from its own text comes back from its tagged text as well. -/
theorem decode_encode {x : Dynamic} {v : Json} {id : ShapeId}
    (hid : ShapeId.parse (m.shapeId x.entry.schema).text = .ok id)
    (hschema : types.schemaOf? x.entry.type = some x.entry.schema)
    (hno : ∀ member ∈ m.members x.entry.schema, (c.scope m).memberKey? member ≠ some Json.typeKey)
    (hget : r.get (m.shapeId x.entry.schema) = .ok x.entry)
    (hv : c.toJson m (x.calls m types) = .ok v)
    (hback : decode m types x.entry.type x.entry.schema c (Bytes.ofString (c.print v)) =
      .ok x.value)
    (hm : ¬ v.Mistakable m x.entry.schema) :
    r.decode c m types (Bytes.ofString (c.print (v.wrap m x.entry.schema))) = .ok x ↔
      v.embeds m x.entry.schema = true ∨ v.nesting < Json.maxDepth := by
  have htag := taggable_of_registered hschema hno hv hback
  obtain ⟨j, hparse, hread⟩ := Result.bind_eq_ok.mp hback
  obtain ⟨rfl, hdepth⟩ := (Json.parse_print_iff c).mp hparse
  have hnesting := Json.nesting_wrap htag
  constructor
  · intro h
    obtain ⟨raw, hraw⟩ := parse_of_decode h
    have hle := ((Json.parse_print_iff c).mp hraw).2
    cases hj : v.embeds m x.entry.schema with
    | true => exact .inl rfl
    | false =>
        simp only [hj, Bool.false_eq_true, if_false] at hnesting
        exact .inr (by omega)
  · intro h
    have hle : (v.wrap m x.entry.schema).nesting ≤ Json.maxDepth := by
      rw [hnesting]
      split
      · exact hdepth
      · rename_i hj
        exact h.resolve_left hj
    have hraw := Json.parse_print c hle
    -- the text denotes the envelope of what the untagged text denotes
    rw [Json.merged_wrap htag] at hraw
    have hmerged := htag.merged
    rw [decode_of_parse hraw (Json.discriminator_wrap hid hmerged), TypeRegistry.readAs, hget]
    have hpayload := Json.typed_payload (Json.memberByKey?_typeKey hno) hmerged
      (fun h => hm (Json.mistakable_of_merged htag h)) types x.entry.type
    have hvalue := hpayload.trans hread
    unfold ofJson at hvalue
    simp only [Result.ok_bind, hvalue]
    rfl

end Typed

/--
Whatever is written under a schema whose id is well formed and that has no member with the key of
the id: tagging it is undone by untagging, with the one exception of values that pass for an
envelope. Registered values that come back untagged come back tagged, if the text may nest as deep.
-/
theorem tagging_undone (c : Codec) (m : Model) (S : SchemaRef)
    (hid : ∃ id, ShapeId.parse (m.shapeId S).text = .ok id)
    (hno : ∀ member ∈ m.members S, (c.scope m).memberKey? member ≠ some Json.typeKey) :
    (∀ (call : Call) (v : Json), call.isValue = true → call.Under m S → c.toJson m call = .ok v →
      v.Undone c m S) ∧
    ∀ (types : Typed.Table) (r : Typed.TypeRegistry) (x : Typed.Dynamic) (v : Json),
      x.entry.schema = S → types.schemaOf? x.entry.type = some S →
      r.get (m.shapeId S) = .ok x.entry → c.toJson m (x.calls m types) = .ok v →
      Typed.decode m types x.entry.type S c (Bytes.ofString (c.print v)) = .ok x.value →
      v.Undone c m S ∧ (¬ v.Mistakable m S → ∃ text, x.encode c m types = .ok text ∧
        (r.decode c m types (Bytes.ofString text) = .ok x ↔
          v.embeds m S = true ∨ v.nesting < Json.maxDepth)) := by
  obtain ⟨id, hid⟩ := hid
  have hkey := Json.memberByKey?_typeKey hno
  constructor
  · intro call v hvalue hunder hv
    exact Json.undone_of_taggable hid hkey (Json.taggable_of_toJson hvalue hunder hv hno)
  · rintro types r x v rfl hschema hget hv hback
    have htag := Typed.taggable_of_registered hschema hno hv hback
    refine ⟨Json.undone_of_taggable hid hkey htag, fun hm =>
      ⟨c.print (v.wrap m x.entry.schema), ?_, Typed.decode_encode hid hschema hno hget hv hback hm⟩⟩
    rw [Typed.Dynamic.encode, hv]
    rfl

namespace Gallery

/-- A registered type whose values hold values of the type. -/
def nodeEntry : Typed.Registered :=
  { name := "Node", type := node, schema := schema model "t#Node" }

/-- A node without another one. -/
def lastNode : Typed.Dynamic :=
  { entry := nodeEntry, value := .record 14 [.scalar (.integer .integer ⟨2, rfl⟩), .missing] }

/-- What a node is written as can be tagged and untagged, and it comes back from its tagged text. -/
theorem tagging_undone_node :
    Json.Undone {} model nodeEntry.schema (.object [("value", .number (.ofInt 2))]) ∧
    ∃ text, lastNode.encode {} model types = .ok text ∧
      (Typed.TypeRegistry.register model nodeEntry {}).decode {} model types
        (Bytes.ofString text) = .ok lastNode := by
  have hno : ∀ member ∈ model.members nodeEntry.schema,
      (({} : Codec).scope model).memberKey? member ≠ some Json.typeKey := by
    decide
  have hparse : Codec.parse (Bytes.ofString (({} : Codec).print
      (.object [("value", .number (.ofInt 2))]))) = .ok (.object [("value", .number (.ofInt 2))]) :=
    Json.parse_print {} (by decide)
  obtain ⟨hcalls, hregistered⟩ :=
    tagging_undone {} model nodeEntry.schema ⟨⟨"t#Node"⟩, rfl⟩ hno
  have hunder : (lastNode.calls model types).Under model nodeEntry.schema :=
    Typed.Value.calls_under lastNode.value rfl
  refine ⟨hcalls (lastNode.calls model types) _ (by decide) hunder rfl, ?_⟩
  obtain ⟨text, htext, hback⟩ := (hregistered types
    (Typed.TypeRegistry.register model nodeEntry {}) lastNode
    (.object [("value", .number (.ofInt 2))]) rfl rfl rfl rfl
    (by rw [Typed.decode, hparse]; rfl)).2 fun ⟨_, x, hx⟩ => by
      simp [Json.object, Json.valueKey] at hx
  exact ⟨text, htext, hback.mpr (.inl rfl)⟩

/-- A structure whose one member goes by the key of the value in an envelope. -/
def box : SchemaRef × Model :=
  Model.build {} ⟨"x#Box"⟩ .structure {}
    [{ name := "__value", target := .resolved (.scalar (.integer .integer)) }]

/-- With the id next to it, the member is taken out as the value of an envelope. -/
theorem member_taken_for_envelope :
    (∃ id, ShapeId.parse (box.2.shapeId box.1).text = .ok id) ∧
    (∀ member ∈ box.2.members box.1,
      (({} : Codec).scope box.2).memberKey? member ≠ some Json.typeKey) ∧
    ∃ v, ({} : Codec).toJson box.2
      (.structure box.1 [.scalar (.member (.declared 0) 0) (.integer .integer ⟨5, rfl⟩)]) = .ok v ∧
    (v.wrap box.2 box.1).discriminator = .ok (some (box.2.shapeId box.1)) ∧
    (v.wrap box.2 box.1).payload.untagged ≠ v ∧
    (∃ d, ({} : Codec).ofJson box.2 box.1 v = .ok d) ∧
    ({} : Codec).ofJson box.2 box.1 (v.wrap box.2 box.1).payload =
      .error (.typeMismatch "structure" "number") :=
  ⟨⟨_, rfl⟩, by decide, _, rfl, rfl, nofun, ⟨_, rfl⟩, rfl⟩

end Gallery
end ShapeCodec
