import ShapeCodec.Gallery.Shapes
import ShapeCodec.Proofs.Faults
import ShapeCodec.Proofs.Rereading
import ShapeCodec.Proofs.Soundness
import ShapeCodec.Proofs.Untyped

/-!
# Reading through a document without a schema

JSON can be taken for a document first and be given its schema later. What is lost on the way are
the names of types and how numbers were written, neither of which matters to truth values, integers
and texts. So where a schema asks for no other scalars, late reading finds just what reading right
away does.
-/

namespace ShapeCodec

/-! ### Schemas that can be given later -/

/-- The types but for those of scalars whose form in JSON has to be known in order to read them. -/
def ShapeType.isEvident : ShapeType → Bool
  | .blob | .float | .double | .bigDecimal | .timestamp => false
  | _ => true

/-- Scalars that are what they look like in JSON. -/
inductive ScalarType.Evident : ScalarType → Prop
  | boolean : Evident .boolean
  | integer (width : IntWidth) : Evident (.integer width)
  | string : Evident .string

theorem ShapeType.evident_of_form {type : ShapeType} {scalar : ScalarType}
    (h : type.isEvident = true) (hf : type.form = .scalar scalar) : scalar.Evident := by
  cases type with
  | boolean =>
      obtain rfl := Form.scalar.inj hf
      exact .boolean
  | byte | short | integer | long | bigInteger | intEnum =>
      obtain rfl := Form.scalar.inj hf
      exact .integer _
  | string | enum =>
      obtain rfl := Form.scalar.inj hf
      exact .string
  | «structure» | union | list | map | document => cases hf
  | blob | float | double | bigDecimal | timestamp => cases h

namespace Model

/--
JSON can be read without the schema first: scalars are evident, and members go by their names, none
of which is the key that names a type.
-/
structure BindsLate (m : Model) (S : SchemaRef) : Prop where
  evident : (m.typeOf S).isEvident = true
  wireName : ∀ d ∈ m.declarations S, d.traits.jsonName = none
  name : ∀ d ∈ m.declarations S, d.name ≠ Json.typeKey

namespace BindsLate

variable {m : Model} {S : SchemaRef} {wireNames : Bool}

/-- Keys are names. -/
theorem memberByKey? (h : m.BindsLate S) (key : String) :
    m.memberByKey? wireNames S key = m.member? S key := by
  show _ = m.memberByKey? false S key
  rw [Model.memberByKey?_eq, Model.memberByKey?_eq]
  refine congrArg (Option.bind · _) (Model.lastIndex?_congr fun d hd => ?_)
  cases wireNames with
  | false => rfl
  | true => simp [Member.key, Member.wireName, h.wireName d hd]

/-- The key that names a type names no member. -/
theorem member?_typeKey (h : m.BindsLate S) : m.member? S Json.typeKey = none := by
  cases hm : m.member? S Json.typeKey with
  | none => rfl
  | some member =>
      obtain ⟨hmem, hname⟩ := Model.mem_of_member? hm
      obtain ⟨d, hd, hdecl⟩ := Model.declarationOf?_of_mem hmem
      rw [Model.memberName?, hdecl] at hname
      exact absurd (Option.some.inj hname) (h.name d hd)

end BindsLate
end Model

/-- Somewhere in the input an object that names its type is read as a map. -/
inductive Source.TagsMap (src : Source Unit Json.Leaf) (m : Model) : SchemaRef → Json → Prop
  | tagged {schema : SchemaRef} {entries : List (String × Json)} :
      (m.typeOf schema).form = .map → Json.typeKey ∈ Entries.keys entries →
      src.TagsMap m schema (.object entries)
  | member {schema member : SchemaRef} {entries : List (String × Json)} {u : Json} :
      (m.typeOf schema).form = .structure →
      (member, u) ∈ src.presentMembers schema Tree.isNull entries → src.TagsMap m member u →
      src.TagsMap m schema (.object entries)
  | known {schema member : SchemaRef} {entries : List (String × Json)} {key : String} {u : Json} :
      (m.typeOf schema).form = .union → src.candidates Tree.isNull entries = [(key, u)] →
      src.member? schema key = some member → src.TagsMap m member u →
      src.TagsMap m schema (.object entries)
  | item {schema member : SchemaRef} {items : List Json} {u : Json} :
      m.listMember schema = .ok member → u ∈ items → src.TagsMap m member u →
      src.TagsMap m schema (.array items)
  | entry {schema member : SchemaRef} {entries : List (String × Json)} {e : String × Json} :
      m.mapValue schema = .ok member → e ∈ entries → src.TagsMap m member e.2 →
      src.TagsMap m schema (.object entries)

/-! ### Scalars -/

section
variable {format : TimestampFormat} {m : Model} {type : ScalarType}

theorem Json.exists_leaf_of_readScalar {j : Json} {v : Scalar}
    (h : Json.readScalar format type j = .ok v) : ∃ leaf, j = Tree.leaf () leaf := by
  cases j with
  | leaf l leaf => exact ⟨leaf, rfl⟩
  | null l => exact absurd h (Json.readScalar_null_ne_ok format type l v)
  | list l items => cases type <;> cases h
  | map l entries => cases type <;> cases h

theorem Document.exists_leaf_of_readScalar {d : Document} {v : Scalar}
    (h : Document.readScalar m type d = .ok v) : ∃ l s, d = .leaf l s := by
  cases d with
  | leaf l s => exact ⟨l, s, rfl⟩
  | null l => exact absurd h (Document.readScalar_null_ne_ok m type l v)
  | list l items => cases type <;> cases h
  | map l entries => cases type <;> cases h

/-- An integer is read from a number of its range that is written as a whole one. -/
theorem Json.readInteger_number_alike {n : Numeral} (hn : n.Parses) (width : IntWidth) :
    Result.Alike (Json.readInteger width (.number n))
      ((n.toScalar.asInteger width).map (.integer width)) := by
  cases hi : n.toInt? with
  | some i =>
      obtain ⟨w, k, hscalar, rfl⟩ := Numeral.toScalar_of_toInt? hi
      rw [hscalar]
      unfold Json.readInteger Scalar.asInteger Scalar.ofInt?
      simp only [Json.asNumber, Result.ok_bind, Numeral.isFractional_of_toInt? hi, hi]
      cases Sized.ofInt? width k.value <;> rfl
  | none =>
      obtain ⟨d, hd⟩ := hn
      have hread : ∀ v, Json.readInteger width (.number n) ≠ .ok v := by
        intro v hv
        unfold Json.readInteger at hv
        simp only [Json.asNumber, Result.ok_bind, hi] at hv
        by_cases hf : n.isFractional = true
        · rw [if_pos hf] at hv
          cases hv
        · rw [if_neg hf] at hv
          cases width <;> cases hv
      refine .of_fail hread fun v hv => ?_
      -- a float or a decimal is no integer, even if its value is whole
      rcases Numeral.toScalar_of_fraction hi hd with ⟨x, -, -, hscalar⟩ | hscalar
      · rw [hscalar] at hv
        cases hv
      · rw [hscalar] at hv
        cases hv

/-- A number is neither a truth value nor a text, even where no schema says that it is a number. -/
theorem Numeral.toScalar_type_ne {n : Numeral} (hn : n.Parses) :
    n.toScalar.type ≠ .boolean ∧ n.toScalar.type ≠ .string := by
  obtain ⟨d, hd⟩ := hn
  cases hi : n.toInt? with
  | some i =>
      obtain ⟨w, k, hscalar, -⟩ := Numeral.toScalar_of_toInt? hi
      rw [hscalar]
      exact ⟨nofun, nofun⟩
  | none =>
      rcases Numeral.toScalar_of_fraction hi hd with ⟨x, -, -, hscalar⟩ | hscalar
      · rw [hscalar]
        exact ⟨nofun, nofun⟩
      · rw [hscalar]
        exact ⟨nofun, nofun⟩

/-- Evident scalars are read from JSON as from the document that is made of it. -/
theorem Json.readScalar_alike {j : Json} (ht : type.Evident) (hj : j.NumbersParse) :
    Result.Alike (Json.readScalar format type j)
      (Document.readScalar m type j.toDocument) := by
  cases hj with
  | null l =>
      rw [Json.toDocument_null]
      exact .of_fail (Json.readScalar_null_ne_ok format type l)
        (Document.readScalar_null_ne_ok m type _)
  | list h =>
      rw [Json.toDocument_list]
      refine .of_fail (fun v hv => ?_) fun v hv => ?_
      · obtain ⟨leaf, hleaf⟩ := Json.exists_leaf_of_readScalar hv
        cases hleaf
      · obtain ⟨l, s, hleaf⟩ := Document.exists_leaf_of_readScalar hv
        cases hleaf
  | map h =>
      rw [Json.toDocument_map]
      refine .of_fail (fun v hv => ?_) fun v hv => ?_
      · obtain ⟨leaf, hleaf⟩ := Json.exists_leaf_of_readScalar hv
        cases hleaf
      · obtain ⟨l, s, hleaf⟩ := Document.exists_leaf_of_readScalar hv
        cases hleaf
  | @leaf l leaf hleaf =>
      cases leaf with
      | boolean b =>
          rw [show Tree.leaf l (.boolean b) = Json.boolean b from rfl, Json.toDocument_boolean]
          cases ht <;> rfl
      | string text =>
          rw [show Tree.leaf l (.string text) = Json.string text from rfl, Json.toDocument_string]
          cases ht <;> rfl
      | number n =>
          rw [show Tree.leaf l (.number n) = Json.number n from rfl, Json.toDocument_number]
          have hn : n.Parses := hleaf
          cases ht with
          | integer width => exact Json.readInteger_number_alike hn width
          | boolean =>
              show Result.Alike _ (if n.toScalar.type = .boolean then _ else _)
              rw [if_neg (Numeral.toScalar_type_ne hn).1]
              rfl
          | string =>
              show Result.Alike _ (if n.toScalar.type = .string then _ else _)
              rw [if_neg (Numeral.toScalar_type_ne hn).2]
              rfl

end

/-! ### Parts of objects -/

namespace Json

variable {m : Model} {config : Config} {wireNames : Bool} {S : SchemaRef}

/-- The members that a document has are those of the object it is made of. -/
theorem presentMembers_untyped (h : m.BindsLate S) (entries : List (String × Json)) :
    (Document.source m).presentMembers S Tree.isNull (untypedEntries entries) =
      ((Json.source m config wireNames).presentMembers S Tree.isNull entries).map
        fun p => (p.1, toDocument p.2) := by
  simp only [Source.presentMembers, untypedEntries, List.filterMap_map, List.filterMap_filter,
    List.map_filterMap]
  refine List.filterMap_congr fun e _ => ?_
  simp only [Json.source, Document.source, h.memberByKey?, Function.comp_apply, toDocument_isNull]
  by_cases hk : e.1 = typeKey
  · simp [hk, h.member?_typeKey]
  · cases m.member? S e.1 with
    | none => simp
    | some member => cases e.2.isNull <;> simp [hk]

/-- So are the entries that count as the member of a union. -/
theorem candidates_untyped (entries : List (String × Json)) :
    (Document.source m).candidates Tree.isNull (untypedEntries entries) =
      ((Json.source m config wireNames).candidates Tree.isNull entries).map
        fun e => (e.1, toDocument e.2) := by
  simp only [Source.candidates, untypedEntries, List.filter_map, List.filter_filter]
  refine congrArg (List.map _) (List.filter_congr fun e _ => ?_)
  simp [Json.source, Document.source, toDocument_isNull, bne]

end Json

namespace Reader

/-! ### Parts that are read alike -/

section
variable {Label Leaf Label' Leaf' : Type} {s : Scope} {depth : Nat} {member : SchemaRef}
  {f : Tree Label Leaf → DocumentReader} {g : Tree Label' Leaf' → DocumentReader}
  {tr : Tree Label Leaf → Tree Label' Leaf'}

theorem readMembers_alike {present : List (SchemaRef × Tree Label Leaf)} {read : Entries Document}
    (h : ∀ p ∈ present, Result.Alike (f p.2 depth p.1) (g (tr p.2) depth p.1)) :
    Result.Alike (readMembers s depth read (present.map fun p => (p.1, p.2.visit f)))
      (readMembers s depth read (present.map fun p => (p.1, (tr p.2).visit g))) := by
  induction present generalizing read with
  | nil => rfl
  | cons p present ih =>
      obtain ⟨hp, h⟩ := List.forall_mem_cons.mp h
      simp only [List.map_cons, readMembers, Tree.visit_result]
      exact hp.bind fun d => ih h

theorem readItems_alike {kept : List (Result (Tree Label Leaf))}
    (h : ∀ u, .ok u ∈ kept → Result.Alike (f u depth member) (g (tr u) depth member)) :
    Result.Alike (readItems depth member (kept.map (Except.map fun u => u.visit f)))
      (readItems depth member ((kept.map (Except.map tr)).map (Except.map fun u => u.visit g))) := by
  induction kept with
  | nil => rfl
  | cons r kept ih =>
      have hrest : ∀ u, .ok u ∈ kept → Result.Alike (f u depth member) (g (tr u) depth member) :=
        fun u hu => h u (List.mem_cons_of_mem _ hu)
      cases r with
      | error e => rfl
      | ok u =>
          simp only [List.map_cons, readItems, Except.map, Result.ok_bind, Tree.visit_result]
          exact (h u (List.mem_cons_self ..)).bind fun d => (ih hrest).bind fun ds => rfl

theorem readEntries_alike {kept : List (Result (String × Tree Label Leaf))}
    {read : Entries Document}
    (h : ∀ e, .ok e ∈ kept → Result.Alike (f e.2 depth member) (g (tr e.2) depth member)) :
    Result.Alike
      (readEntries depth member read (kept.map (Except.map fun e => (e.1, e.2.visit f))))
      (readEntries depth member read ((kept.map (Except.map fun e => (e.1, tr e.2))).map
        (Except.map fun e => (e.1, e.2.visit g)))) := by
  induction kept generalizing read with
  | nil => rfl
  | cons r kept ih =>
      have hrest : ∀ e, .ok e ∈ kept →
          Result.Alike (f e.2 depth member) (g (tr e.2) depth member) :=
        fun e he => h e (List.mem_cons_of_mem _ he)
      cases r with
      | error e => rfl
      | ok e =>
          simp only [List.map_cons, readEntries, Except.map, Result.ok_bind, Tree.visit_result]
          exact (h e (List.mem_cons_self ..)).bind fun d => ih hrest

end

/-! ### Values by the form of their schema -/

section
variable {Label Leaf : Type} {src : Source Label Leaf} {s : Scope} {depth : Nat}
  {schema : SchemaRef} {t : Tree Label Leaf} {d : Document}

theorem documentAt_document (hf : (s.model.typeOf schema).form = .document)
    (hn : t.isNull = false) : documentAt src s t depth schema = .ok (src.untyped t) :=
  Reads.run (.document hf hn)

theorem documentAt_scalar {type : ScalarType} (hf : (s.model.typeOf schema).form = .scalar type)
    (hn : t.isNull = false) :
    documentAt src s t depth schema = (src.scalar type schema t).map (Tree.leaf { schema }) := by
  rw [documentAt_of_not_null hn, readValue, hf]
  simp only [Tree.partsWith_tree]
  cases src.scalar type schema t <;> rfl

/-- Members and entries are only read from maps. -/
theorem Reads.exists_map (hn : t.isNull = false)
    (hf : (s.model.typeOf schema).form = .structure ∨ (s.model.typeOf schema).form = .union ∨
      (s.model.typeOf schema).form = .map) (h : Reads src s depth schema t d) :
    ∃ l entries, t = .map l entries := by
  cases h with
  | null l => cases hn
  | document hf' | scalar hf' => simp [hf'] at hf
  | list hm => simp [Model.form_of_listMember hm] at hf
  | members | known | unknown | map => exact ⟨_, _, rfl⟩

/-- Elements are only read from lists. -/
theorem Reads.exists_list (hn : t.isNull = false) (hf : (s.model.typeOf schema).form = .list)
    (h : Reads src s depth schema t d) : ∃ l items, t = .list l items := by
  cases h with
  | null l => cases hn
  | document hf' | scalar hf' | members hf' | known hf' | unknown hf' => simp [hf'] at hf
  | map hm => simp [Model.form_of_mapValue hm] at hf
  | list => exact ⟨_, _, rfl⟩

end

section
variable {m : Model} {c : Codec} {depth : Nat} {S : SchemaRef}

/-- Reading under a schema finds the same right away and by way of a document without a schema. -/
def LateAlike (c : Codec) (m : Model) (depth : Nat) (S : SchemaRef) (j : Json) : Prop :=
  Result.Alike (documentAt (c.source m) { model := m, config := c.config } j depth S)
    (documentAt (Document.source m) { model := m, config := c.config } j.toDocument depth S)

theorem lateAlike_of_not_map {j : Json} (hn : j.isNull = false)
    (hf : (m.typeOf S).form = .structure ∨ (m.typeOf S).form = .union ∨ (m.typeOf S).form = .map)
    (hj : ∀ entries, j ≠ .object entries) : LateAlike c m depth S j := by
  refine .of_fail (fun d hd => ?_) fun d hd => ?_
  · obtain ⟨l, entries, rfl⟩ :=
      (documentAt_eq_ok_iff.mp hd).exists_map (s := { model := m, config := c.config }) hn hf
    exact hj entries rfl
  · obtain ⟨l, entries, hd⟩ :=
      (documentAt_eq_ok_iff.mp hd).exists_map (s := { model := m, config := c.config })
        ((Json.toDocument_isNull j).trans hn) hf
    cases j with
    | null l => cases hn
    | leaf l v => cases v <;> cases hd
    | list l items =>
        rw [Json.toDocument_list] at hd
        cases hd
    | map l entries => exact hj entries rfl

theorem lateAlike_of_not_list {j : Json} (hn : j.isNull = false)
    (hf : (m.typeOf S).form = .list) (hj : ∀ items, j ≠ .array items) :
    LateAlike c m depth S j := by
  refine .of_fail (fun d hd => ?_) fun d hd => ?_
  · obtain ⟨l, items, rfl⟩ :=
      (documentAt_eq_ok_iff.mp hd).exists_list (s := { model := m, config := c.config }) hn hf
    exact hj items rfl
  · obtain ⟨l, items, hd⟩ :=
      (documentAt_eq_ok_iff.mp hd).exists_list (s := { model := m, config := c.config })
        ((Json.toDocument_isNull j).trans hn) hf
    cases j with
    | null l => cases hn
    | leaf l v => cases v <;> cases hd
    | list l items => exact hj items rfl
    | map l entries =>
        rw [Json.toDocument_map] at hd
        cases hd

theorem lateAlike_structure {entries : List (String × Json)}
    (hf : (m.typeOf S).form = .structure) (hS : m.BindsLate S)
    (ih : ∀ p ∈ (c.source m).presentMembers S Tree.isNull entries,
      LateAlike c m (depth + 1) p.1 p.2) :
    LateAlike c m depth S (.object entries) := by
  have hpresent : (Document.source m).presentMembers S Tree.isNull (Json.untypedEntries entries) =
      ((c.source m).presentMembers S Tree.isNull entries).map
        fun p => (p.1, Json.toDocument p.2) := Json.presentMembers_untyped hS entries
  rw [LateAlike, Json.object, Json.toDocument_map, Document.ofEntries,
    documentAt_structure (s := { model := m, config := c.config }) hf,
    documentAt_structure (s := { model := m, config := c.config }) hf, hpresent, List.map_map]
  refine Result.Alike.bind rfl fun _ => ?_
  exact Result.Alike.bind (readMembers_alike ih) fun es => rfl

theorem lateAlike_union {entries : List (String × Json)} (hf : (m.typeOf S).form = .union)
    (hS : m.BindsLate S)
    (ih : ∀ key u member, (c.source m).candidates Tree.isNull entries = [(key, u)] →
      (c.source m).member? S key = some member → LateAlike c m (depth + 1) member u) :
    LateAlike c m depth S (.object entries) := by
  have hcandidates : (Document.source m).candidates Tree.isNull (Json.untypedEntries entries) =
      ((c.source m).candidates Tree.isNull entries).map fun e => (e.1, Json.toDocument e.2) :=
    Json.candidates_untyped entries
  rw [LateAlike, Json.object, Json.toDocument_map, Document.ofEntries,
    documentAt_union (s := { model := m, config := c.config }) hf,
    documentAt_union (s := { model := m, config := c.config }) hf]
  refine Result.Alike.bind rfl fun _ => ?_
  by_cases hone : ((c.source m).candidates Tree.isNull entries).length = 1
  · obtain ⟨⟨key, u⟩, hc⟩ := List.length_eq_one_iff.mp hone
    have hc' : (Document.source m).candidates Tree.isNull (Json.untypedEntries entries) =
        [(key, Json.toDocument u)] := by rw [hcandidates, hc]; rfl
    have hfind : (c.source m).member? S key = m.member? S key := hS.memberByKey? key
    have hfind' : (Document.source m).member? S key = m.member? S key := rfl
    rw [choose_singleton hc, choose_singleton hc']
    cases hm : m.member? S key with
    | none =>
        simp only [Source.chosen, hfind, hfind', hm]
        rfl
    | some member =>
        have hu := ih key u member hc (hfind.trans hm)
        simp only [Source.chosen, hfind, hfind', hm, Result.ok_bind, readChosen]
        refine Result.Alike.bind ?_ fun es => rfl
        exact hu.bind fun d => rfl
  · have hmany : ((Document.source m).candidates Tree.isNull
        (Json.untypedEntries entries)).length ≠ 1 := by rwa [hcandidates, List.length_map]
    rw [choose_arity hone, choose_arity hmany]
    rfl

theorem lateAlike_list {member : SchemaRef} {items : List Json}
    (hm : m.listMember S = .ok member)
    (ih : ∀ u ∈ items, LateAlike c m (depth + 1) member u) :
    LateAlike c m depth S (.array items) := by
  rw [LateAlike, Json.array, Json.toDocument_list, Document.ofList,
    documentAt_list (s := { model := m, config := c.config }) hm,
    documentAt_list (s := { model := m, config := c.config }) hm,
    Scope.kept_map _ Json.toDocument_isNull]
  refine Result.Alike.bind rfl fun _ => Result.Alike.bind ?_ fun ds => rfl
  exact readItems_alike fun u hu => ih u (Scope.mem_of_mem_kept _ hu).1

/-- A collection whose elements have no schema is not read at all. -/
theorem lateAlike_list_of_error {items : List Json} {e : Error}
    (hf : (m.typeOf S).form = .list) (hm : m.listMember S = .error e) :
    LateAlike c m depth S (.array items) := by
  rw [LateAlike, Json.array, Json.toDocument_list, Document.ofList,
    documentAt_list_of_error (s := { model := m, config := c.config }) hf hm,
    documentAt_list_of_error (s := { model := m, config := c.config }) hf hm]
  rfl

theorem lateAlike_map {member : SchemaRef} {entries : List (String × Json)}
    (hm : m.mapValue S = .ok member) (hk : Json.typeKey ∉ Entries.keys entries)
    (ih : ∀ e ∈ entries, LateAlike c m (depth + 1) member e.2) :
    LateAlike c m depth S (.object entries) := by
  have hkept : Scope.kept { model := m, config := c.config } S (fun e => e.2.isNull)
      (entries.map fun e => (e.1, Json.toDocument e.2)) =
        (Scope.kept { model := m, config := c.config } S (fun e => e.2.isNull) entries).map
          (Except.map fun e => (e.1, Json.toDocument e.2)) :=
    Scope.kept_map _ (g := fun e => (e.1, Json.toDocument e.2))
      (fun e => Json.toDocument_isNull e.2) S entries
  rw [LateAlike, Json.object, Json.toDocument_map, Document.ofEntries,
    documentAt_map (s := { model := m, config := c.config }) hm,
    documentAt_map (s := { model := m, config := c.config }) hm,
    Json.untypedEntries_eq_map hk, hkept]
  refine Result.Alike.bind rfl fun _ => Result.Alike.bind ?_ fun es => rfl
  exact readEntries_alike fun e he => ih e (Scope.mem_of_mem_kept _ he).1

theorem lateAlike_map_of_error {entries : List (String × Json)} {e : Error}
    (hf : (m.typeOf S).form = .map) (hm : m.mapValue S = .error e) :
    LateAlike c m depth S (.object entries) := by
  rw [LateAlike, Json.object, Json.toDocument_map, Document.ofEntries,
    documentAt_map_of_error (s := { model := m, config := c.config }) hf hm,
    documentAt_map_of_error (s := { model := m, config := c.config }) hf hm]
  rfl

/-- So it is for a schema that can be given late, unless the name of a type is taken for a key. -/
theorem lateAlike (hS : m.Everywhere m.BindsLate S) {j : Json} (hj : j.NumbersParse)
    (ht : ¬ (c.source m).TagsMap m S j) : LateAlike c m depth S j := by
  induction j using Tree.induct_inside generalizing depth S with
  | h j ih =>
    cases hn : j.isNull with
    | true =>
        obtain ⟨l, rfl⟩ := Tree.isNull_eq_true hn
        rw [LateAlike, Json.toDocument_null, Document.plainNull, documentAt_null, documentAt_null]
        rfl
    | false =>
        have hn' : (Json.toDocument j).isNull = false := (Json.toDocument_isNull j).trans hn
        cases hf : (m.typeOf S).form with
        | document =>
            rw [LateAlike, documentAt_document (s := { model := m, config := c.config }) hf hn,
              documentAt_document (s := { model := m, config := c.config }) hf hn']
            rfl
        | scalar type =>
            rw [LateAlike, documentAt_scalar (s := { model := m, config := c.config }) hf hn,
              documentAt_scalar (s := { model := m, config := c.config }) hf hn']
            exact (Json.readScalar_alike (ShapeType.evident_of_form hS.here.evident hf) hj).map _
        | «structure» =>
            by_cases hmap : ∃ entries, j = Json.object entries
            · obtain ⟨entries, rfl⟩ := hmap
              refine lateAlike_structure hf hS.here fun p hp => ?_
              obtain ⟨key, he, hmember, -⟩ := (c.source m).mem_presentMembers.mp hp
              have hin : p.2.Inside (Json.object entries) := .entry he
              exact ih _ hin (hS.member (Model.mem_of_memberByKey? hmember).1) (hj.inside hin)
                fun h => ht (.member hf hp h)
            · exact lateAlike_of_not_map hn (.inl hf) fun entries h => hmap ⟨entries, h⟩
        | union =>
            by_cases hmap : ∃ entries, j = Json.object entries
            · obtain ⟨entries, rfl⟩ := hmap
              refine lateAlike_union hf hS.here fun key u member hc hmember => ?_
              have hin : u.Inside (Json.object entries) :=
                .entry ((c.source m).mem_of_candidates hc).1
              exact ih _ hin (hS.member (Model.mem_of_memberByKey? hmember).1) (hj.inside hin)
                fun h => ht (.known hf hc hmember h)
            · exact lateAlike_of_not_map hn (.inr (.inl hf)) fun entries h => hmap ⟨entries, h⟩
        | list =>
            by_cases hlist : ∃ items, j = Json.array items
            · obtain ⟨items, rfl⟩ := hlist
              cases hm : m.listMember S with
              | error e => exact lateAlike_list_of_error hf hm
              | ok member =>
                  refine lateAlike_list hm fun u hu => ?_
                  have hin : u.Inside (Json.array items) := .item hu
                  exact ih _ hin (hS.member (Model.mem_of_listMember hm)) (hj.inside hin)
                    fun h => ht (.item hm hu h)
            · exact lateAlike_of_not_list hn hf fun items h => hlist ⟨items, h⟩
        | map =>
            by_cases hmap : ∃ entries, j = Json.object entries
            · obtain ⟨entries, rfl⟩ := hmap
              cases hm : m.mapValue S with
              | error e => exact lateAlike_map_of_error hf hm
              | ok member =>
                  refine lateAlike_map hm (fun hk => ht (.tagged hf hk)) fun e he => ?_
                  have hin : e.2.Inside (Json.object entries) := .entry he
                  exact ih _ hin (hS.member (Model.mem_of_mapValue hm)) (hj.inside hin)
                    fun h => ht (.entry hm he h)
            · exact lateAlike_of_not_map hn (.inr (.inr hf)) fun entries h => hmap ⟨entries, h⟩

end

end Reader

/-! ### Late binding -/

/--
For a schema without floats, decimals, blobs and timestamps whose members go by their names, JSON
is read as it would be by way of the document that it makes without a schema, if its numbers are
decimals and no name of a type is among the keys of a map. What is read then conforms.
-/
theorem late_bound_reading_agrees {m : Model} {S : SchemaRef} (hS : m.LaidOut S)
    (hlate : m.Everywhere m.BindsLate S) (c : Codec) {j : Json} (hj : j.NumbersParse)
    (ht : ¬ (c.source m).TagsMap m S j) :
    (∀ d, c.ofJson m S j = .ok d ↔ j.toDocument.readAs m c.config S = .ok d) ∧
      ∀ d, c.ofJson m S j = .ok d → d.Conforms m .labelled S := by
  have hagree (d : Document) :
      c.ofJson m S j = .ok d ↔ j.toDocument.readAs m c.config S = .ok d :=
    Result.Alike.ok_iff (Reader.lateAlike hlate hj ht)
  exact ⟨hagree, fun d hd => (read_conforms hS).1 c.config j.toDocument d ((hagree d).mp hd)⟩

namespace Orders

open Gallery (mapOf structureOf scalar)

/-- Orders say how many of each thing are wanted, and have a note of any kind. -/
def model : Model :=
  [mapOf "t#Counts" (scalar (.integer .big)),
    structureOf "t#Order"
      [⟨"counts", .shape "t#Counts", {}⟩, ⟨"note", .prelude .document, {}⟩]].foldl
    Gallery.Exhibit.addTo {}

/-- The schema of orders. -/
def order : SchemaRef :=
  Gallery.schema model "t#Order"

/-- The schemas that orders lead to. -/
def schemas : List SchemaRef :=
  [order, .member (.declared 1) 0, .member (.declared 1) 1, .member (.declared 0) 0,
    .member (.declared 0) 1]

/-- What is wanted. -/
def counts : Json :=
  .object [("nail", .number (.ofInt 20000000000000000000))]

/-- An order that names its type, and so does its note. -/
def nails : Json :=
  .object [(Json.typeKey, .string "t#Order"), ("counts", counts),
    ("note", .object [(Json.typeKey, .string "t#Note"), ("urgent", .boolean true)])]

theorem bindsLate_order : model.Everywhere model.BindsLate order := by
  have hclosed : ∀ t ∈ schemas, ∀ member ∈ model.members t, member ∈ schemas := by
    decide
  have hall : ∀ t ∈ schemas, (model.typeOf t).isEvident = true ∧
      ∀ d ∈ model.declarations t, d.traits.jsonName = none ∧ d.name ≠ Json.typeKey := by
    decide
  refine Model.everywhere_of_closed hclosed (fun t ht => ?_) (List.mem_cons_self ..)
  obtain ⟨hevident, hmembers⟩ := hall t ht
  exact ⟨hevident, fun d hd => (hmembers d hd).1, fun d hd => (hmembers d hd).2⟩

/-- The one map in the order has the names of things for its keys. -/
theorem not_tagsMap_nails : ¬ ((({} : Codec).source model).TagsMap model order nails) := by
  have hscalar {member : SchemaRef} (n : Numeral) :
      ¬ (({} : Codec).source model).TagsMap model member (.number n) := nofun
  have hcounts : ¬ (({} : Codec).source model).TagsMap model (.member (.declared 1) 0) counts := by
    have hf : (model.typeOf (.member (.declared 1) 0)).form = .map := by decide
    intro h
    cases h with
    | tagged _ hk => exact absurd hk (by decide)
    | member hf' | known hf' => simp [hf] at hf'
    | entry _ he hs =>
        obtain rfl := List.mem_singleton.mp he
        exact hscalar _ hs
  have hnote (j : Json) :
      ¬ (({} : Codec).source model).TagsMap model (.member (.declared 1) 1) j := by
    have hf : (model.typeOf (.member (.declared 1) 1)).form = .document := by decide
    intro h
    cases h with
    | tagged hf' | member hf' | known hf' => simp [hf] at hf'
    | item hm => simp [Model.form_of_listMember hm] at hf
    | entry hm => simp [Model.form_of_mapValue hm] at hf
  have hf : (model.typeOf order).form = .structure := by decide
  intro h
  cases h with
  | tagged hf' | known hf' => simp [hf] at hf'
  | entry hm => simp [Model.form_of_mapValue hm] at hf
  | member _ hp hs =>
      have hmem := List.mem_pair.mp hp
      rcases hmem with he | he
      · obtain ⟨rfl, rfl⟩ := Prod.mk.inj he
        exact hcounts hs
      · obtain ⟨rfl, rfl⟩ := Prod.mk.inj he
        exact hnote _ hs

/-- The note loses the name of its type both ways. -/
theorem late_bound_reading_agrees_order :
    ∃ d, ({} : Codec).ofJson model order nails = .ok d ∧
      nails.toDocument.readAs model {} order = .ok d ∧ d.Conforms model .labelled order := by
  have hlaidOut : model.LaidOut order :=
    Model.AllLaidOut.laidOut (by decide) order
  have hcounts : counts.NumbersParse :=
    .map (List.forall_mem_singleton.mpr (.leaf _ ⟨_, rfl⟩))
  have hnote : (Json.object [(Json.typeKey, .string "t#Note"),
      ("urgent", .boolean true)]).NumbersParse :=
    .map (List.forall_mem_cons.mpr ⟨.leaf _ trivial,
      List.forall_mem_singleton.mpr (.leaf _ trivial)⟩)
  have hparse : nails.NumbersParse :=
    .map (List.forall_mem_cons.mpr ⟨.leaf _ trivial,
      List.forall_mem_cons.mpr ⟨hcounts, List.forall_mem_singleton.mpr hnote⟩⟩)
  obtain ⟨hagree, hconforms⟩ := late_bound_reading_agrees hlaidOut bindsLate_order {} hparse
    not_tagsMap_nails
  exact ⟨_, rfl, (hagree _).mp rfl, hconforms _ rfl⟩

end Orders
end ShapeCodec
