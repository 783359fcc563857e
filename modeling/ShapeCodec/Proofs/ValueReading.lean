import ShapeCodec.Proofs.Reading
import ShapeCodec.Proofs.Values
import ShapeCodec.Typed.Reader

/-!
# Reading typed values, type by type

What a value of each type is read from, given what its parts are read as. A record is read in two
steps, the members that are there into slots and the fields out of slots; since every member has its
own slot, a field gets just what was read for it.
-/

namespace ShapeCodec.Typed

variable {Label Leaf : Type} {src : Source Label Leaf} {s : Scope} {standin : Standin}

theorem valueWith_eq (t : Tree Label Leaf) : valueWith src s standin t =
    readNode src s standin (t.partsWith (valueWith src s standin)) :=
  Tree.walk_ofParts _ t

/-! ### Leaves -/

theorem valueWith_scalar (t : Tree Label Leaf) (type : ScalarType) (depth : Nat)
    (schema : SchemaRef) : valueWith src s standin t (.scalar type) depth schema =
      (src.scalar type schema t).map .scalar := by
  rw [valueWith_eq, readNode_scalar, Tree.partsWith_tree]

theorem valueWith_document (t : Tree Label Leaf) (depth : Nat) (schema : SchemaRef) :
    valueWith src s standin t .document depth schema =
      (ShapeCodec.Reader.documentAt src s.toScope t depth schema).map .document := by
  rw [valueWith_eq, readNode, Tree.partsWith_tree]

theorem valueWith_null (l : Label) (type : ValueType) (depth : Nat) (schema : SchemaRef) :
    valueWith src s standin (.null l) (.option type) depth schema = .ok .missing := by
  rw [valueWith_eq]
  rfl

/-- A value that is there is read as what it may be missing of. -/
theorem valueWith_option {t : Tree Label Leaf} (hn : t.isNull = false) (type : ValueType)
    (depth : Nat) (schema : SchemaRef) : valueWith src s standin t (.option type) depth schema =
      (valueWith src s standin t type depth schema).map .present := by
  rw [valueWith_eq]
  cases t with
  | null l => simp at hn
  | leaf l v => rfl
  | list l items => rfl
  | map l entries => rfl

/-! ### Going on with the parts -/

section
variable {depth : Nat} {S : SchemaRef} (hd : depth < s.config.maxDepth)
include hd

theorem valueWith_items {member : SchemaRef} (hm : s.model.listMember S = .ok member) (l : Label)
    (items : List (Tree Label Leaf)) (element : ValueType) :
    valueWith src s standin (.list l items) (.list element) depth S =
      (readItems element (depth + 1) member ((s.kept S Tree.isNull items).map
        (Except.map fun u => u.visit (valueWith src s standin)))).map .list := by
  rw [valueWith_eq, readNode]
  simp only [hm, src.openList_list s.toScope hd, Result.ok_bind]
  rfl

theorem valueWith_entries {member : SchemaRef} (hm : s.model.mapValue S = .ok member) (l : Label)
    (entries : List (String × Tree Label Leaf)) (sorted : Bool) (type : ValueType) :
    valueWith src s standin (.map l entries) (.map sorted type) depth S =
      (readEntries sorted type (depth + 1) member [] ((s.kept S (fun e => e.2.isNull) entries).map
        (Except.map fun e => (e.1, e.2.visit (valueWith src s standin))))).map .map := by
  rw [valueWith_eq, readNode]
  simp only [hm, src.openMap_map s.toScope hd, Result.ok_bind]
  rfl

theorem valueWith_fields {type : Nat} {fields : List (Field ValueType)}
    (hb : (s.types.get type).body = .record fields) (l : Label)
    (entries : List (String × Tree Label Leaf)) :
    valueWith src s standin (.map l entries) (.named type) depth S =
      (readSlots s fields (depth + 1) ((src.presentMembers S Tree.isNull entries).map
        fun p => (p.1, p.2.visit (valueWith src s standin)))) >>= fun slots =>
          (buildFields s standin S slots 0 fields).map (.record type) := by
  rw [valueWith_eq, readNode_named, readDeclared, hb]
  simp only [readRecord, src.openStructure_map s.toScope hd, Result.ok_bind]
  rfl

theorem valueWith_known {type : Nat} {variants : List (Field ValueType)} {unknown : Option String}
    (hb : (s.types.get type).body = .union variants unknown) (l : Label)
    {entries : List (String × Tree Label Leaf)} {key : String} {u : Tree Label Leaf}
    (hc : src.candidates Tree.isNull entries = [(key, u)]) {member : SchemaRef}
    (hm : src.member? S key = some member) {i : Nat}
    (hi : s.model.expectMemberIndex member = .ok i) {variant : Field ValueType}
    (hv : variants[i]? = some variant) :
    valueWith src s standin (.map l entries) (.named type) depth S =
      (valueWith src s standin u variant.type (depth + 1) member).map (.variant type i) := by
  have hopen := src.openUnion_map s.toScope hd S (valueWith src s standin) l hc
  rw [Source.chosen, hm] at hopen
  rw [valueWith_eq, readNode_named, readDeclared, hb]
  simp only [readUnion, hopen, Result.ok_bind, hi, hv, Tree.visit_result]
  rfl

theorem valueWith_unknown {type : Nat} {variants : List (Field ValueType)} {unknown : Option String}
    (hb : (s.types.get type).body = .union variants unknown) (l : Label)
    {entries : List (String × Tree Label Leaf)} {tag : String} {u : Tree Label Leaf}
    (hc : src.candidates Tree.isNull entries = [(tag, u)]) (hm : src.member? S tag = none) :
    valueWith src s standin (.map l entries) (.named type) depth S =
      if unknown.isSome then .ok (.unknown type (.string tag))
      else .error (unknownVariant s.model S tag) := by
  have hopen := src.openUnion_map s.toScope hd S (valueWith src s standin) l hc
  rw [Source.chosen, hm] at hopen
  rw [valueWith_eq, readNode_named, readDeclared, hb]
  simp only [readUnion, hopen, Result.ok_bind]
  rfl

end

/-! ### Lists and maps -/

theorem readItems_of_parts {f : Tree Label Leaf → ValueReader} {type : ValueType} {depth : Nat}
    {member : SchemaRef} {parts : List (Tree Label Leaf × Value)}
    (h : ∀ p ∈ parts, f p.1 type depth member = .ok p.2) :
    readItems type depth member ((parts.map fun p => .ok p.1).map (Except.map fun u => u.visit f)) =
      .ok (parts.map Prod.snd) := by
  induction parts with
  | nil => rfl
  | cons p parts ih =>
      obtain ⟨hp, h⟩ := List.forall_mem_cons.mp h
      have hrest := ih h
      simp only [List.map_cons, readItems, Except.map, Result.ok_bind, Tree.visit_result, hp]
      rw [hrest]
      rfl

theorem readEntries_of_parts {f : Tree Label Leaf → ValueReader} {sorted : Bool} {type : ValueType}
    {depth : Nat} {member : SchemaRef} {parts : List (String × Tree Label Leaf × Value)}
    (h : ∀ p ∈ parts, f p.2.1 type depth member = .ok p.2.2) (read : Entries Value) :
    readEntries sorted type depth member read
        ((parts.map fun p => .ok (p.1, p.2.1)).map (Except.map fun e => (e.1, e.2.visit f))) =
      .ok ((parts.map fun p => (p.1, p.2.2)).foldl
        (fun es p => Value.insertEntry sorted p.1 p.2 es) read) := by
  induction parts generalizing read with
  | nil => rfl
  | cons p parts ih =>
      obtain ⟨hp, h⟩ := List.forall_mem_cons.mp h
      have hrest := ih h (Value.insertEntry sorted p.1 p.2.2 read)
      simp only [List.map_cons, readEntries, Except.map, Result.ok_bind, Tree.visit_result, hp]
      exact hrest

theorem valueWith_list {depth : Nat} {schema member : SchemaRef} {element : ValueType} {l : Label}
    {items : List (Tree Label Leaf)} {parts : List (Tree Label Leaf × Value)}
    (hm : s.model.listMember schema = .ok member) (hd : depth < s.config.maxDepth)
    (hk : s.kept schema Tree.isNull items = parts.map fun p => .ok p.1)
    (h : ∀ p ∈ parts, valueWith src s standin p.1 element (depth + 1) member = .ok p.2) :
    valueWith src s standin (.list l items) (.list element) depth schema =
      .ok (.list (parts.map Prod.snd)) := by
  rw [valueWith_items hd hm, hk, readItems_of_parts h]
  rfl

theorem valueWith_map {depth : Nat} {schema member : SchemaRef} {sorted : Bool} {type : ValueType}
    {l : Label} {entries : List (String × Tree Label Leaf)}
    {parts : List (String × Tree Label Leaf × Value)}
    (hm : s.model.mapValue schema = .ok member) (hd : depth < s.config.maxDepth)
    (hk : s.kept schema (fun e => e.2.isNull) entries = parts.map fun p => .ok (p.1, p.2.1))
    (hn : (parts.map Prod.fst).Nodup)
    (ho : sorted = true → (parts.map Prod.fst).Pairwise (· < ·))
    (h : ∀ p ∈ parts, valueWith src s standin p.2.1 type (depth + 1) member = .ok p.2.2) :
    valueWith src s standin (.map l entries) (.map sorted type) depth schema =
      .ok (.map (parts.map fun p => (p.1, p.2.2))) := by
  have hkeys : Entries.keys ([] ++ parts.map fun p => (p.1, p.2.2)) = parts.map Prod.fst := by
    simp [Entries.keys, Function.comp_def]
  have hfold := Value.foldl_insertEntry sorted (parts.map fun p => (p.1, p.2.2)) []
    (by rw [hkeys]; exact hn) (by rw [hkeys]; exact ho)
  rw [valueWith_entries hd hm, hk, readEntries_of_parts h, hfold]
  rfl

/-! ### Fields and slots -/

theorem slot?_of_notMem {slots : List (Nat × Value)} {i : Nat} (h : i ∉ slots.map Prod.fst) :
    slot? i slots = none := by
  have hf : slots.reverse.find? (·.1 == i) = none := by
    refine List.find?_eq_none.mpr fun e he hindex => h ?_
    have heq : e.1 = i := by simpa using hindex
    exact heq ▸ List.mem_map_of_mem (List.mem_reverse.mp he)
  rw [slot?, hf]
  rfl

/-- A field of a record, its place, what it is read from and what it is read as. -/
structure Row (Label Leaf : Type) where
  index : Nat
  field : Field ValueType
  tree : Tree Label Leaf
  value : Value

/-- The rows of a record are the places from an index on. -/
def Numbered (index : Nat) (rows : List (Row Label Leaf)) : Prop :=
  rows.map Row.index = List.range' index rows.length

theorem Numbered.nodup {index : Nat} {rows : List (Row Label Leaf)} (h : Numbered index rows) :
    (rows.map Row.index).Nodup := by
  rw [h]
  exact List.nodup_range'

/-- What is read for a field of a type, before it is said to be there. -/
def Value.content (type : ValueType) (v : Value) : Value :=
  match type, v with
  | .option _, present w => w
  | _, v => v

/-- Of what reading depends on, fields only depend on the model. -/
theorem buildFields_congr_model {s s' : Scope} (h : s.model = s'.model) (standin : Standin)
    (S : SchemaRef) (slots : List (Nat × Value)) (index : Nat) (fields : List (Field ValueType)) :
    buildFields s standin S slots index fields = buildFields s' standin S slots index fields := by
  induction fields generalizing index with
  | nil => rfl
  | cons field fields ih => simp only [buildFields, buildField, h, ih]

/-- The type that the members of an enumeration are on the wire. -/
def wireType? : Body ValueType → Option ScalarType
  | .words .. => some .string
  | .numbers .. => some (.integer .integer)
  | _ => none

theorem eq_of_wireType? {body : Body ValueType} {wire : ScalarType}
    (h : wireType? body = some wire) : wire = .string ∨ wire = .integer .integer := by
  cases body with
  | words constants unknown => exact .inl (Option.some.inj h).symm
  | numbers constants unknown => exact .inr (Option.some.inj h).symm
  | _ => cases h

/-- Whether a type has a variant for what it does not know. -/
def keepsUnknown : Body ValueType → Bool
  | .union _ unknown | .words _ unknown | .numbers _ unknown => unknown.isSome
  | .record _ => false

/-- The member of an enumeration at the place of a value, or the value itself if it has none. -/
def Value.ofWire (values : List Scalar) (type : Nat) (v : Scalar) : Value :=
  match values.findIdx? (· == v) with
  | some i => .constant type i
  | none => .unknown type v

theorem readConstant_eq {α : Type} {type : Nat} {constants : List (Constant α)} {keeps : Bool}
    {schema : SchemaRef} {wire : α → Scalar} {v : Scalar}
    (hk : v ∈ constants.map (fun c => wire c.value) ∨ keeps = true) :
    readConstant s type constants keeps schema (fun a => wire a == v) v =
      .ok (Value.ofWire (constants.map fun c => wire c.value) type v) := by
  rw [readConstant, Value.ofWire, List.findIdx?_map]
  cases hf : constants.findIdx? fun c => wire c.value == v with
  | some i => simp [Function.comp_def, hf]
  | none =>
      have hunknown : keeps = true := by
        rcases hk with hin | hk
        · obtain ⟨c, hc, rfl⟩ := List.mem_map.mp hin
          have hne := List.findIdx?_eq_none_iff.mp hf c hc
          simp at hne
        · exact hk
      simp [Function.comp_def, hf, hunknown]

theorem valueWith_enumeration {depth type : Nat} {schema : SchemaRef} {t : Tree Label Leaf}
    {v : Scalar} (hw : wireType? (s.types.get type).body = some v.type)
    (hv : src.scalar v.type schema t = .ok v)
    (hk : v ∈ wireValues (s.types.get type).body ∨ keepsUnknown (s.types.get type).body = true) :
    valueWith src s standin t (.named type) depth schema =
      .ok (Value.ofWire (wireValues (s.types.get type).body) type v) := by
  rw [valueWith_eq, readNode_named, readDeclared]
  cases hb : (s.types.get type).body with
  | record fields => simp [hb, wireType?] at hw
  | union variants unknown => simp [hb, wireType?] at hw
  | words constants unknown =>
      rw [hb] at hw hk
      have ht : v.type = .string := (Option.some.inj hw).symm
      rw [ht] at hv
      simp only [Tree.partsWith_tree, hv, Result.ok_bind]
      exact readConstant_eq hk
  | numbers constants unknown =>
      rw [hb] at hw hk
      have ht : v.type = .integer .integer := (Option.some.inj hw).symm
      rw [ht] at hv
      simp only [Tree.partsWith_tree, hv, Result.ok_bind]
      exact readConstant_eq hk

end ShapeCodec.Typed
