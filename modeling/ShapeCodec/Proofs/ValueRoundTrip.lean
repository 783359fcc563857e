import ShapeCodec.Proofs.RoundTrip
import ShapeCodec.Proofs.TypeMatching
import ShapeCodec.Typed.Codec

/-!
# Typed values, written and read again

A value that fits its type and the schema it is written under comes back from any medium that
carries its leaves. That it fits says what a program promises by declaring its types: fields stand
at the places of members, a word stands for the first constant that has it, and what is absent may
be absent.
-/

namespace ShapeCodec.Typed

/-- What is asked of scalars and documents inside of values. -/
structure Leaves where
  scalar : SchemaRef → Scalar → Prop
  document : SchemaRef → Document → Prop

/--
A value is one of a type, and the type matches the schema. Nothing that is written as null stands
where a null would be left out or could be taken for a missing value.
-/
inductive Value.Fits (m : Model) (types : Table) (r : Leaves) :
    ValueType → SchemaRef → Value → Prop
  | scalar {schema : SchemaRef} {v : Scalar} : r.scalar schema v →
      Fits m types r (.scalar v.type) schema (.scalar v)
  | document {schema : SchemaRef} {d : Document} : r.document schema d →
      Fits m types r .document schema (.document d)
  | list {element : ValueType} {schema member : SchemaRef} {items : List Value} :
      m.listMember schema = .ok member →
      (∀ v ∈ items, v.writesNull = true → m.isSparse schema = true) →
      (∀ v ∈ items, Fits m types r element member v) →
      Fits m types r (.list element) schema (.list items)
  | map {sorted : Bool} {type : ValueType} {schema member : SchemaRef}
      {entries : List (String × Value)} :
      m.mapValue schema = .ok member → (Entries.keys entries).Nodup →
      (sorted = true → (Entries.keys entries).Pairwise (· < ·)) →
      (∀ e ∈ entries, e.2.writesNull = true → m.isSparse schema = true) →
      (∀ e ∈ entries, Fits m types r type member e.2) →
      Fits m types r (.map sorted type) schema (.map entries)
  | missing {type : ValueType} {schema : SchemaRef} :
      Fits m types r (.option type) schema .missing
  | present {type : ValueType} {schema : SchemaRef} {v : Value} : v.writesNull = false →
      Fits m types r type schema v → Fits m types r (.option type) schema (.present v)
  | record {type : Nat} {schema : SchemaRef} {fields : List (Field ValueType)}
      {values : List Value} :
      (types.get type).body = .record fields →
      m.table? schema = m.table? (types.get type).schema →
      (m.typeOf schema).form = .structure →
      values.length = fields.length → fields.length ≤ (m.members schema).length →
      (∀ i v member, values[i]? = some v → m.memberAt? schema i = some member →
        v.writesNull = true → v = .missing ∧ (m.traits member).required = false) →
      (∀ i field v member, fields[i]? = some field → values[i]? = some v →
        m.memberAt? schema i = some member → Fits m types r field.type member v) →
      Fits m types r (.named type) schema (.record type values)
  | variant {type i : Nat} {schema member : SchemaRef} {variants : List (Field ValueType)}
      {unknown : Option String} {variant : Field ValueType} {content : Value} :
      (types.get type).body = .union variants unknown →
      m.table? schema = m.table? (types.get type).schema →
      (m.typeOf schema).form = .union →
      variants[i]? = some variant → m.memberAt? schema i = some member →
      content.writesNull = false → Fits m types r variant.type member content →
      Fits m types r (.named type) schema (.variant type i content)
  | constant {type i : Nat} {schema : SchemaRef} {v : Scalar} :
      wireType? (types.get type).body = some v.type →
      (wireValues (types.get type).body)[i]? = some v →
      (wireValues (types.get type).body).idxOf? v = some i → r.scalar schema v →
      Fits m types r (.named type) schema (.constant type i)
  | unknown {type : Nat} {schema : SchemaRef} {v : Scalar} :
      wireType? (types.get type).body = some v.type →
      keepsUnknown (types.get type).body = true →
      v ∉ wireValues (types.get type).body → r.scalar schema v →
      Fits m types r (.named type) schema (.unknown type v)

namespace Value

/-! ### Enumerations -/

theorem constantValue_of_getElem? {body : Body ValueType} {i : Nat} {v : Scalar}
    (h : (wireValues body)[i]? = some v) : constantValue body i = v := by
  cases body with
  | record fields => simp [wireValues] at h
  | union variants unknown => simp [wireValues] at h
  | words constants unknown =>
      rw [wireValues, List.getElem?_map] at h
      obtain ⟨c, hc, rfl⟩ := Option.map_eq_some_iff.mp h
      rw [constantValue, hc]
      rfl
  | numbers constants unknown =>
      rw [wireValues, List.getElem?_map] at h
      obtain ⟨c, hc, rfl⟩ := Option.map_eq_some_iff.mp h
      rw [constantValue, hc]

theorem writesUnknown_of_wireType? {body : Body ValueType} {type : ScalarType}
    (h : wireType? body = some type) : writesUnknown body = true := by
  cases body with
  | words constants unknown => rfl
  | numbers constants unknown => rfl
  | _ => simp [wireType?] at h

end Value

/-! ### One value -/

section
variable {Label Leaf : Type} (M : Medium Label Leaf) (types : Table) (standin : Standin)

/-- How typed values are read from a medium. -/
def scopeOf : Scope :=
  { toScope := M.scope, types }

/-- `t` is written for a value, and an equal value `v'` is read from it again. -/
structure Copies (type : ValueType) (schema : SchemaRef) (v : Value) (t : Tree Label Leaf)
    (v' : Value) : Prop where
  writes : M.Writes (v.calls M.model types schema) schema t
  isNull : t.isNull = v.writesNull
  same : v.same v' = true
  reads : ∀ depth, depth + v.nesting ≤ M.config.maxDepth →
    valueWith M.source (scopeOf M types) standin t type depth schema = .ok v'

/-- A value can be written under a schema and read again as a value of a type. -/
def Keeps (type : ValueType) (schema : SchemaRef) (v : Value) : Prop :=
  ∃ p : Tree Label Leaf × Value, Copies M types standin type schema v p.1 p.2

variable {M types standin}

theorem keeps_scalar {schema : SchemaRef} {v : Scalar} (hv : M.Carries schema v)
    (hs : v.same v = true) : Keeps M types standin (.scalar v.type) schema (.scalar v) := by
  obtain ⟨t, hw, hn, hr⟩ := hv
  refine ⟨(t, .scalar v), ?_, hn, ?_, fun depth _ => ?_⟩
  · rw [Value.calls]
    exact Writer.writes_scalar hw
  · rw [Value.same, hs]
  · rw [valueWith_scalar]
    show (M.source.scalar v.type schema t).map Value.scalar = _
    rw [hr]
    rfl

/-- A present value that is written as null is read as a missing one. -/
theorem not_keeps_present {type : ValueType} {schema : SchemaRef} {v : Value}
    (hn : v.writesNull = true) : ¬ Keeps M types standin (.option type) schema (.present v) := by
  rintro ⟨⟨t, v'⟩, hc⟩
  have hnull : t.isNull = true := by
    rw [hc.isNull, Value.writesNull, hn]
  obtain ⟨l, rfl⟩ := Tree.isNull_eq_true hnull
  have hdepth : 0 + (Value.present v).nesting ≤ M.config.maxDepth := by
    rw [Value.nesting, Value.nesting_of_writesNull hn]
    omega
  have hread := hc.reads 0 hdepth
  rw [valueWith_null] at hread
  obtain rfl : Value.missing = v' := Except.ok.inj hread
  have hsame := hc.same
  simp [Value.same] at hsame

theorem keeps_list {element : ValueType} {schema member : SchemaRef} {items : List Value}
    (hm : M.model.listMember schema = .ok member)
    (hn : ∀ v ∈ items, v.writesNull = true → M.model.isSparse schema = true)
    (h : ∀ v ∈ items, Keeps M types standin element member v) :
    Keeps M types standin (.list element) schema (.list items) := by
  obtain ⟨parts, rfl, hp⟩ := exists_parts h
  refine ⟨(.list (M.label schema) (parts.map fun p => p.2.1),
    .list (parts.map fun p => p.2.2)), ?_, rfl, ?_, fun depth hd => ?_⟩
  · have hw : ∀ q ∈ parts.map fun p => (p.1.calls M.model types member, p.2.1),
        M.Writes q.1 member q.2 :=
      List.forall_mem_map.mpr fun p hp' => (hp p hp').writes
    rw [Value.calls, hm]
    show M.Writes (.list schema (Value.itemCalls M.model types _ member)) schema _
    rw [Value.itemCalls_eq_map]
    simpa [Function.comp_def] using M.writes_list schema hw
  · have hs : ∀ q ∈ parts.map fun p => (p.1, p.2.2), q.1.same q.2 = true :=
      List.forall_mem_map.mpr fun p hp' => (hp p hp').same
    rw [Value.same]
    simpa [Function.comp_def] using Value.sameItems_of_parts hs
  · rw [Value.nesting] at hd
    have hpos : depth < M.config.maxDepth := by omega
    have hkept := Medium.kept_items (fun p hp' => (hp p hp').isNull) hn
    have hr : ∀ q ∈ parts.map fun p => p.2,
        valueWith M.source (scopeOf M types) standin q.1 element (depth + 1) member = .ok q.2 := by
      refine List.forall_mem_map.mpr fun p hp' => (hp p hp').reads _ ?_
      have hle := Value.nesting_le_nestingItems (List.mem_map_of_mem (f := Prod.fst) hp')
      omega
    have hread := valueWith_list (s := scopeOf M types) (l := M.label schema) hm hpos hkept hr
    rw [List.map_map] at hread
    exact hread

theorem keeps_map {sorted : Bool} {type : ValueType} {schema member : SchemaRef}
    {entries : List (String × Value)} (hm : M.model.mapValue schema = .ok member)
    (hkeys : (Entries.keys entries).Nodup)
    (ho : sorted = true → (Entries.keys entries).Pairwise (· < ·))
    (hn : ∀ e ∈ entries, e.2.writesNull = true → M.model.isSparse schema = true)
    (h : ∀ e ∈ entries, Keeps M types standin type member e.2) :
    Keeps M types standin (.map sorted type) schema (.map entries) := by
  obtain ⟨parts, rfl, hp⟩ := exists_parts h
  have hfst : Entries.keys (parts.map Prod.fst) = parts.map fun p => p.1.1 := by
    simp [Entries.keys, Function.comp_def]
  rw [hfst] at hkeys ho
  refine ⟨(.map (M.label schema) (parts.map fun p => (p.1.1, p.2.1)),
    .map (parts.map fun p => (p.1.1, p.2.2))), ?_, rfl, ?_, fun depth hd => ?_⟩
  · have hw : ∀ q ∈ parts.map fun p => (p.1.1, p.1.2.calls M.model types member, p.2.1),
        M.Writes q.2.1 member q.2.2 :=
      List.forall_mem_map.mpr fun p hp' => (hp p hp').writes
    have hnodup : ((parts.map fun p => (p.1.1, p.1.2.calls M.model types member, p.2.1)).map
        Prod.fst).Nodup := by
      simpa [Function.comp_def] using hkeys
    rw [Value.calls, hm]
    show M.Writes (.map schema (Value.entryCalls M.model types _ member)) schema _
    rw [Value.entryCalls_eq_map]
    simpa [Function.comp_def] using M.writes_map schema hw hnodup
  · have hnodup : ((parts.map fun p => (p.1.1, p.1.2, p.2.2)).map Prod.fst).Nodup := by
      simpa [Function.comp_def] using hkeys
    have hs : ∀ q ∈ parts.map fun p => (p.1.1, p.1.2, p.2.2), q.2.1.same q.2.2 = true :=
      List.forall_mem_map.mpr fun p hp' => (hp p hp').same
    simpa [Function.comp_def] using Value.same_map_of_parts hnodup hs
  · rw [Value.nesting] at hd
    have hpos : depth < M.config.maxDepth := by omega
    have hkept := Medium.kept_entries (fun p hp' => (hp p hp').isNull) hn
    have hr : ∀ q ∈ parts.map fun p => (p.1.1, p.2),
        valueWith M.source (scopeOf M types) standin q.2.1 type (depth + 1) member = .ok q.2.2 := by
      refine List.forall_mem_map.mpr fun p hp' => (hp p hp').reads _ ?_
      have hle := Value.nesting_le_nestingEntries (List.mem_map_of_mem (f := Prod.fst) hp')
      omega
    have hnodup : ((parts.map fun p => (p.1.1, p.2)).map Prod.fst).Nodup := by
      simpa [Function.comp_def] using hkeys
    have horder : sorted = true →
        ((parts.map fun p => (p.1.1, p.2)).map Prod.fst).Pairwise (· < ·) := by
      simpa [Function.comp_def] using ho
    have hread := valueWith_map (s := scopeOf M types) (l := M.label schema) hm hpos hkept hnodup
      horder hr
    rw [List.map_map] at hread
    exact hread

/-- Only an option has a missing value. -/
theorem Value.Fits.isOption {m : Model} {r : Leaves} {type : ValueType} {schema : SchemaRef}
    (h : Value.Fits m types r type schema .missing) : type.isOption = true := by
  cases h with
  | missing => rfl

end

/-! ### Documents and JSON -/

/-- Leaves that a document keeps: all but floats that are no number. -/
def Leaves.numbers (m : Model) : Leaves where
  scalar _ v := v.isNaN = false
  document schema d := m.typeOf schema = .document ∧ d.DistinctKeys ∧
    d.AllLeaves fun v => v.isNaN = false

/-- Leaves that JSON keeps: plain scalars, and no documents. -/
def Leaves.plain (c : Codec) (m : Model) : Leaves where
  scalar schema v := v.Plain (c.config.timestampFormatFor m schema)
  document _ _ := False

/-- The document that a value is written as is read as an equal value, by default settings. -/
def Value.ThroughDocument (m : Model) (types : Table) (type : ValueType) (schema : SchemaRef)
    (v : Value) : Prop :=
  ∃ d v', v.toDocument m types schema = .ok d ∧ ofDocument m types type schema {} d = .ok v' ∧
    v.same v' = true

end ShapeCodec.Typed

namespace ShapeCodec.Gallery

open Typed

/-- A node of the gallery: a number, and the node that follows. -/
def nodeOf (n : Sized .integer) (next : Value) : Value :=
  .record 14 [.scalar (.integer .integer n), next]

/-- Two nodes, the second of which is the last. -/
def twoNodes : Value :=
  nodeOf ⟨1, one_fits⟩ (.present (nodeOf ⟨2, two_fits⟩ .missing))

theorem nodeOf_fits {r : Leaves}
    (hr : ∀ n, r.scalar (.member (.declared 19) 0) (.integer .integer n)) (schema : SchemaRef)
    (ht : model.table? schema = some (.declared 19))
    (hf : (model.typeOf schema).form = .structure) (n : Sized .integer) {next : Value}
    (hnext : next.Fits model types r (.option node) (.member (.declared 19) 1))
    (hnull : next.writesNull = true → next = .missing) :
    (nodeOf n next).Fits model types r node schema := by
  have hmember : ∀ i member, model.memberAt? schema i = some member →
      member = .member (.declared 19) i := by
    intro i member hm
    obtain ⟨key, hkey, -, rfl⟩ := Model.memberAt?_eq_some_iff.mp hm
    rw [ht] at hkey
    rw [Option.some.inj hkey]
  have hbody : (types.get 14).body = .record [⟨"value", int⟩, ⟨"next", .option node⟩] := rfl
  refine .record hbody (ht.trans (by decide)) hf rfl ?_ ?_ ?_
  · rw [Model.members, ht]
    decide
  · intro i v member hvalue hm hn
    rw [hmember i member hm]
    rcases i with _ | _ | i
    · obtain rfl : _ = v := Option.some.inj hvalue
      simp [Value.writesNull] at hn
    · obtain rfl : next = v := Option.some.inj hvalue
      exact ⟨hnull hn, by decide⟩
    · simp at hvalue
  · intro i field v member hfield hvalue hm
    rw [hmember i member hm]
    rcases i with _ | _ | i
    · obtain rfl : _ = v := Option.some.inj hvalue
      obtain rfl : _ = field := Option.some.inj hfield
      exact .scalar (hr n)
    · obtain rfl : next = v := Option.some.inj hvalue
      obtain rfl : _ = field := Option.some.inj hfield
      exact hnext
    · simp at hvalue

/-- Nodes fit where their numbers do. -/
theorem nodes_fit {r : Leaves}
    (hr : ∀ n, r.scalar (.member (.declared 19) 0) (.integer .integer n)) :
    twoNodes.Fits model types r node (schema model "t#Node") := by
  have hlast := nodeOf_fits hr (.member (.declared 19) 1) (by decide)
    (by decide) ⟨2, two_fits⟩ .missing fun _ => rfl
  exact nodeOf_fits hr _ (by decide) (by decide) ⟨1, one_fits⟩ (.present rfl hlast)
    fun hn => absurd hn (by decide)

end ShapeCodec.Gallery
