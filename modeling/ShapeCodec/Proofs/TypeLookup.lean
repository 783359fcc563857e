import Mathlib.Data.List.Induction
import Mathlib.Logic.Function.Basic
import ShapeCodec.Gallery.Types
import ShapeCodec.Proofs.ValueRoundTrip
import ShapeCodec.Proofs.WrittenUnder
import ShapeCodec.Typed.Registry

/-!
# Looking types up

A chain of registries is one map: the registrations of all levels entered one after the other, the
root first. So the nearest level that has an id decides, and in it the last registration. A value
that was captured as a document is then found again by the id of its type, which the document either
names itself or has from the schema it was captured under.
-/

namespace ShapeCodec

/-! ### Labels -/

namespace Document

/-- What a document is compared with does not depend on labels. -/
theorem same_relabel (a d : Document) (l : Label) : a.same (d.relabel l) = a.same d := by
  cases a <;> cases d <;> rfl

/-- What is read as a scalar is read as one whatever it is labelled with. -/
theorem readScalar_relabel {m : Model} {type : ScalarType} {d : Document} {v : Scalar}
    (h : readScalar m type d = .ok v) (l : Label) : readScalar m type (d.relabel l) = .ok v := by
  -- only the text of a failure to read an instant names the schema
  cases type with
  | timestamp =>
      obtain ⟨t, ht, rfl⟩ := Result.map_eq_ok.mp h
      refine Result.map_eq_ok.mpr ⟨t, ?_, rfl⟩
      cases d with
      | leaf l' s =>
          cases hs : s.asInstant? with
          | none => simp [asInstant, hs] at ht
          | some r => simpa [asInstant, Tree.relabel, hs] using ht
      | null l' => simp [asInstant] at ht
      | list l' items => simp [asInstant] at ht
      | map l' entries => simp [asInstant] at ht
  | _ => cases d <;> exact h

/-- Nodes that are written carry the schema they were written under; documents keep theirs. -/
theorem label_of_denote {m : Model} {call : Call} {schema : SchemaRef} {d : Document}
    (h : Writer.denote m (sink m) call = .ok (schema, d)) :
    (∃ s d, call = .document s d) ∨ d.label = { schema } := by
  cases call with
  | document s d => exact .inl ⟨s, d, rfl⟩
  | «structure» s members =>
      obtain ⟨rfl, pairs, -, rfl⟩ := Writer.of_denote_structure h
      exact .inr rfl
  | null s =>
      rw [Writer.denote] at h
      obtain ⟨rfl, rfl⟩ := Prod.mk.inj (Except.ok.inj h)
      exact .inr rfl
  | scalar s v =>
      rw [Writer.denote] at h
      obtain ⟨rfl, rfl⟩ := Prod.mk.inj (Except.ok.inj h)
      exact .inr rfl
  | list s elements =>
      rw [Writer.denote] at h
      obtain ⟨rfl, items, rfl⟩ := Writer.of_return h
      exact .inr rfl
  | map s entries =>
      rw [Writer.denote] at h
      obtain ⟨rfl, pairs, rfl⟩ := Writer.of_return h
      exact .inr rfl
  | entry key value => rw [Writer.denote] at h; cases h
  | attempt call => rw [Writer.denote] at h; cases h
  | fail e => rw [Writer.denote] at h; cases h

end Document

namespace Typed

/-! ### One map for the whole chain -/

namespace TypeRegistry

variable {m : Model} {r : TypeRegistry} {id : ShapeId}

/-- A chain of registries, the root first, each with its registrations in the order of the calls. -/
def ofLevels (m : Model) (levels : List (List Registered)) : TypeRegistry :=
  levels.foldl (fun r level => level.foldl (fun r entry => r.register m entry) r.extend) {}

/-- The map that registrations fill, later ones in place of earlier ones. -/
def table (m : Model) (entries : List Registered) : ShapeId → Option Registered :=
  entries.foldl (fun map entry => Function.update map (m.id entry.schema) (some entry))
    fun _ => none

/-- The nearest level is asked first. -/
theorem find?_cons (level : Entries Registered) (parents : List (Entries Registered))
    (id : ShapeId) :
    find? id ⟨level :: parents⟩ = (level.find? id.text).or (find? id ⟨parents⟩) := by
  rw [find?, List.findSome?_cons]
  cases level.find? id.text <;> rfl

/-- A registration is found under its id, whatever was there before. -/
theorem find?_register (r : TypeRegistry) (entry : Registered) :
    (fun id => (r.register m entry).find? id) =
      Function.update (fun id => r.find? id) (m.id entry.schema) (some entry) := by
  have hlevel (level : Entries Registered) (parents : List (Entries Registered)) (id : ShapeId) :
      find? id ⟨level.insert (m.id entry.schema).text entry :: parents⟩ =
        if id = m.id entry.schema then some entry else find? id ⟨level :: parents⟩ := by
    rw [find?_cons, find?_cons]
    by_cases h : id = m.id entry.schema
    · rw [if_pos h, h, Entries.find?_insert_self]
      rfl
    · have htext : id.text ≠ (m.id entry.schema).text := fun ht => h (ShapeId.mk.injEq .. ▸ ht)
      rw [if_neg h, Entries.find?_insert_of_ne htext]
  funext id
  rw [Function.update_apply]
  obtain ⟨levels⟩ := r
  cases levels with
  | nil => exact hlevel [] [] id
  | cons level parents => exact hlevel level parents id

/-- So are the registrations of a level, one after the other. -/
theorem find?_registered (r : TypeRegistry) (level : List Registered) :
    (fun id => (level.foldl (fun r entry => r.register m entry) r).find? id) =
      level.foldl (fun map entry => Function.update map (m.id entry.schema) (some entry))
        fun id => r.find? id := by
  induction level generalizing r with
  | nil => rfl
  | cons entry level ih => rw [List.foldl_cons, List.foldl_cons, ih, find?_register]

/-- Lookups in a chain are lookups in the one map of all its registrations. -/
theorem find?_ofLevels (m : Model) (levels : List (List Registered)) (id : ShapeId) :
    (ofLevels m levels).find? id = table m levels.flatten id := by
  have hchain : ∀ r : TypeRegistry,
      (fun id => (levels.foldl
        (fun r level => level.foldl (fun r entry => r.register m entry) r.extend) r).find? id) =
      levels.flatten.foldl
        (fun map entry => Function.update map (m.id entry.schema) (some entry))
        fun id => r.find? id := by
    induction levels with
    | nil => exact fun r => rfl
    | cons level levels ih =>
        intro r
        rw [List.foldl_cons, List.flatten_cons, List.foldl_append, ih, find?_registered]
        -- a level without types of its own changes no lookup
        rfl
  exact congrFun (hchain {}) id

theorem table_eq_find? (entries : List Registered) (id : ShapeId) :
    table m entries id = entries.reverse.find? fun entry => m.id entry.schema == id := by
  induction entries using List.reverseRecOn with
  | nil => rfl
  | append_singleton entries last ih =>
      have hlast : table m (entries ++ [last]) id =
          if id = m.id last.schema then some last else table m entries id := by
        rw [table, List.foldl_append, List.foldl_cons, List.foldl_nil, Function.update_apply]
        rfl
      rw [hlast, ih, List.reverse_append, List.reverse_singleton, List.singleton_append,
        List.find?_cons]
      by_cases h : id = m.id last.schema
      · simp [h]
      · have hne : (m.id last.schema == id) = false := by simpa using fun he => h he.symm
        rw [if_neg h, hne]

/-- What the map holds under an id is the last registration with it. -/
theorem table_eq_some_iff {entries : List Registered} {entry : Registered} :
    table m entries id = some entry ↔ ∃ before after, entries = before ++ entry :: after ∧
      m.id entry.schema = id ∧ ∀ later ∈ after, m.id later.schema ≠ id := by
  rw [table_eq_find?, List.find?_eq_some_iff_append]
  constructor
  · rintro ⟨hid, after, before, heq, hafter⟩
    refine ⟨before.reverse, after.reverse, ?_, by simpa using hid, fun later hl => ?_⟩
    · rw [← List.reverse_reverse entries, heq]
      simp
    · simpa using hafter later (List.mem_reverse.mp hl)
  · rintro ⟨before, after, rfl, hid, hafter⟩
    refine ⟨by simpa using hid, after.reverse, before.reverse, by simp, fun later hl => ?_⟩
    simpa using hafter later (List.mem_reverse.mp hl)

/-- Lookups find the last registration of an id in the nearest level that has one. -/
theorem get_ofLevels (m : Model) (levels : List (List Registered)) (id : ShapeId) :
    (ofLevels m levels).get id = match table m levels.flatten id with
      | some entry => .ok entry
      | none => .error (.unknownType id) := by
  have hfound := find?_ofLevels m levels id
  cases hentry : table m levels.flatten id <;> simp only [get, hfound, hentry]

end TypeRegistry

/-! ### Captured values -/

variable {m : Model} {types : Table} {type : ValueType} {S : SchemaRef} {v : Value}

namespace Value

/-- Equal values have roots of the same type. -/
theorem RootOf.of_same {w : Value} (hw : w.RootOf type) (h : v.same w = true) :
    v.RootOf type := by
  cases hw with
  | scalar type x => cases v with
    | scalar x => exact .scalar type x
    | _ => simp [same] at h
  | document d => cases v with
    | document d => exact .document d
    | _ => simp [same] at h
  | record n fields => cases v with
    | record n' fields => simp [same] at h; exact h.1 ▸ .record _ fields
    | _ => simp [same] at h
  | variant n i content => cases v with
    | variant n' i content => simp [same] at h; exact h.1.1 ▸ .variant _ i content
    | _ => simp [same] at h
  | constant n i => cases v with
    | constant n' i => simp [same] at h; exact h.1 ▸ .constant _ i
    | _ => simp [same] at h
  | unknown n content => cases v with
    | unknown n' content => simp [same] at h; exact h.1 ▸ .unknown _ content
    | _ => simp [same] at h

/-- A value of a type other than the one of documents is captured under the schema given. -/
theorem RootOf.label {d : Document} (hv : v.RootOf type) (ht : type ≠ .document)
    (h : v.toDocument m types S = .ok d) : d.label = { schema := S } := by
  rw [toDocument, Document.ofCall, Writer.write_eq_denote (calls_sound v S).isValue] at h
  obtain ⟨⟨schema, d⟩, hdenote, rfl⟩ := Result.map_eq_ok.mp h
  obtain rfl : schema = S := schema?_calls v S schema (Writer.schema?_of_denote hdenote)
  rcases Document.label_of_denote hdenote with ⟨s, d', hcall⟩ | hlabel
  · cases hv with
    | document d => exact absurd rfl ht
    | unknown n content =>
        rw [calls] at hcall
        split at hcall <;> cases hcall
    | _ => rw [calls] at hcall; cases hcall
  · exact hlabel

end Value

/-- A document that is labelled anew is read as an equal value of any type with its own schema. -/
theorem ofDocument_relabel {d : Document} {w : Value} (htype : types.schemaOf? type = some S)
    (h : ofDocument m types type S {} d = .ok w) (l : Label) :
    ∃ w', ofDocument m types type S {} (d.relabel l) = .ok w' ∧
      ∀ v : Value, v.same w' = v.same w := by
  cases type with
  | scalar type =>
      rw [ofDocument, read, valueWith_scalar] at h
      obtain ⟨x, hx, rfl⟩ := Result.map_eq_ok.mp h
      refine ⟨.scalar x, ?_, fun _ => rfl⟩
      rw [ofDocument, read, valueWith_scalar]
      exact Result.map_eq_ok.mpr ⟨x, Document.readScalar_relabel hx l, rfl⟩
  | document =>
      obtain rfl : SchemaRef.prelude .document = S := Option.some.inj htype
      have hf : (m.typeOf (.prelude .document)).form = .document := rfl
      rw [ofDocument, read, valueWith_document] at h
      rw [ofDocument, read, valueWith_document]
      cases hn : d.isNull with
      | true =>
          obtain ⟨l', rfl⟩ := Tree.isNull_eq_true hn
          exact ⟨w, h, fun _ => rfl⟩
      | false =>
          have hn' : (d.relabel l).isNull = false := by cases d <;> first | rfl | cases hn
          rw [(Reader.Reads.document hf hn).run] at h
          rw [(Reader.Reads.document hf hn').run]
          obtain rfl := Except.ok.inj h
          refine ⟨.document (d.relabel l), rfl, fun v => ?_⟩
          cases v with
          | document a => exact Document.same_relabel a d l
          | _ => rfl
  | named n =>
      refine ⟨w, ?_, fun _ => rfl⟩
      rw [← h, ofDocument, ofDocument, read, read, valueWith_eq, valueWith_eq, readNode_named,
        readNode_named]
      cases d <;> rfl
  | list element => cases htype
  | map sorted value => cases htype
  | option type => cases htype

/-! ### Reading by id -/

/-- A registered type is found for a document, and an equal value read; no other type will do. -/
structure TypeRegistry.Gives (r : TypeRegistry) (m : Model) (types : Table) (entry : Registered)
    (v : Value) (d : Document) : Prop where
  expected : ∃ w, r.expect m types entry.name d = .ok w ∧ v.same w = true
  other : ∀ name, name ≠ entry.name →
    r.expect m types name d = .error (.typeMismatch name (m.id entry.schema).text)

/-- What is read as a type is given where the id of the type is the one that a document names. -/
theorem TypeRegistry.gives {r : TypeRegistry} {entry : Registered} {d : Document} {w : Value}
    (hget : r.get (m.id entry.schema) = .ok entry) (hid : d.discriminator m = m.id entry.schema)
    (hread : Typed.ofDocument m types entry.type entry.schema {} d = .ok w)
    (hsame : v.same w = true) : r.Gives m types entry v d := by
  have hfound : r.ofDocument m types d = .ok { entry, value := w } := by
    rw [ofDocument, ofDocumentAs, readAs, hid, hget]
    show (read _ _ entry.type entry.schema d >>= fun w => .ok _) = _
    rw [show read _ _ entry.type entry.schema d = .ok w from hread]
    rfl
  refine ⟨⟨w, ?_, hsame⟩, fun name hname => ?_⟩
  · simp only [expect, hfound, Result.ok_bind]
    rfl
  · have hne : ¬ entry.name = name := fun he => hname he.symm
    simp only [expect, hfound, Result.ok_bind, hne, if_false]
    rfl

/--
A chain of registries is the one map of its registrations. A value that survives being captured as a
document is read again by the id of its type where the document names it, and no other type will do;
documents that name no type are those of their schema, which is the type's own unless the type is
the one of documents or is bound to a member.
-/
theorem type_lookup_flattens (m : Model) (types : Table) (levels : List (List Registered)) :
    (∀ id, (TypeRegistry.ofLevels m levels).get id =
        (match TypeRegistry.table m levels.flatten id with
        | some entry => .ok entry
        | none => .error (.unknownType id)) ∧
      (TypeRegistry.ofLevels m levels).contains id =
        (TypeRegistry.table m levels.flatten id).isSome ∧
      ∀ entry, TypeRegistry.table m levels.flatten id = some entry ↔
        ∃ before after, levels.flatten = before ++ entry :: after ∧ m.id entry.schema = id ∧
          ∀ later ∈ after, m.id later.schema ≠ id) ∧
    ∀ (entry : Registered) (v : Value), types.schemaOf? entry.type = some entry.schema →
      (TypeRegistry.ofLevels m levels).get (m.id entry.schema) = .ok entry →
      v.ThroughDocument m types entry.type entry.schema →
      ∃ d, v.toDocument m types entry.schema = .ok d ∧
        (TypeRegistry.ofLevels m levels).Gives m types entry v
          (d.withDiscriminator (m.id entry.schema)) ∧
        (entry.type ≠ .document → entry.schema.isMember = false →
          (TypeRegistry.ofLevels m levels).Gives m types entry v d) := by
  constructor
  · intro id
    have hget := TypeRegistry.get_ofLevels m levels id
    refine ⟨hget, ?_, fun entry => TypeRegistry.table_eq_some_iff⟩
    rw [TypeRegistry.contains, hget]
    cases TypeRegistry.table m levels.flatten id <;> rfl
  · rintro entry v htype hget ⟨d, w, hd, hw, hsame⟩
    refine ⟨d, hd, ?_, fun hdocument hmember => ?_⟩
    · obtain ⟨w', hw', hequal⟩ :=
        ofDocument_relabel htype hw { d.label with discriminator := some (m.id entry.schema) }
      refine TypeRegistry.gives hget ?_ hw' ((hequal v).trans hsame)
      cases d <;> rfl
    · refine TypeRegistry.gives hget ?_ hw hsame
      have hlabel := ((rootOf_of_read htype hw).of_same hsame).label hdocument hd
      have hshape : m.shapeId entry.schema = m.id entry.schema := by
        cases hS : entry.schema with
        | shape key => rfl
        | member container index => simp [hS, SchemaRef.isMember] at hmember
      rw [Document.discriminator, Document.schema, hlabel]
      exact hshape

end Typed

namespace Gallery

open Typed (Declaration Registered Table TypeRegistry Value ValueType)

/-- The type of documents, which any program may register. -/
def anything : Registered :=
  { name := "Document", type := .document, schema := .prelude .document }

/-- The number five, which carries the schema of its kind. -/
def five : Document :=
  .ofScalar (.integer .integer ⟨5, rfl⟩)

/-- The schema of the node that follows, which is a member. -/
def following : SchemaRef :=
  .member (.declared 19) 1

/-- A type without fields, bound to a member. -/
def bound : Table :=
  { declarations := #[{ name := "Following", schema := following, body := .record [] }] }

def boundEntry : Registered :=
  { name := "Following", type := .named 0, schema := following }

/--
A captured number goes by the schema of numbers where documents are registered, and what was
captured under a member by the shape that the member targets.
-/
theorem captured_under_another_id :
    ((TypeRegistry.ofLevels model [[anything]]).get (model.id anything.schema) = .ok anything ∧
      (Value.document five).ThroughDocument model types anything.type anything.schema ∧
      (Value.document five).toDocument model types anything.schema = .ok five ∧
      (TypeRegistry.ofLevels model [[anything]]).expect model types anything.name five =
        .error (.unknownType ⟨"smithy.api#Integer"⟩)) ∧
    ((TypeRegistry.ofLevels model [[boundEntry]]).get (model.id following) = .ok boundEntry ∧
      (Value.record 0 []).ThroughDocument model bound boundEntry.type following ∧
      (Value.record 0 []).toDocument model bound following = .ok (.map { schema := following } []) ∧
      (TypeRegistry.ofLevels model [[boundEntry]]).expect model bound boundEntry.name
        (.map { schema := following } []) = .error (.unknownType ⟨"t#Node"⟩)) := by
  refine ⟨⟨rfl, ⟨five, .document five, rfl, rfl, rfl⟩, rfl, rfl⟩,
    ⟨rfl, ⟨_, .record 0 [], rfl, rfl, rfl⟩, rfl, rfl⟩⟩

/-- Nodes are found in the parent of a registry that has other types. -/
theorem type_lookup_flattens_nodes :
    let entry : Registered := { name := "Node", type := node, schema := schema model "t#Node" }
    let r := TypeRegistry.ofLevels model [[anything, entry], [boundEntry]]
    ∃ d, twoNodes.toDocument model types entry.schema = .ok d ∧
      r.Gives model types entry twoNodes (d.withDiscriminator (model.id entry.schema)) ∧
      r.Gives model types entry twoNodes d := by
  intro entry r
  have hthrough : twoNodes.ThroughDocument model types entry.type entry.schema :=
    ⟨_, twoNodes, rfl, rfl, rfl⟩
  obtain ⟨d, hd, hnamed, hplain⟩ :=
    (Typed.type_lookup_flattens model types [[anything, entry], [boundEntry]]).2 entry twoNodes rfl
      rfl hthrough
  exact ⟨d, hd, hnamed, hplain nofun rfl⟩

end Gallery
end ShapeCodec
