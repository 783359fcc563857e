import Mathlib.Data.List.Perm.Basic
import ShapeCodec.Proofs.Conformance
import ShapeCodec.Proofs.Layout
import ShapeCodec.Proofs.Leaves
import ShapeCodec.Proofs.Tree
import ShapeCodec.Writer.Document

/-!
# The calls of documents

What a document calls for under each form of schema, without the walk that finds it. The members of
a structure are written in the order of the schema and not of the document; no member gets lost.
-/

namespace ShapeCodec.Document

open ShapeCodec.Tree (Visited)

variable {m : Model} {schema : SchemaRef} {l : Label}

/-! ### Members in the order of the schema -/

/-- The members that a structure holds, with their names and values. -/
def memberParts (m : Model) (schema : SchemaRef) (entries : Entries Document) :
    List (SchemaRef × String × Document) :=
  (m.members schema).filterMap fun member =>
    (m.memberName? member).bind fun name =>
      ((entries.find? name).filter fun d => !d.isNull).map fun d => (member, name, d)

theorem mem_memberParts {entries : Entries Document} {member : SchemaRef} {name : String}
    {d : Document} : (member, name, d) ∈ memberParts m schema entries ↔
      member ∈ m.members schema ∧ m.memberName? member = some name ∧
        entries.find? name = some d ∧ d.isNull = false := by
  rw [memberParts, List.mem_filterMap]
  constructor
  · rintro ⟨member', hm, hp⟩
    obtain ⟨name', hname, hp⟩ := Option.bind_eq_some_iff.mp hp
    obtain ⟨d', hd, heq⟩ := Option.map_eq_some_iff.mp hp
    obtain ⟨hfind, hnull⟩ := Option.filter_eq_some_iff.mp hd
    obtain ⟨rfl, rfl, rfl⟩ : member' = member ∧ name' = name ∧ d' = d := by simpa using heq
    exact ⟨hm, hname, hfind, by simpa using hnull⟩
  · rintro ⟨hm, hname, hfind, hnull⟩
    exact ⟨member, hm, by simp [hname, hfind, hnull, Option.filter]⟩

theorem nodup_memberParts (m : Model) (schema : SchemaRef) (entries : Entries Document) :
    ((memberParts m schema entries).map Prod.fst).Nodup := by
  rw [memberParts, List.map_filterMap]
  refine (m.nodup_members schema).filterMap ?_
  intro a b c ha hb
  -- whatever becomes of a member, it is still that member
  have hfst : ∀ {s : SchemaRef}, c ∈ Option.map Prod.fst ((m.memberName? s).bind fun name =>
      ((entries.find? name).filter fun d => !d.isNull).map fun d => (s, name, d)) → s = c := by
    intro s hs
    obtain ⟨p, hp, hc⟩ := Option.map_eq_some_iff.mp hs
    obtain ⟨name, -, hp⟩ := Option.bind_eq_some_iff.mp hp
    obtain ⟨d, -, rfl⟩ := Option.map_eq_some_iff.mp hp
    exact hc
  exact (hfst ha).trans (hfst hb).symm

/-- Where all entries are members and none is null, all of them are written. -/
theorem memberParts_perm {entries : Entries Document} (hS : m.LaidOut schema)
    (hn : (Entries.keys entries).Nodup) (hnull : ∀ e ∈ entries, e.2.isNull = false)
    (hmem : ∀ e ∈ entries, (m.member? schema e.1).isSome = true) :
    (Entries.keys entries).Perm ((memberParts m schema entries).map fun p => p.2.1) := by
  have hfound : ∀ p ∈ memberParts m schema entries, m.member? schema p.2.1 = some p.1 := by
    intro p hp
    obtain ⟨hin, hname, -, -⟩ := mem_memberParts.mp hp
    exact Model.member?_of_mem hS.names_nodup hin hname
  have hnodup : ((memberParts m schema entries).map fun p => p.2.1).Nodup := by
    have hkeys := Model.nodup_keys_of_found hfound (nodup_memberParts m schema entries)
    simpa [Entries.keys, Function.comp_def] using hkeys
  refine (List.perm_ext_iff_of_nodup hn hnodup).mpr fun key => ?_
  constructor
  · intro hkey
    obtain ⟨e, he, rfl⟩ := List.mem_map.mp hkey
    obtain ⟨member, hmember⟩ := Option.isSome_iff_exists.mp (hmem e he)
    obtain ⟨hin, hname⟩ := Model.mem_of_member? hmember
    exact List.mem_map.mpr ⟨(member, e.1, e.2), mem_memberParts.mpr
      ⟨hin, hname, Entries.find?_of_mem hn he, hnull e he⟩, rfl⟩
  · intro hkey
    obtain ⟨p, hp, rfl⟩ := List.mem_map.mp hkey
    obtain ⟨-, -, hfind, -⟩ := mem_memberParts.mp hp
    exact Entries.mem_keys_of_mem (Entries.mem_of_find? hfind)

/-- A union that holds a member writes that member. -/
theorem memberParts_singleton {member : SchemaRef} {key : String} {d : Document}
    (hS : m.LaidOut schema) (hm : m.member? schema key = some member) (hnull : d.isNull = false) :
    memberParts m schema [(key, d)] = [(member, key, d)] := by
  have hkeys : (Entries.keys [(key, d)]).Nodup := by simp [Entries.keys]
  have hperm := memberParts_perm hS hkeys (by simpa using hnull) (by simp [hm])
  have hnames := List.perm_singleton.mp hperm.symm
  obtain ⟨⟨member', name, d₀⟩, hone, hkey⟩ := List.map_eq_singleton_iff.mp hnames
  obtain ⟨hin, hname, hfind, -⟩ := mem_memberParts.mp
    (hone ▸ List.mem_singleton_self (member', name, d₀))
  obtain rfl : name = key := hkey
  obtain rfl : d = d₀ := by simpa [Entries.find?] using hfind
  have hsame := Model.member?_of_mem hS.names_nodup hin hname
  rw [hm] at hsame
  rw [hone, Option.some.inj hsame]

/-! ### Calls by form -/

theorem calls_null : calls m (.null l) schema = .null schema := by
  rw [calls, Tree.walk_null]
  rfl

/-- Where anything is allowed, a document is written as it is. -/
theorem calls_document {d : Document} (hf : (m.typeOf schema).form = .document)
    (hn : d.isNull = false) : calls m d schema = .document schema d := by
  cases d with
  | null l => simp at hn
  | leaf l v =>
      rw [calls, Tree.walk_leaf]
      show scalarCalls m l v schema = _
      rw [scalarCalls, hf]
  | list l items =>
      rw [calls, Tree.walk_list]
      show listCalls m l _ schema = _
      rw [listCalls, hf]
      simp [Function.comp_def]
  | map l entries =>
      rw [calls, Tree.walk_map]
      show mapCalls m l _ schema = _
      rw [mapCalls, hf]
      simp [Function.comp_def]

/-- A scalar is written as the type that a schema asks for. -/
theorem calls_leaf_as {v : Scalar} {type : ScalarType}
    (hf : (m.typeOf schema).form = .scalar type) :
    calls m (.leaf l v) schema = .ofResult ((v.as type).map (.scalar schema)) := by
  rw [calls, Tree.walk_leaf]
  show scalarCalls m l v schema = _
  rw [scalarCalls, hf]

theorem calls_leaf {v : Scalar} (hf : (m.typeOf schema).form = .scalar v.type) :
    calls m (.leaf l v) schema = .scalar schema v := by
  rw [calls_leaf_as hf, Scalar.as_type]
  rfl

theorem calls_list {member : SchemaRef} {items : List Document}
    (hm : m.listMember schema = .ok member) :
    calls m (.list l items) schema = .list schema (items.map fun d => calls m d member) := by
  rw [calls, Tree.walk_list]
  show listCalls m l _ schema = _
  rw [listCalls, Model.form_of_listMember hm]
  simp only [hm, List.map_map]
  rfl

/-- A collection whose elements have no schema is not written. -/
theorem calls_list_of_error {items : List Document} {e : Error}
    (hf : (m.typeOf schema).form = .list) (hm : m.listMember schema = .error e) :
    calls m (.list l items) schema = .fail e := by
  rw [calls, Tree.walk_list]
  show listCalls m l _ schema = _
  rw [listCalls, hf]
  simp only [hm]
  rfl

theorem calls_map {member : SchemaRef} {entries : List (String × Document)}
    (hm : m.mapValue schema = .ok member) :
    calls m (.map l entries) schema =
      .map schema (entries.map fun e => .entry e.1 [calls m e.2 member]) := by
  rw [calls, Tree.walk_map]
  show mapCalls m l _ schema = _
  rw [mapCalls, Model.form_of_mapValue hm]
  simp only [hm, List.map_map]
  rfl

theorem calls_map_of_error {entries : List (String × Document)} {e : Error}
    (hf : (m.typeOf schema).form = .map) (hm : m.mapValue schema = .error e) :
    calls m (.map l entries) schema = .fail e := by
  rw [calls, Tree.walk_map]
  show mapCalls m l _ schema = _
  rw [mapCalls, hf]
  simp only [hm]
  rfl

theorem calls_members {entries : List (String × Document)}
    (hf : (m.typeOf schema).form = .structure ∨ (m.typeOf schema).form = .union) :
    calls m (.map l entries) schema = .structure schema
      ((memberParts m schema entries).map fun p => calls m p.2.2 p.1) := by
  have hcalls : memberCalls m schema (entries.map fun e => (e.1, ⟨e.2, e.2.walk (callsWalk m)⟩)) =
      (memberParts m schema entries).map fun p => calls m p.2.2 p.1 := by
    rw [memberCalls, memberParts, List.map_filterMap]
    -- members are looked up by name, whatever the walk has made of the values
    refine List.filterMap_congr fun member _ => ?_
    cases m.memberName? member with
    | none => rfl
    | some name =>
        let visited (d : Document) : Visited Label Scalar Writing := ⟨d, d.walk (callsWalk m)⟩
        have hfind : Entries.find? name (entries.map fun e => (e.1, visited e.2)) =
            (Entries.find? name entries).map visited :=
          Entries.find?_map (fun _ => rfl) name entries
        simp only [visited] at hfind
        simp only [Option.bind_some, hfind]
        cases Entries.find? name entries with
        | none => rfl
        | some d => cases hnull : d.isNull <;> simp [Option.filter, hnull, calls]
  rw [calls, Tree.walk_map]
  show mapCalls m l _ schema = _
  rcases hf with hf | hf
  · rw [mapCalls, hf]
    simp only [hcalls]
  · rw [mapCalls, hf]
    simp only [hcalls]

/-! ### Documents of another kind -/

theorem of_asMap {d : Document} {entries : Entries Document} (h : d.asMap = .ok entries) :
    ∃ l, d = .map l entries := by
  cases d <;> cases h
  exact ⟨_, rfl⟩

theorem of_asList {d : Document} {items : List Document} (h : d.asList = .ok items) :
    ∃ l, d = .list l items := by
  cases d <;> cases h
  exact ⟨_, rfl⟩

theorem of_asMap_eq_error {d : Document} {e : Error} (h : d.asMap = .error e) :
    e = mismatch d .map := by
  cases d <;> cases h <;> rfl

theorem of_asList_eq_error {d : Document} {e : Error} (h : d.asList = .error e) :
    e = mismatch d .list := by
  cases d <;> cases h <;> rfl

theorem calls_members_misfit {d : Document} {e : Error}
    (hf : (m.typeOf schema).form = .structure ∨ (m.typeOf schema).form = .union)
    (hn : d.isNull = false) (hd : d.asMap = .error e) :
    calls m d schema = .structure schema [.fail e] := by
  cases d with
  | null l => cases hn
  | leaf l v =>
      cases hd
      rcases hf with hf | hf <;> simp [calls, callsWalk, scalarCalls, hf]
  | list l items =>
      cases hd
      rcases hf with hf | hf <;>
        simp [calls, Tree.walk_list, callsWalk, listCalls, hf, Function.comp_def]
  | map l entries => cases hd

theorem calls_list_misfit {d : Document} {e : Error} (hf : (m.typeOf schema).form = .list)
    (hn : d.isNull = false) (hd : d.asList = .error e) : calls m d schema = .fail e := by
  cases d with
  | null l => cases hn
  | leaf l v => cases hd; simp [calls, callsWalk, scalarCalls, hf]
  | list l items => cases hd
  | map l entries =>
      cases hd
      simp [calls, Tree.walk_map, callsWalk, mapCalls, hf, Function.comp_def]

theorem calls_map_misfit {d : Document} {e : Error} (hf : (m.typeOf schema).form = .map)
    (hn : d.isNull = false) (hd : d.asMap = .error e) : calls m d schema = .fail e := by
  cases d with
  | null l => cases hn
  | leaf l v => cases hd; simp [calls, callsWalk, scalarCalls, hf]
  | list l items =>
      cases hd
      simp [calls, Tree.walk_list, callsWalk, listCalls, hf, Function.comp_def]
  | map l entries => cases hd

theorem calls_scalar {d : Document} {type : ScalarType}
    (hf : (m.typeOf schema).form = .scalar type) (hn : d.isNull = false) :
    calls m d schema = .ofResult ((d.asScalar type).map (.scalar schema)) := by
  cases d with
  | null l => cases hn
  | leaf l v => exact calls_leaf_as hf
  | list l items =>
      simp [calls, Tree.walk_list, callsWalk, listCalls, hf, Function.comp_def]
  | map l entries => simp [calls, Tree.walk_map, callsWalk, mapCalls, hf, Function.comp_def]

end ShapeCodec.Document
