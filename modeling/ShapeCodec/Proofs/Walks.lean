import ShapeCodec.Proofs.Members
import ShapeCodec.Proofs.Traversal

/-!
# The walk of a schema

Where a schema leads to in a value, whatever is made of it there: to the members of a structure that
are present, to the one member of a union if it is known, and to what a list or map keeps. Nulls,
values without a schema and unknown members are not walked.
-/

namespace ShapeCodec

open ShapeCodec.Tree (Parts Visited)

variable {Label Leaf α β : Type}

/-! ### What a collection keeps -/

/-- A collection keeps what is not null, and keeps everything if it is sparse. -/
def Model.keeps (m : Model) (collection : SchemaRef) (isNull : Bool) : Bool :=
  !isNull || m.isSparse collection

theorem Model.keeps_iff {m : Model} {collection : SchemaRef} {isNull : Bool} :
    m.keeps collection isNull = true ↔ (isNull = true → m.isSparse collection = true) := by
  cases isNull <;> simp [keeps]

namespace Scope

/-- What a null comes to where it is not kept: nothing, or an error. -/
def refusal? (s : Scope) (collection : SchemaRef) : Option Error :=
  match s.config.nullPolicy.onNull s.model collection with
  | .ok () => none
  | .error e => some e

variable {s : Scope} {collection : SchemaRef} {isNull : α → Bool} {items : List α}

theorem refusal?_drop (h : s.config.nullPolicy = .drop) : s.refusal? collection = none := by
  rw [refusal?, h]
  rfl

theorem refusal?_reject (h : s.config.nullPolicy = .reject) :
    s.refusal? collection = some (.nullNotAllowed (s.model.id collection)) := by
  rw [refusal?, h]
  rfl

theorem kept_eq : s.kept collection isNull items = items.filterMap fun a =>
    if s.model.keeps collection (isNull a) = true then some (.ok a)
    else (s.refusal? collection).map .error := by
  refine List.filterMap_congr fun a _ => ?_
  unfold Model.keeps refusal?
  by_cases hn : isNull a = true
  · by_cases hs : s.model.isSparse collection = true
    · simp [hn, hs]
    · rw [if_pos (by simp [hn, hs]), if_neg (by simp [hn, hs])]
      cases s.config.nullPolicy <;> rfl
  · simp [hn]

/-- Where nulls are dropped, what is not kept is passed over. -/
theorem kept_drop (h : s.config.nullPolicy = .drop) :
    s.kept collection isNull items =
      (items.filter fun a => s.model.keeps collection (isNull a)).map .ok := by
  rw [kept_eq, ← List.filterMap_eq_map, List.filterMap_filter, refusal?_drop h]
  rfl

/-- Among items that are handed on without an error, none is refused. -/
theorem findSome?_of_kept {parts : List β} {part : β → α}
    (h : s.kept collection isNull items = parts.map fun p => .ok (part p))
    (fault? : α → Option Error) :
    (items.findSome? fun a => if s.model.keeps collection (isNull a) = true then fault? a
      else s.refusal? collection) = parts.findSome? fun p => fault? (part p) := by
  rw [kept_eq] at h
  induction items generalizing parts with
  | nil =>
      obtain rfl : parts = [] := by simpa using h.symm
      rfl
  | cons a items ih =>
      rw [List.findSome?_cons]
      by_cases hk : s.model.keeps collection (isNull a) = true
      · simp only [List.filterMap_cons, hk, if_true] at h
        obtain ⟨p, rest, rfl, hp, hrest⟩ := List.map_eq_cons_iff.mp h.symm
        obtain rfl : part p = a := Except.ok.inj hp
        simp only [hk, if_true, List.findSome?_cons, ih hrest.symm]
      · simp only [List.filterMap_cons, hk] at h ⊢
        cases hr : s.refusal? collection with
        | some e =>
            rw [hr] at h
            obtain ⟨p, -, -, hp, -⟩ := List.map_eq_cons_iff.mp h.symm
            nomatch hp
        | none =>
            rw [hr] at h ih
            exact ih h

/-- What is handed on without an error is all that is kept. -/
theorem filter_keeps {parts : List β} {part : β → α}
    (h : s.kept collection isNull items = parts.map fun p => .ok (part p)) :
    (items.filter fun a => s.model.keeps collection (isNull a)) = parts.map part := by
  have hvalues : (s.kept collection isNull items).filterMap Except.toOption =
      items.filter fun a => s.model.keeps collection (isNull a) := by
    rw [kept_eq, List.filterMap_filterMap, ← List.filterMap_eq_filter]
    refine List.filterMap_congr fun a _ => ?_
    by_cases hk : s.model.keeps collection (isNull a) = true
    · simp [hk, Except.toOption, Option.guard]
    · cases s.refusal? collection <;> simp [hk, Except.toOption, Option.guard]
  rw [← hvalues, h, List.filterMap_map, ← List.filterMap_eq_map]
  rfl

/-- Where nulls are refused, everything is kept if nothing is an error. -/
theorem filter_keeps_reject {parts : List β} {part : β → α}
    (hs : s.config.nullPolicy = .reject)
    (h : s.kept collection isNull items = parts.map fun p => .ok (part p)) :
    (items.filter fun a => s.model.keeps collection (isNull a)) = items := by
  refine List.filter_eq_self.mpr fun a ha => ?_
  by_contra hk
  have hrefused : .error (.nullNotAllowed (s.model.id collection)) ∈
      s.kept collection isNull items := by
    rw [kept_eq, refusal?_reject hs]
    exact List.mem_filterMap.mpr ⟨a, ha, by rw [if_neg hk]; rfl⟩
  rw [h] at hrefused
  obtain ⟨p, -, hp⟩ := List.mem_map.mp hrefused
  nomatch hp

end Scope

namespace Source

variable (src : Source Label Leaf) (m : Model)

/-! ### One step of the walk -/

/-- The one member of a union, if it is known. -/
def knownMember (schema : SchemaRef) (isNull : α → Bool) (entries : Entries α) :
    List (SchemaRef × α) :=
  match src.candidates isNull entries with
  | [entry] => src.presentMembers schema isNull [entry]
  | _ => []

/-- The parts of a node that the walk goes on to, with their schemas. -/
def handedOn (schema : SchemaRef) (node : Parts Label Leaf β) :
    List (SchemaRef × Visited Label Leaf β) :=
  match (m.typeOf schema).form, node with
  | .structure, .map _ entries => src.presentMembers schema Visited.isNull entries
  | .union, .map _ entries => src.knownMember schema Visited.isNull entries
  | .list, .list _ items =>
    match m.listMember schema with
    | .ok member =>
      (items.filter fun v => m.keeps schema v.isNull).map fun v => (member, v)
    | .error _ => []
  | .map, .map _ entries =>
    match m.mapValue schema with
    | .ok member =>
      (entries.filter fun e => m.keeps schema e.2.isNull).map fun e => (member, e.2)
    | .error _ => []
  | _, _ => []

/-- The parts of a value that the walk goes on to, with their schemas. -/
def partsUnder (schema : SchemaRef) (t : Tree Label Leaf) : List (SchemaRef × Tree Label Leaf) :=
  (src.handedOn m schema t.parts).map fun p => (p.1, p.2.tree)

theorem knownMember_visit (f : Tree Label Leaf → β) (schema : SchemaRef)
    (entries : Entries (Tree Label Leaf)) :
    src.knownMember schema Visited.isNull (entries.map fun e => (e.1, e.2.visit f)) =
      (src.knownMember schema Tree.isNull entries).map fun p => (p.1, p.2.visit f) := by
  rw [knownMember, knownMember, src.candidates_visit f]
  rcases src.candidates Tree.isNull entries with _ | ⟨e, _ | ⟨e', es⟩⟩
  · rfl
  · exact src.presentMembers_visit f schema [e]
  · rfl

variable {src m} {schema member : SchemaRef} {l : Label}

theorem knownMember_of_some {isNull : α → Bool} {entries : Entries α} {key : String} {a : α}
    (hc : src.candidates isNull entries = [(key, a)])
    (hm : src.member? schema key = some member) :
    src.knownMember schema isNull entries = [(member, a)] := by
  obtain ⟨-, hnull, -⟩ := src.mem_of_candidates hc
  simp [knownMember, hc, presentMembers, hm, hnull]

theorem knownMember_of_none {isNull : α → Bool} {entries : Entries α} {key : String} {a : α}
    (hc : src.candidates isNull entries = [(key, a)]) (hm : src.member? schema key = none) :
    src.knownMember schema isNull entries = [] := by
  simp [knownMember, hc, presentMembers, hm]

section
variable (f : Tree Label Leaf → β)

theorem handedOn_structure {entries : List (String × Tree Label Leaf)}
    (hf : (m.typeOf schema).form = .structure) :
    src.handedOn m schema ((Tree.map l entries).partsWith f) =
      (src.presentMembers schema Tree.isNull entries).map fun p => (p.1, p.2.visit f) := by
  simp only [handedOn, hf, Tree.partsWith]
  exact src.presentMembers_visit f schema entries

theorem handedOn_union {entries : List (String × Tree Label Leaf)}
    (hf : (m.typeOf schema).form = .union) :
    src.handedOn m schema ((Tree.map l entries).partsWith f) =
      (src.knownMember schema Tree.isNull entries).map fun p => (p.1, p.2.visit f) := by
  simp only [handedOn, hf, Tree.partsWith]
  exact src.knownMember_visit f schema entries

theorem handedOn_list {items : List (Tree Label Leaf)} (hm : m.listMember schema = .ok member) :
    src.handedOn m schema ((Tree.list l items).partsWith f) =
      ((items.filter fun u => m.keeps schema u.isNull).map fun u => (member, u)).map
        fun p => (p.1, p.2.visit f) := by
  simp only [handedOn, Model.form_of_listMember hm, Tree.partsWith, hm, List.filter_map,
    List.map_map]
  rfl

theorem handedOn_map {entries : List (String × Tree Label Leaf)}
    (hm : m.mapValue schema = .ok member) :
    src.handedOn m schema ((Tree.map l entries).partsWith f) =
      ((entries.filter fun e => m.keeps schema e.2.isNull).map fun e => (member, e.2)).map
        fun p => (p.1, p.2.visit f) := by
  simp only [handedOn, Model.form_of_mapValue hm, Tree.partsWith, hm, List.filter_map,
    List.map_map]
  rfl

end

/-! ### The parts of a value -/

section
variable {entries : List (String × Tree Label Leaf)}

theorem partsUnder_structure (hf : (m.typeOf schema).form = .structure) :
    src.partsUnder m schema (.map l entries) =
      src.presentMembers schema Tree.isNull entries := by
  rw [partsUnder, Tree.parts_eq_partsWith, handedOn_structure _ hf, List.map_map]
  exact List.map_id _

theorem partsUnder_union (hf : (m.typeOf schema).form = .union) :
    src.partsUnder m schema (.map l entries) = src.knownMember schema Tree.isNull entries := by
  rw [partsUnder, Tree.parts_eq_partsWith, handedOn_union _ hf, List.map_map]
  exact List.map_id _

theorem partsUnder_list {items : List (Tree Label Leaf)} (hm : m.listMember schema = .ok member) :
    src.partsUnder m schema (.list l items) =
      (items.filter fun u => m.keeps schema u.isNull).map fun u => (member, u) := by
  rw [partsUnder, Tree.parts_eq_partsWith, handedOn_list _ hm, List.map_map]
  exact List.map_id _

theorem partsUnder_map (hm : m.mapValue schema = .ok member) :
    src.partsUnder m schema (.map l entries) =
      (entries.filter fun e => m.keeps schema e.2.isNull).map fun e => (member, e.2) := by
  rw [partsUnder, Tree.parts_eq_partsWith, handedOn_map _ hm, List.map_map]
  exact List.map_id _

end

/-- Handing on does not look at what has been made of the parts. -/
theorem handedOn_partsWith (f : Tree Label Leaf → β) (schema : SchemaRef) (t : Tree Label Leaf) :
    src.handedOn m schema (t.partsWith f) =
      (src.partsUnder m schema t).map fun p => (p.1, p.2.visit f) := by
  cases t with
  | map l entries =>
      cases hf : (m.typeOf schema).form with
      | «structure» => rw [handedOn_structure f hf, partsUnder_structure hf]
      | union => rw [handedOn_union f hf, partsUnder_union hf]
      | map =>
          cases hm : m.mapValue schema with
          | ok member => rw [handedOn_map f hm, partsUnder_map hm]
          | error e => simp [partsUnder, handedOn, hf, hm, Tree.partsWith, Tree.parts]
      | _ => simp [partsUnder, handedOn, hf, Tree.partsWith, Tree.parts]
  | list l items =>
      cases hf : (m.typeOf schema).form with
      | list =>
          cases hm : m.listMember schema with
          | ok member => rw [handedOn_list f hm, partsUnder_list hm]
          | error e => simp [partsUnder, handedOn, hf, hm, Tree.partsWith, Tree.parts]
      | _ => simp [partsUnder, handedOn, hf, Tree.partsWith, Tree.parts]
  | _ =>
      cases hf : (m.typeOf schema).form <;>
        simp [partsUnder, handedOn, hf, Tree.partsWith, Tree.parts]

end Source
end ShapeCodec
