import ShapeCodec.Proofs.Entries
import ShapeCodec.Proofs.Faults

/-!
# Dropped and refused nulls

Dropping nulls from collections that do not keep them comes to the same as taking them out of the
input first and refusing any that are left. Where nothing is taken out, both policies read alike;
where something is, the first such null is what refusing them complains about.
-/

namespace ShapeCodec

open ShapeCodec.Tree (Parts Visited)
open Result (guarded)

variable {Label Leaf : Type}

/-- The same settings with another policy for nulls. -/
def Config.withNulls (config : Config) (policy : NullPolicy) : Config :=
  { config with nullPolicy := policy }

def Scope.withNulls (s : Scope) (policy : NullPolicy) : Scope :=
  { s with config := s.config.withNulls policy }

@[simp] theorem Scope.withNulls_model (s : Scope) (policy : NullPolicy) :
    (s.withNulls policy).model = s.model := rfl

def Codec.withNulls (c : Codec) (policy : NullPolicy) : Codec :=
  { c with config := c.config.withNulls policy }

namespace Source

variable (src : Source Label Leaf) (m : Model)

/-! ### Input without the nulls that are not kept -/

/-- The value under a key of a structure, stripped as the member that it is read as. -/
def strippedEntry (schema : SchemaRef) (key : String)
    (v : Visited Label Leaf (SchemaRef → Tree Label Leaf)) : Tree Label Leaf :=
  match src.member? schema key with
  | some member => v.result member
  | none => v.tree

/-- A node without nulls that are not kept, by its stripped parts. -/
def strippedNode (node : Parts Label Leaf (SchemaRef → Tree Label Leaf)) (schema : SchemaRef) :
    Tree Label Leaf :=
  match (m.typeOf schema).form, node with
  | .structure, .map l entries =>
    .map l (entries.map fun (key, v) => (key, src.strippedEntry schema key v))
  | .union, .map l entries =>
    if (src.candidates Visited.isNull entries).length = 1 then
      .map l (entries.map fun (key, v) =>
        (key, if v.isNull || src.ignoresKey key then v.tree else src.strippedEntry schema key v))
    else node.tree
  | .list, .list l items =>
    match m.listMember schema with
    | .ok member =>
      .list l ((items.filter fun v => m.keeps schema v.isNull).map fun v => v.result member)
    | .error _ => node.tree
  | .map, .map l entries =>
    match m.mapValue schema with
    | .ok member =>
      .map l ((entries.filter fun e => m.keeps schema e.2.isNull).map
        fun e => (e.1, e.2.result member))
    | .error _ => node.tree
  | _, _ => node.tree

-- has the equations made here, once, and not in each of the lemmas below that open a node
attribute [local simp] strippedNode

/--
A value without the nulls, in lists and maps along the walk of a schema, that are not kept there.
All else is left as it is.
-/
def stripped (schema : SchemaRef) (t : Tree Label Leaf) : Tree Label Leaf :=
  t.walk (.ofParts (src.strippedNode m)) schema

/-- The value under a key of a structure or union, stripped as the member that it is read as. -/
def strippedUnder (schema : SchemaRef) (key : String) (t : Tree Label Leaf) : Tree Label Leaf :=
  match src.member? schema key with
  | some member => src.stripped m member t
  | none => t

variable {src m} {schema member : SchemaRef} {l : Label} {t : Tree Label Leaf}
  {entries : List (String × Tree Label Leaf)} {items : List (Tree Label Leaf)}

theorem stripped_eq (t : Tree Label Leaf) : src.stripped m schema t =
    src.strippedNode m (t.partsWith fun u schema => src.stripped m schema u) schema := by
  rw [stripped, Tree.walk_ofParts]
  rfl

theorem stripped_structure (hf : (m.typeOf schema).form = .structure) :
    src.stripped m schema (.map l entries) =
      .map l (entries.map fun e => (e.1, src.strippedUnder m schema e.1 e.2)) := by
  rw [stripped_eq]
  simp only [strippedNode, hf, Tree.partsWith, List.map_map]
  rfl

theorem stripped_union (hf : (m.typeOf schema).form = .union) {e : String × Tree Label Leaf}
    (hc : src.candidates Tree.isNull entries = [e]) :
    src.stripped m schema (.map l entries) =
      .map l (entries.map fun e => (e.1,
        if e.2.isNull || src.ignoresKey e.1 then e.2
        else src.strippedUnder m schema e.1 e.2)) := by
  have hone := src.candidates_visit (fun u schema => src.stripped m schema u) entries
  rw [hc] at hone
  rw [stripped_eq]
  simp only [strippedNode, hf, Tree.partsWith]
  refine (if_pos (congrArg List.length hone)).trans ?_
  rw [List.map_map]
  rfl

/-- A union that has not one member is not walked. -/
theorem stripped_arity (hf : (m.typeOf schema).form = .union)
    (hc : (src.candidates Tree.isNull entries).length ≠ 1) :
    src.stripped m schema (.map l entries) = .map l entries := by
  have hmany := src.candidates_visit (fun u schema => src.stripped m schema u) entries
  rw [← List.length_map, ← hmany] at hc
  rw [stripped_eq]
  simp only [strippedNode, hf, Tree.partsWith]
  exact (if_neg hc).trans
    (Tree.partsWith_tree (fun u schema => src.stripped m schema u) (.map l entries))

theorem stripped_list (hm : m.listMember schema = .ok member) :
    src.stripped m schema (.list l items) =
      .list l ((items.filter fun u => m.keeps schema u.isNull).map (src.stripped m member)) := by
  rw [stripped_eq]
  simp only [strippedNode, Model.form_of_listMember hm, hm, Tree.partsWith,
    List.filter_map, List.map_map]
  rfl

theorem stripped_map (hm : m.mapValue schema = .ok member) :
    src.stripped m schema (.map l entries) =
      .map l ((entries.filter fun e => m.keeps schema e.2.isNull).map
        fun e => (e.1, src.stripped m member e.2)) := by
  rw [stripped_eq]
  simp only [strippedNode, Model.form_of_mapValue hm, hm, Tree.partsWith,
    List.filter_map, List.map_map]
  rfl

theorem stripped_list_of_error {e : Error} (hf : (m.typeOf schema).form = .list)
    (hm : m.listMember schema = .error e) :
    src.stripped m schema (.list l items) = .list l items := by
  rw [stripped_eq]
  simp only [strippedNode, hf, hm, Tree.partsWith]
  exact Tree.partsWith_tree (fun u schema => src.stripped m schema u) (.list l items)

theorem stripped_map_of_error {e : Error} (hf : (m.typeOf schema).form = .map)
    (hm : m.mapValue schema = .error e) :
    src.stripped m schema (.map l entries) = .map l entries := by
  rw [stripped_eq]
  simp only [strippedNode, hf, hm, Tree.partsWith]
  exact Tree.partsWith_tree (fun u schema => src.stripped m schema u) (.map l entries)

theorem stripped_null : src.stripped m schema (.null l) = .null l := by
  rw [stripped_eq]
  cases hf : (m.typeOf schema).form <;> simp only [strippedNode, hf, Tree.partsWith, Parts.tree]

/-- Stripping changes what is in a container, not what kind of a node it is. -/
theorem stripped_isNull (t : Tree Label Leaf) :
    (src.stripped m schema t).isNull = t.isNull := by
  rw [stripped_eq]
  unfold strippedNode
  cases t <;> cases (m.typeOf schema).form <;> simp [Tree.partsWith, Parts.tree] <;> split <;> simp

/-! ### What stripped input hands on -/

theorem strippedUnder_isNull (key : String) (t : Tree Label Leaf) :
    (src.strippedUnder m schema key t).isNull = t.isNull := by
  unfold strippedUnder
  cases src.member? schema key with
  | some member => exact stripped_isNull t
  | none => rfl

/-- The members of a stripped structure are the members, stripped. -/
theorem presentMembers_stripped :
    src.presentMembers schema Tree.isNull
        (entries.map fun e => (e.1, src.strippedUnder m schema e.1 e.2)) =
      (src.presentMembers schema Tree.isNull entries).map
        fun p => (p.1, src.stripped m p.1 p.2) := by
  simp only [presentMembers, List.filterMap_map, List.map_filterMap]
  congr 1
  funext e
  simp only [Function.comp_apply, strippedUnder_isNull]
  cases hm : src.member? schema e.1 with
  | none => rfl
  | some member =>
      by_cases hn : e.2.isNull = true
      · simp [hn]
      · simp [hn, strippedUnder, hm]

/-- The candidates of a stripped union are the candidates, stripped. -/
theorem candidates_stripped :
    src.candidates Tree.isNull (entries.map fun e => (e.1,
        if e.2.isNull || src.ignoresKey e.1 then e.2
        else src.strippedUnder m schema e.1 e.2)) =
      (src.candidates Tree.isNull entries).map
        fun e => (e.1, src.strippedUnder m schema e.1 e.2) := by
  have hsame : ∀ e : String × Tree Label Leaf,
      (if e.2.isNull || src.ignoresKey e.1 then e.2
        else src.strippedUnder m schema e.1 e.2).isNull = e.2.isNull := by
    intro e
    split
    · rfl
    · exact strippedUnder_isNull e.1 e.2
  simp only [candidates, List.filter_map, Function.comp_def, hsame]
  refine List.map_congr_left fun e he => ?_
  -- what counts is stripped
  have hcounts : e.2.isNull = false ∧ src.ignoresKey e.1 = false := by
    simpa using (List.mem_filter.mp he).2
  simp [hcounts.1, hcounts.2]

/-- Only the one candidate of a union counts. -/
theorem eq_of_candidates {c e : String × Tree Label Leaf}
    (hc : src.candidates Tree.isNull entries = [c]) (he : e ∈ entries)
    (hcounts : ¬ (e.2.isNull || src.ignoresKey e.1) = true) : e = c := by
  have hcandidate : e ∈ src.candidates Tree.isNull entries :=
    List.mem_filter.mpr ⟨he, by simpa using hcounts⟩
  rw [hc] at hcandidate
  exact List.mem_singleton.mp hcandidate

/-- What is kept of a stripped collection is all of it. -/
theorem kept_stripped (s : Scope) {α : Type} {isNull : α → Bool} {items : List α} {f : α → α}
    (hf : ∀ a, isNull (f a) = isNull a) :
    s.kept schema isNull ((items.filter fun a => s.model.keeps schema (isNull a)).map f) =
      (items.filter fun a => s.model.keeps schema (isNull a)).map fun a => .ok (f a) := by
  rw [s.kept_of_forall, List.map_map]
  · rfl
  · refine List.forall_mem_map.mpr fun a ha hnull => ?_
    have hkeeps := (List.mem_filter.mp ha).2
    rw [← hf, hnull] at hkeeps
    simpa [Model.keeps] using hkeeps

/-! ### The first null that is not kept -/

variable (src m) in
/-- The collection of the first null under a node that is not kept, by those of its parts. -/
def firstNullNode (node : Parts Label Leaf (SchemaRef → Option SchemaRef)) (schema : SchemaRef) :
    Option SchemaRef :=
  match (m.typeOf schema).form, node with
  | .list, .list _ items =>
    match m.listMember schema with
    | .ok member => items.findSome? fun v =>
        if m.keeps schema v.isNull then v.result member else some schema
    | .error _ => none
  | .map, .map _ entries =>
    match m.mapValue schema with
    | .ok member => entries.findSome? fun e =>
        if m.keeps schema e.2.isNull then e.2.result member else some schema
    | .error _ => none
  | _, node => (src.handedOn m schema node).findSome? fun p => p.2.result p.1

attribute [local simp] firstNullNode

variable (src m) in
/-- The collection where a walk first meets a null that is not kept, in the order of the input. -/
def firstNull? (schema : SchemaRef) (t : Tree Label Leaf) : Option SchemaRef :=
  t.walk (.ofParts (src.firstNullNode m)) schema

theorem firstNull?_eq (t : Tree Label Leaf) : src.firstNull? m schema t =
    src.firstNullNode m (t.partsWith fun u schema => src.firstNull? m schema u) schema := by
  rw [firstNull?, Tree.walk_ofParts]
  rfl

theorem firstNull?_null : src.firstNull? m schema (.null l) = none := by
  rw [firstNull?_eq]
  cases hf : (m.typeOf schema).form <;> simp [firstNullNode, handedOn, hf, Tree.partsWith]

/-- Values that are not walked hold no nulls that count. -/
theorem firstNull?_flat (hf : (m.typeOf schema).form = .document ∨
    ∃ type, (m.typeOf schema).form = .scalar type) : src.firstNull? m schema t = none := by
  rw [firstNull?_eq]
  rcases hf with hf | ⟨type, hf⟩ <;> simp [firstNullNode, handedOn, hf]

theorem firstNull?_structure (hf : (m.typeOf schema).form = .structure) :
    src.firstNull? m schema (.map l entries) =
      (src.presentMembers schema Tree.isNull entries).findSome? fun p =>
        src.firstNull? m p.1 p.2 := by
  rw [firstNull?_eq]
  simp only [firstNullNode, hf, handedOn_structure _ hf, List.findSome?_map]
  rfl

theorem firstNull?_union (hf : (m.typeOf schema).form = .union) :
    src.firstNull? m schema (.map l entries) =
      (src.knownMember schema Tree.isNull entries).findSome? fun p =>
        src.firstNull? m p.1 p.2 := by
  rw [firstNull?_eq]
  simp only [firstNullNode, hf, handedOn_union _ hf, List.findSome?_map]
  rfl

theorem firstNull?_list (hm : m.listMember schema = .ok member) :
    src.firstNull? m schema (.list l items) = items.findSome? fun u =>
      if m.keeps schema u.isNull then src.firstNull? m member u else some schema := by
  rw [firstNull?_eq]
  simp only [firstNullNode, Model.form_of_listMember hm, hm, Tree.partsWith, List.findSome?_map]
  rfl

theorem firstNull?_map (hm : m.mapValue schema = .ok member) :
    src.firstNull? m schema (.map l entries) = entries.findSome? fun e =>
      if m.keeps schema e.2.isNull then src.firstNull? m member e.2 else some schema := by
  rw [firstNull?_eq]
  simp only [firstNullNode, Model.form_of_mapValue hm, hm, Tree.partsWith, List.findSome?_map]
  rfl

end Source

namespace Reader

variable {src : Source Label Leaf} {s s' : Scope} {α : Type} {depth : Nat}

/-! ### Runs that make the same of their parts -/

theorem readMembers_congr (hm : s.model = s'.model) {parts : List (SchemaRef × α)}
    {f g : SchemaRef × α → Node Label Leaf} {read : Entries Document}
    (h : ∀ p ∈ parts, (f p).result depth p.1 = (g p).result depth p.1) :
    readMembers s depth read (parts.map fun p => (p.1, f p)) =
      readMembers s' depth read (parts.map fun p => (p.1, g p)) := by
  induction parts generalizing read with
  | nil => rfl
  | cons p parts ih =>
      obtain ⟨hp, h⟩ := List.forall_mem_cons.mp h
      simp only [List.map_cons, readMembers, hp, hm, ih h]

theorem readItems_congr {member : SchemaRef} {items : List α} {f g : α → Node Label Leaf}
    (h : ∀ a ∈ items, (f a).result depth member = (g a).result depth member) :
    readItems depth member (items.map fun a => .ok (f a)) =
      readItems depth member (items.map fun a => .ok (g a)) := by
  induction items with
  | nil => rfl
  | cons a items ih =>
      obtain ⟨ha, h⟩ := List.forall_mem_cons.mp h
      simp only [List.map_cons, readItems, Result.ok_bind, ha, ih h]

theorem readEntries_congr {member : SchemaRef} {entries : List (String × α)}
    {f g : String × α → Node Label Leaf} {read : Entries Document}
    (h : ∀ e ∈ entries, (f e).result depth member = (g e).result depth member) :
    readEntries depth member read (entries.map fun e => .ok (e.1, f e)) =
      readEntries depth member read (entries.map fun e => .ok (e.1, g e)) := by
  induction entries generalizing read with
  | nil => rfl
  | cons e entries ih =>
      obtain ⟨he, h⟩ := List.forall_mem_cons.mp h
      simp only [List.map_cons, readEntries, Result.ok_bind, he, ih h]

/-! ### Dropping is stripping and refusing -/

section
variable {schema member : SchemaRef} {t : Tree Label Leaf} {l : Label}
  {entries : List (String × Tree Label Leaf)} {items : List (Tree Label Leaf)}

variable (src s) in
/-- Dropping nulls from a value has the result of refusing them in the stripped value. -/
def DropsAsStripped (t : Tree Label Leaf) : Prop :=
  ∀ depth schema, documentAt src (s.withNulls .drop) t depth schema =
    documentAt src (s.withNulls .reject) (src.stripped s.model schema t) depth schema

theorem drop_structure (hf : (s.model.typeOf schema).form = .structure)
    (ih : ∀ e ∈ entries, DropsAsStripped src s e.2) :
    documentAt src (s.withNulls .drop) (.map l entries) depth schema =
      documentAt src (s.withNulls .reject) (src.stripped s.model schema (.map l entries)) depth
        schema := by
  have hmodel : (s.withNulls .drop).model = (s.withNulls .reject).model := rfl
  rw [Source.stripped_structure hf, documentAt_structure (s := s.withNulls .drop) hf,
    documentAt_structure (s := s.withNulls .reject) hf, Source.presentMembers_stripped,
    List.map_map]
  refine bind_congr fun _ => ?_
  refine congrArg (· >>= _) (readMembers_congr hmodel fun p hp => ?_)
  obtain ⟨key, he, -⟩ := src.mem_presentMembers.mp hp
  exact ih _ he _ _

theorem drop_union (hf : (s.model.typeOf schema).form = .union)
    (ih : ∀ e ∈ entries, DropsAsStripped src s e.2) :
    documentAt src (s.withNulls .drop) (.map l entries) depth schema =
      documentAt src (s.withNulls .reject) (src.stripped s.model schema (.map l entries)) depth
        schema := by
  by_cases hone : (src.candidates Tree.isNull entries).length = 1
  · obtain ⟨⟨key, u⟩, hc⟩ := List.length_eq_one_iff.mp hone
    have hstripped := Source.candidates_stripped.trans
      (congrArg (List.map fun e => (e.1, src.strippedUnder s.model schema e.1 e.2)) hc)
    rw [Source.stripped_union hf hc, documentAt_union (s := s.withNulls .drop) hf,
      documentAt_union (s := s.withNulls .reject) hf, choose_singleton hc,
      choose_singleton hstripped, Source.chosen, Source.chosen]
    refine bind_congr fun _ => ?_
    cases hm : src.member? schema key with
    | none =>
        simp only [hm, Source.strippedUnder]
        rfl
    | some member =>
        have hu := ih (key, u) (src.mem_of_candidates hc).1 (depth + 1) member
        simp only [hm, Source.strippedUnder, readChosen, readMembers, Result.ok_bind,
          Tree.visit_result, hu]
        rfl
  · rw [Source.stripped_arity hf hone, documentAt_union (s := s.withNulls .drop) hf,
      documentAt_union (s := s.withNulls .reject) hf]
    refine bind_congr fun _ => ?_
    rw [choose_arity hone, choose_arity hone]
    rfl

theorem drop_list (hf : (s.model.typeOf schema).form = .list)
    (ih : ∀ u ∈ items, DropsAsStripped src s u) :
    documentAt src (s.withNulls .drop) (.list l items) depth schema =
      documentAt src (s.withNulls .reject) (src.stripped s.model schema (.list l items)) depth
        schema := by
  cases hm : s.model.listMember schema with
  | error e =>
      rw [Source.stripped_list_of_error hf hm,
        documentAt_list_of_error (s := s.withNulls .drop) hf hm,
        documentAt_list_of_error (s := s.withNulls .reject) hf hm]
  | ok member =>
      obtain ⟨kept, hk⟩ : ∃ kept, (items.filter fun u => s.model.keeps schema u.isNull) = kept :=
        ⟨_, rfl⟩
      have hdrop : (s.withNulls .drop).kept schema Tree.isNull items = kept.map .ok := by
        rw [← hk]
        exact Scope.kept_drop rfl
      have hreject : (s.withNulls .reject).kept schema Tree.isNull
          (kept.map (src.stripped s.model member)) =
            kept.map fun u => .ok (src.stripped s.model member u) := by
        rw [← hk]
        exact Source.kept_stripped (s.withNulls .reject) fun u => Source.stripped_isNull u
      rw [Source.stripped_list hm, documentAt_list (s := s.withNulls .drop) hm,
        documentAt_list (s := s.withNulls .reject) hm, hk, hdrop, hreject, List.map_map,
        List.map_map]
      refine bind_congr fun _ => ?_
      refine congrArg (· >>= _) (readItems_congr fun u hu => ih u ?_ _ _)
      rw [← hk] at hu
      exact (List.mem_filter.mp hu).1

theorem drop_map (hf : (s.model.typeOf schema).form = .map)
    (ih : ∀ e ∈ entries, DropsAsStripped src s e.2) :
    documentAt src (s.withNulls .drop) (.map l entries) depth schema =
      documentAt src (s.withNulls .reject) (src.stripped s.model schema (.map l entries)) depth
        schema := by
  cases hm : s.model.mapValue schema with
  | error e =>
      rw [Source.stripped_map_of_error hf hm,
        documentAt_map_of_error (s := s.withNulls .drop) hf hm,
        documentAt_map_of_error (s := s.withNulls .reject) hf hm]
  | ok member =>
      obtain ⟨kept, hk⟩ :
          ∃ kept, (entries.filter fun e => s.model.keeps schema e.2.isNull) = kept := ⟨_, rfl⟩
      have hdrop :
          (s.withNulls .drop).kept schema (fun e => e.2.isNull) entries = kept.map .ok := by
        rw [← hk]
        exact Scope.kept_drop rfl
      have hreject : (s.withNulls .reject).kept schema (fun e => e.2.isNull)
          (kept.map fun e => (e.1, src.stripped s.model member e.2)) =
            kept.map fun e => .ok (e.1, src.stripped s.model member e.2) := by
        rw [← hk]
        exact Source.kept_stripped (s.withNulls .reject) fun e => Source.stripped_isNull e.2
      rw [Source.stripped_map hm, documentAt_map (s := s.withNulls .drop) hm,
        documentAt_map (s := s.withNulls .reject) hm, hk, hdrop, hreject, List.map_map,
        List.map_map]
      refine bind_congr fun _ => ?_
      refine congrArg (· >>= _) (readEntries_congr fun e he => ih e ?_ _ _)
      rw [← hk] at he
      exact (List.mem_filter.mp he).1

/-- Whether a value is a container of the kind that a form asks for. -/
def opens : ShapeType.Form → Tree Label Leaf → Bool
  | .structure, .map .. | .union, .map .. | .map, .map .. | .list, .list .. => true
  | _, _ => false

theorem stripped_unopened (ho : opens (s.model.typeOf schema).form t = false) :
    src.stripped s.model schema t = t := by
  rw [Source.stripped_eq]
  refine Eq.trans ?_ (Tree.partsWith_tree (fun u schema => src.stripped s.model schema u) t)
  cases hf : (s.model.typeOf schema).form <;> rw [hf] at ho <;> cases t <;>
    first | contradiction | simp only [Source.strippedNode, hf, Tree.partsWith]

theorem entriesOf_unopened {type : ShapeType} {f : Tree Label Leaf → DocumentReader}
    (h : opens .map t = false) :
    src.entriesOf type (t.partsWith f) = .error (src.mismatch t type) := by
  rw [← congrArg (src.mismatch · type) (Tree.partsWith_tree f t)]
  cases t <;> first | contradiction | rfl

theorem itemsOf_unopened {f : Tree Label Leaf → DocumentReader} (h : opens .list t = false) :
    src.itemsOf (t.partsWith f) = .error (src.mismatch t .list) := by
  rw [← congrArg (src.mismatch · .list) (Tree.partsWith_tree f t)]
  cases t <;> first | contradiction | rfl

/-- A value that is not a container of that kind is read, or refused, before any null is met. -/
theorem drop_unopened (ho : opens (s.model.typeOf schema).form t = false) :
    documentAt src (s.withNulls .drop) t depth schema =
      documentAt src (s.withNulls .reject) t depth schema := by
  cases hn : t.isNull with
  | true =>
      obtain ⟨l, rfl⟩ := Tree.isNull_eq_true hn
      rw [documentAt_null, documentAt_null]
  | false =>
      rw [documentAt_of_not_null hn, documentAt_of_not_null hn]
      unfold readValue
      simp only [Scope.withNulls_model]
      cases hf : (s.model.typeOf schema).form with
      | document | scalar => simp only [Tree.partsWith_tree]
      | «structure» =>
          have hmap : opens .map t = false := by cases t <;> first | rfl | simp [hf, opens] at ho
          simp only [readStructure, Source.openStructure, entriesOf_unopened hmap, bind_assoc,
            Result.error_bind]
          rfl
      | union =>
          have hmap : opens .map t = false := by cases t <;> first | rfl | simp [hf, opens] at ho
          simp only [readUnion, Source.openUnion, entriesOf_unopened hmap, bind_assoc,
            Result.error_bind]
          rfl
      | map =>
          rw [hf] at ho
          simp only [Source.openMap, entriesOf_unopened ho, bind_assoc, Result.error_bind]
          rfl
      | list =>
          rw [hf] at ho
          simp only [Source.openList, itemsOf_unopened ho, bind_assoc, Result.error_bind]
          rfl

variable (src s) in
/-- Reading with nulls dropped is reading what is left without them, refusing all others. -/
theorem drops_as_stripped (t : Tree Label Leaf) : DropsAsStripped src s t := by
  induction t using Tree.induct_inside with
  | h t ih =>
      intro depth schema
      cases ho : opens (s.model.typeOf schema).form t with
      | false =>
          rw [stripped_unopened ho]
          exact drop_unopened ho
      | true =>
          cases t with
          | null | leaf => cases hf : (s.model.typeOf schema).form <;> simp [hf, opens] at ho
          | list l items =>
              have hf : (s.model.typeOf schema).form = .list := by
                cases hf : (s.model.typeOf schema).form <;> first | rfl | simp [hf, opens] at ho
              exact drop_list hf fun u hu => ih u (.item hu)
          | map l entries =>
              have hentries : ∀ e ∈ entries, DropsAsStripped src s e.2 :=
                fun e he => ih e.2 (.entry he)
              cases hf : (s.model.typeOf schema).form with
              | «structure» => exact drop_structure hf hentries
              | union => exact drop_union hf hentries
              | map => exact drop_map hf hentries
              | _ => simp [hf, opens] at ho

end

/-! ### What is read with nulls refused -/

section
variable {S : SchemaRef} {t : Tree Label Leaf} {d : Document}

/-- Nothing is taken out of a value that is read with nulls refused. -/
theorem Reads.stripped_eq_self (h : Reads src s depth S t d)
    (hs : s.config.nullPolicy = .reject) : src.stripped s.model S t = t := by
  induction h with
  | null l => exact Source.stripped_null
  | document hf | scalar hf =>
      exact stripped_unopened (by rw [hf]; rfl)
  | @members depth S l entries parts hf _ hp _ _ ih =>
      rw [Source.stripped_structure hf, Entries.map_eq_self]
      intro e he
      rw [Source.strippedUnder]
      cases hm : src.member? S e.1 with
      | none => rfl
      | some member =>
          cases hnull : e.2.isNull with
          | true =>
              obtain ⟨l, hl⟩ := Tree.isNull_eq_true hnull
              simp only [hl, Source.stripped_null]
          | false =>
              have hpresent : (member, e.2) ∈ src.presentMembers S Tree.isNull entries :=
                src.mem_presentMembers.mpr ⟨e.1, he, hm, hnull⟩
              rw [hp] at hpresent
              obtain ⟨p, hp', heq⟩ := List.mem_map.mp hpresent
              obtain ⟨rfl, hvalue⟩ := Prod.mk.inj heq
              exact hvalue ▸ ih p hp'
  | @known depth S member l entries key u d hf _ hc hm _ ih =>
      rw [Source.stripped_union hf hc, Entries.map_eq_self]
      intro e he
      split
      · rfl
      · rename_i hcounts
        obtain rfl := Source.eq_of_candidates hc he hcounts
        rw [Source.strippedUnder, hm]
        exact ih
  | @unknown depth S l entries tag u hf _ hc hm =>
      rw [Source.stripped_union hf hc, Entries.map_eq_self]
      intro e he
      split
      · rfl
      · rename_i hcounts
        obtain rfl := Source.eq_of_candidates hc he hcounts
        rw [Source.strippedUnder, hm]
  | @list depth S member l items parts hm _ hk _ ih =>
      have hall := Scope.filter_keeps_reject hs hk
      have hparts := hall.symm.trans (Scope.filter_keeps hk)
      rw [Source.stripped_list hm, hall, hparts, List.map_map]
      exact congrArg _ (List.map_congr_left ih)
  | @map depth S member l entries parts hm _ hk _ ih =>
      have hall := Scope.filter_keeps_reject hs hk
      have hparts := hall.symm.trans (Scope.filter_keeps hk)
      rw [Source.stripped_map hm, hall, hparts, List.map_map]
      exact congrArg _ (List.map_congr_left fun p hp => congrArg (Prod.mk p.1) (ih p hp))

/-- To look for a null and complain about it is to look for what there is to complain about. -/
theorem findSome?_refused (hs : s.config.nullPolicy = .reject) (parts : List α) (keep : α → Bool)
    (firstNull? : α → Option SchemaRef) :
    (parts.findSome? fun p => if keep p = true then firstNull? p else some S).map
        (fun collection => .nullNotAllowed (s.model.id collection)) =
      parts.findSome? fun p =>
        if keep p = true then
          (firstNull? p).map fun collection => .nullNotAllowed (s.model.id collection)
        else s.refusal? S := by
  rw [List.map_findSome?, Scope.refusal?_reject hs]
  exact congrArg (List.findSome? · parts) (funext fun p => apply_ite (Option.map _) ..)

/-- What has been read is read with nulls refused too, or the first null is what is wrong. -/
theorem Reads.refused (h : Reads src s depth S t d) :
    documentAt src (s.withNulls .reject) t depth S =
      guarded ((src.firstNull? s.model S t).map fun collection =>
        .nullNotAllowed (s.model.id collection)) d := by
  let fault? (S : SchemaRef) (t : Tree Label Leaf) : Option Error :=
    (src.firstNull? s.model S t).map fun collection => .nullNotAllowed (s.model.id collection)
  have hroom {depth : Nat} (hd : depth < s.config.maxDepth) :
      (s.withNulls .reject).roomFault? depth = none := Scope.roomFault?_eq_none hd
  induction h with
  | null l =>
      rw [documentAt_null, Source.firstNull?_null]
      rfl
  | document hf hnull =>
      rw [Source.firstNull?_flat (.inl hf)]
      exact (Reads.document (s := s.withNulls .reject) hf hnull).run
  | scalar hf hnull hv =>
      rw [Source.firstNull?_flat (.inr ⟨_, hf⟩)]
      exact (Reads.scalar (s := s.withNulls .reject) hf hnull hv).run
  | @members depth S l entries parts hf hd hp _ hc ih =>
      rw [documentAt_structure_guarded (s := s.withNulls .reject) fault? hf hp ih hc, hroom hd,
        Source.firstNull?_structure hf, hp, List.findSome?_map, List.map_findSome?]
      rfl
  | @known depth S member l entries key u d hf hd hc hm _ ih =>
      rw [documentAt_known_guarded (s := s.withNulls .reject) fault? hf hc hm ih, hroom hd,
        Source.firstNull?_union hf, Source.knownMember_of_some hc hm, List.findSome?_singleton]
      rfl
  | @unknown depth S l entries tag u hf hd hc hm =>
      rw [documentAt_unknown_guarded (s := s.withNulls .reject) hf hc hm, hroom hd,
        Source.firstNull?_union hf, Source.knownMember_of_none hc hm]
      rfl
  | @list depth S member l items parts hm hd hk _ ih =>
      have hkept := Scope.filter_keeps hk
      rw [documentAt_list_guarded (s := s.withNulls .reject) fault? hm hkept ih,
        hroom hd, Option.none_or, Source.firstNull?_list hm]
      exact congrArg (guarded · _) (findSome?_refused (s := s.withNulls .reject) rfl ..).symm
  | @map depth S member l entries parts hm hd hk _ ih =>
      have hkept := Scope.filter_keeps hk
      rw [documentAt_map_guarded (s := s.withNulls .reject) fault? hm hkept ih,
        hroom hd, Option.none_or, Source.firstNull?_map hm]
      exact congrArg (guarded · _) (findSome?_refused (s := s.withNulls .reject) rfl ..).symm

end

end Reader

/-! ### Codecs and documents -/

variable {m : Model} {S : SchemaRef}

/--
How the two policies for nulls relate where a value is read under a schema: dropping reads what is
left when nulls that are not kept are taken out, refusing reads what has none of them, and complains
about the first one in what dropping could read.
-/
structure PoliciesAgree (m : Model) (read : NullPolicy → Tree Label Leaf → Result Document)
    (t stripped : Tree Label Leaf) (firstNull? : Option SchemaRef) : Prop where
  drop : read .drop t = read .reject stripped
  reject : ∀ d, read .reject t = .ok d ↔ read .drop t = .ok d ∧ stripped = t
  error : ∀ d, read .drop t = .ok d → ∀ e, read .reject t = .error e →
    ∃ collection, firstNull? = some collection ∧ e = .nullNotAllowed (m.id collection)

theorem Reader.policiesAgree (src : Source Label Leaf) (s : Scope) (S : SchemaRef)
    (t : Tree Label Leaf) :
    PoliciesAgree s.model (fun policy => document src (s.withNulls policy) S) t
      (src.stripped s.model S t) (src.firstNull? s.model S t) where
  drop := drops_as_stripped src s t 0 S
  reject d := by
    have hdrop := drops_as_stripped src s t 0 S
    constructor
    · intro h
      have hsame : src.stripped s.model S t = t :=
        (documentAt_eq_ok_iff.mp h).stripped_eq_self rfl
      rw [hsame] at hdrop
      exact ⟨hdrop.trans h, hsame⟩
    · rintro ⟨h, hsame⟩
      rw [hsame] at hdrop
      exact hdrop.symm.trans h
  error d h e he := by
    have hrefused : document src (s.withNulls .reject) S t =
        guarded ((src.firstNull? s.model S t).map fun collection =>
          .nullNotAllowed (s.model.id collection)) d := (documentAt_eq_ok_iff.mp h).refused
    rw [he] at hrefused
    cases hfirst : src.firstNull? s.model S t with
    | none =>
        rw [hfirst] at hrefused
        nomatch hrefused
    | some collection =>
        rw [hfirst] at hrefused
        exact ⟨collection, rfl, Except.error.inj hrefused⟩

/-- JSON without the nulls that are not kept, as a codec walks it. -/
def Codec.stripped (c : Codec) (m : Model) (S : SchemaRef) (j : Json) : Json :=
  (c.source m).stripped m S j

/-- Where a codec first meets a null in JSON that is not kept. -/
def Codec.firstNull? (c : Codec) (m : Model) (S : SchemaRef) (j : Json) : Option SchemaRef :=
  (c.source m).firstNull? m S j

/-- A document without the nulls that are not kept under a schema. -/
def Document.stripped (m : Model) (S : SchemaRef) (d : Document) : Document :=
  (Document.source m).stripped m S d

/-- Where a null is first met in a document that is not kept under a schema. -/
def Document.firstNull? (m : Model) (S : SchemaRef) (d : Document) : Option SchemaRef :=
  (Document.source m).firstNull? m S d

/-- The two policies agree on JSON, whatever the other settings, and on documents. -/
theorem null_policies_agree (m : Model) (S : SchemaRef) :
    (∀ (c : Codec) (j : Json), PoliciesAgree m (fun policy => (c.withNulls policy).ofJson m S) j
      (c.stripped m S j) (c.firstNull? m S j)) ∧
    ∀ (config : Config) (d : Document),
      PoliciesAgree m (fun policy => Document.readAs m (config.withNulls policy) S) d
        (d.stripped m S) (d.firstNull? m S) :=
  ⟨fun c j => Reader.policiesAgree (c.source m) { model := m, config := c.config } S j,
    fun config d => Reader.policiesAgree (Document.source m) { model := m, config } S d⟩

end ShapeCodec
