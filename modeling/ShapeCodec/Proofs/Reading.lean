import ShapeCodec.Proofs.Members
import ShapeCodec.Proofs.Traversal
import ShapeCodec.Reader.Document

/-!
# Reading documents, as rules

`Reads` says what a value is read as, one rule for each way a schema is walked. The reader succeeds
exactly where the rules lead somewhere (`documentAt_eq_ok_iff`), so what is proved by induction over
the rules holds of every document that is read.
-/

namespace ShapeCodec.Reader

open ShapeCodec.Tree (Parts Visited)

variable {Label Leaf : Type} (src : Source Label Leaf) (s : Scope)

/-- The entries of a structure or union, from members, what they were read from and as. -/
def memberEntries (parts : List (SchemaRef × Tree Label Leaf × Document)) :
    List (String × Document) :=
  parts.map fun p => ((s.model.memberName? p.1).getD "", p.2.2)

/-- What a value is read as at a depth and under a schema. -/
inductive Reads : (depth : Nat) → (schema : SchemaRef) → Tree Label Leaf → Document → Prop
  | null {depth : Nat} {schema : SchemaRef} (l : Label) :
      Reads depth schema (.null l) (.null { schema })
  | document {depth : Nat} {schema : SchemaRef} {t : Tree Label Leaf} :
      (s.model.typeOf schema).form = .document → t.isNull = false →
      Reads depth schema t (src.untyped t)
  | scalar {depth : Nat} {schema : SchemaRef} {t : Tree Label Leaf} {type : ScalarType}
      {v : Scalar} :
      (s.model.typeOf schema).form = .scalar type → t.isNull = false →
      src.scalar type schema t = .ok v → Reads depth schema t (.leaf { schema } v)
  | members {depth : Nat} {schema : SchemaRef} {l : Label}
      {entries : List (String × Tree Label Leaf)}
      {parts : List (SchemaRef × Tree Label Leaf × Document)} :
      (s.model.typeOf schema).form = .structure → depth < s.config.maxDepth →
      src.presentMembers schema Tree.isNull entries = parts.map (fun p => (p.1, p.2.1)) →
      (∀ p ∈ parts, Reads (depth + 1) p.1 p.2.1 p.2.2) →
      s.model.checkRequired schema
        (fun name => Entries.contains name (Entries.ofList (memberEntries s parts))) = .ok () →
      Reads depth schema (.map l entries) (.map { schema } (Entries.ofList (memberEntries s parts)))
  | known {depth : Nat} {schema member : SchemaRef} {l : Label}
      {entries : List (String × Tree Label Leaf)} {key : String} {u : Tree Label Leaf}
      {d : Document} :
      (s.model.typeOf schema).form = .union → depth < s.config.maxDepth →
      src.candidates Tree.isNull entries = [(key, u)] → src.member? schema key = some member →
      Reads (depth + 1) member u d →
      Reads depth schema (.map l entries)
        (.map { schema } [((s.model.memberName? member).getD "", d)])
  | unknown {depth : Nat} {schema : SchemaRef} {l : Label}
      {entries : List (String × Tree Label Leaf)} {tag : String} {u : Tree Label Leaf} :
      (s.model.typeOf schema).form = .union → depth < s.config.maxDepth →
      src.candidates Tree.isNull entries = [(tag, u)] → src.member? schema tag = none →
      Reads depth schema (.map l entries) (.map { schema } [(tag, src.untyped u)])
  | list {depth : Nat} {schema member : SchemaRef} {l : Label} {items : List (Tree Label Leaf)}
      {parts : List (Tree Label Leaf × Document)} :
      s.model.listMember schema = .ok member → depth < s.config.maxDepth →
      s.kept schema Tree.isNull items = parts.map (fun p => .ok p.1) →
      (∀ p ∈ parts, Reads (depth + 1) member p.1 p.2) →
      Reads depth schema (.list l items) (.list { schema } (parts.map Prod.snd))
  | map {depth : Nat} {schema member : SchemaRef} {l : Label}
      {entries : List (String × Tree Label Leaf)}
      {parts : List (String × Tree Label Leaf × Document)} :
      s.model.mapValue schema = .ok member → depth < s.config.maxDepth →
      s.kept schema (fun e => e.2.isNull) entries = parts.map (fun p => .ok (p.1, p.2.1)) →
      (∀ p ∈ parts, Reads (depth + 1) member p.2.1 p.2.2) →
      Reads depth schema (.map l entries)
        (.map { schema } (Entries.ofList (parts.map fun p => (p.1, p.2.2))))

variable {src s}

/-! ### The rule that applies -/

section
variable {depth : Nat} {schema : SchemaRef} {l : Label} {d : Document}

theorem Reads.of_structure {entries : List (String × Tree Label Leaf)}
    (hf : (s.model.typeOf schema).form = .structure)
    (h : Reads src s depth schema (.map l entries) d) :
    ∃ parts : List (SchemaRef × Tree Label Leaf × Document),
      src.presentMembers schema Tree.isNull entries = parts.map (fun p => (p.1, p.2.1)) ∧
      (∀ p ∈ parts, Reads src s (depth + 1) p.1 p.2.1 p.2.2) ∧
      d = .map { schema } (Entries.ofList (memberEntries s parts)) := by
  cases h with
  | document hf' | scalar hf' | known hf' | unknown hf' => simp [hf] at hf'
  | map hm => simp [Model.form_of_mapValue hm] at hf
  | members _ _ hp hr => exact ⟨_, hp, hr, rfl⟩

theorem Reads.of_union {entries : List (String × Tree Label Leaf)}
    (hf : (s.model.typeOf schema).form = .union)
    (h : Reads src s depth schema (.map l entries) d) :
    ∃ key u, src.candidates Tree.isNull entries = [(key, u)] ∧
      ((∃ member e, src.member? schema key = some member ∧ Reads src s (depth + 1) member u e ∧
          d = .map { schema } [((s.model.memberName? member).getD "", e)]) ∨
        (src.member? schema key = none ∧ d = .map { schema } [(key, src.untyped u)])) := by
  cases h with
  | document hf' | scalar hf' | members hf' => simp [hf] at hf'
  | map hm => simp [Model.form_of_mapValue hm] at hf
  | known _ _ hc hm hr => exact ⟨_, _, hc, .inl ⟨_, _, hm, hr, rfl⟩⟩
  | unknown _ _ hc hm => exact ⟨_, _, hc, .inr ⟨hm, rfl⟩⟩

theorem Reads.of_list {member : SchemaRef} {items : List (Tree Label Leaf)}
    (hm : s.model.listMember schema = .ok member)
    (h : Reads src s depth schema (.list l items) d) :
    ∃ parts : List (Tree Label Leaf × Document),
      s.kept schema Tree.isNull items = parts.map (fun p => .ok p.1) ∧
      (∀ p ∈ parts, Reads src s (depth + 1) member p.1 p.2) ∧
      d = .list { schema } (parts.map Prod.snd) := by
  have hf := Model.form_of_listMember hm
  cases h with
  | document hf' | scalar hf' => simp [hf] at hf'
  | list hm' _ hk hr =>
      obtain rfl := Except.ok.inj (hm.symm.trans hm')
      exact ⟨_, hk, hr, rfl⟩

theorem Reads.of_map {member : SchemaRef} {entries : List (String × Tree Label Leaf)}
    (hm : s.model.mapValue schema = .ok member)
    (h : Reads src s depth schema (.map l entries) d) :
    ∃ parts : List (String × Tree Label Leaf × Document),
      s.kept schema (fun e => e.2.isNull) entries = parts.map (fun p => .ok (p.1, p.2.1)) ∧
      (∀ p ∈ parts, Reads src s (depth + 1) member p.2.1 p.2.2) ∧
      d = .map { schema } (Entries.ofList (parts.map fun p => (p.1, p.2.2))) := by
  have hf := Model.form_of_mapValue hm
  cases h with
  | document hf' | scalar hf' | members hf' | known hf' | unknown hf' => simp [hf] at hf'
  | map hm' _ hk hr =>
      obtain rfl := Except.ok.inj (hm.symm.trans hm')
      exact ⟨_, hk, hr, rfl⟩

/-- A container is only read where there is room for it. -/
theorem Reads.room {t : Tree Label Leaf} (hn : t.isNull = false)
    (hd : (s.model.typeOf schema).form ≠ .document)
    (hs : ∀ type, (s.model.typeOf schema).form ≠ .scalar type) (h : Reads src s depth schema t d) :
    depth < s.config.maxDepth := by
  cases h with
  | null => simp at hn
  | document hf => exact absurd hf hd
  | scalar hf => exact absurd hf (hs _)
  | members _ hr | known _ hr | unknown _ hr | list _ hr | map _ hr => exact hr

/-- A structure that is read has the members that it has to have. -/
theorem Reads.required {t : Tree Label Leaf} {l' : ShapeCodec.Label} {es : List (String × Document)}
    (hf : (s.model.typeOf schema).form = .structure)
    (h : Reads src s depth schema t (.map l' es)) :
    s.model.checkRequired schema (fun name => Entries.contains name es) = .ok () := by
  generalize he : Tree.map l' es = d at h
  cases h with
  | null | list => nomatch he
  | document hf' | scalar hf' | known hf' | unknown hf' => simp [hf] at hf'
  | map hm => simp [Model.form_of_mapValue hm] at hf
  | members _ _ _ _ hc =>
      obtain ⟨-, rfl⟩ := Tree.map.inj he
      exact hc

end

/-! ### Runs over parts -/

theorem readMembers_eq_ok {depth : Nat} {f : Tree Label Leaf → DocumentReader}
    {present : List (SchemaRef × Tree Label Leaf)} {read es : Entries Document} :
    readMembers s depth read (present.map fun p => (p.1, p.2.visit f)) = .ok es ↔
      ∃ parts : List (SchemaRef × Tree Label Leaf × Document),
        present = parts.map (fun p => (p.1, p.2.1)) ∧
        (∀ p ∈ parts, f p.2.1 depth p.1 = .ok p.2.2) ∧
        es = (memberEntries s parts).foldl (fun es p => es.insert p.1 p.2) read := by
  induction present generalizing read with
  | nil =>
      constructor
      · intro h
        exact ⟨[], rfl, by simp, (Except.ok.inj h).symm⟩
      · rintro ⟨parts, hp, -, rfl⟩
        obtain rfl : parts = [] := by simpa using hp.symm
        rfl
  | cons p present ih =>
      obtain ⟨member, t⟩ := p
      simp only [List.map_cons, readMembers, Result.bind_eq_ok, ih, Tree.visit_result]
      constructor
      · rintro ⟨d, hd, parts, rfl, hp, rfl⟩
        exact ⟨(member, t, d) :: parts, rfl, List.forall_mem_cons.mpr ⟨hd, hp⟩, rfl⟩
      · rintro ⟨_ | ⟨⟨_, _, d⟩, parts⟩, hp, hr, rfl⟩
        · simp at hp
        · obtain ⟨⟨rfl, rfl⟩, rfl⟩ : (member = _ ∧ t = _) ∧ present = _ := by simpa using hp
          obtain ⟨hd, hr⟩ := List.forall_mem_cons.mp hr
          exact ⟨d, hd, parts, rfl, hr, rfl⟩

theorem readItems_eq_ok {depth : Nat} {member : SchemaRef} {f : Tree Label Leaf → DocumentReader}
    {kept : List (Result (Tree Label Leaf))} {ds : List Document} :
    readItems depth member (kept.map (Except.map fun u => u.visit f)) = .ok ds ↔
      ∃ parts : List (Tree Label Leaf × Document),
        kept = parts.map (fun p => .ok p.1) ∧ (∀ p ∈ parts, f p.1 depth member = .ok p.2) ∧
        ds = parts.map Prod.snd := by
  induction kept generalizing ds with
  | nil =>
      constructor
      · intro h
        exact ⟨[], rfl, by simp, (Except.ok.inj h).symm⟩
      · rintro ⟨parts, hp, -, rfl⟩
        obtain rfl : parts = [] := by simpa using hp.symm
        rfl
  | cons r kept ih =>
      simp only [List.map_cons, readItems, Result.bind_eq_ok, ih, Result.map_eq_ok]
      constructor
      · rintro ⟨_, ⟨t, rfl, rfl⟩, d, hd, _, ⟨parts, rfl, hp, rfl⟩, h⟩
        refine ⟨(t, d) :: parts, rfl, List.forall_mem_cons.mpr ⟨hd, hp⟩, ?_⟩
        exact (Except.ok.inj h).symm
      · rintro ⟨_ | ⟨⟨t, d⟩, parts⟩, hp, hr, rfl⟩
        · simp at hp
        · obtain ⟨rfl, rfl⟩ : r = .ok t ∧ kept = _ := by simpa using hp
          obtain ⟨hd, hr⟩ := List.forall_mem_cons.mp hr
          exact ⟨_, ⟨t, rfl, rfl⟩, d, hd, _, ⟨parts, rfl, hr, rfl⟩, rfl⟩

theorem readEntries_eq_ok {depth : Nat} {member : SchemaRef}
    {f : Tree Label Leaf → DocumentReader} {kept : List (Result (String × Tree Label Leaf))}
    {read es : Entries Document} :
    readEntries depth member read (kept.map (Except.map fun e => (e.1, e.2.visit f))) = .ok es ↔
      ∃ parts : List (String × Tree Label Leaf × Document),
        kept = parts.map (fun p => .ok (p.1, p.2.1)) ∧
        (∀ p ∈ parts, f p.2.1 depth member = .ok p.2.2) ∧
        es = (parts.map fun p => (p.1, p.2.2)).foldl (fun es p => es.insert p.1 p.2) read := by
  induction kept generalizing read with
  | nil =>
      constructor
      · intro h
        exact ⟨[], rfl, by simp, (Except.ok.inj h).symm⟩
      · rintro ⟨parts, hp, -, rfl⟩
        obtain rfl : parts = [] := by simpa using hp.symm
        rfl
  | cons r kept ih =>
      simp only [List.map_cons, readEntries, Result.bind_eq_ok, Result.map_eq_ok]
      constructor
      · rintro ⟨_, ⟨⟨key, t⟩, rfl, rfl⟩, d, hd, h⟩
        obtain ⟨parts, rfl, hp, rfl⟩ := ih.mp h
        exact ⟨(key, t, d) :: parts, rfl, List.forall_mem_cons.mpr ⟨hd, hp⟩, rfl⟩
      · rintro ⟨_ | ⟨⟨key, t, d⟩, parts⟩, hp, hr, rfl⟩
        · simp at hp
        · obtain ⟨rfl, rfl⟩ : r = .ok (key, t) ∧ kept = _ := by simpa using hp
          obtain ⟨hd, hr⟩ := List.forall_mem_cons.mp hr
          exact ⟨_, ⟨(key, t), rfl, rfl⟩, d, hd, ih.mpr ⟨parts, rfl, hr, rfl⟩⟩

/-! ### The rules and the reader -/

theorem documentAt_eq (t : Tree Label Leaf) :
    documentAt src s t = readNode src s (t.partsWith (documentAt src s)) :=
  Tree.walk_ofParts _ t

theorem documentAt_null (l : Label) (depth : Nat) (schema : SchemaRef) :
    documentAt src s (.null l) depth schema = .ok (.null { schema }) := by
  rw [documentAt_eq]
  rfl

theorem documentAt_of_not_null {t : Tree Label Leaf} (h : t.isNull = false) :
    documentAt src s t = readValue src s (t.partsWith (documentAt src s)) := by
  rw [documentAt_eq]
  cases t <;> first | rfl | simp at h

/-- A value that follows a rule is read as the rule says. -/
theorem Reads.run {depth : Nat} {schema : SchemaRef} {t : Tree Label Leaf} {d : Document}
    (h : Reads src s depth schema t d) : documentAt src s t depth schema = .ok d := by
  induction h with
  | null l => exact documentAt_null l _ _
  | document hf hn =>
      rw [documentAt_of_not_null hn, readValue, hf]
      simp only [Tree.partsWith_tree]
  | scalar hf hn hv =>
      rw [documentAt_of_not_null hn, readValue, hf]
      simp only [Tree.partsWith_tree, hv, Result.ok_bind, Result.pure_eq_ok]
  | @members depth schema l entries parts hf hd hp _ hr ih =>
      have hm : readMembers s (depth + 1) [] _ = .ok (Entries.ofList (memberEntries s parts)) :=
        readMembers_eq_ok.mpr ⟨parts, hp, ih, rfl⟩
      rw [documentAt_of_not_null rfl, readValue, hf]
      simp only [readStructure, src.openStructure_map s hd, hm, Result.ok_bind, hr]
      rfl
  | @known depth schema member l entries key u d hf hd hc hm _ ih =>
      rw [documentAt_of_not_null rfl, readValue, hf]
      simp only [readUnion, src.openUnion_map s hd _ _ _ hc, Result.ok_bind, Source.chosen, hm,
        readMembers, Tree.visit_result, ih]
      rfl
  | @unknown depth schema l entries tag u hf hd hc hm =>
      rw [documentAt_of_not_null rfl, readValue, hf]
      simp only [readUnion, src.openUnion_map s hd _ _ _ hc, Result.ok_bind, Source.chosen, hm]
      rfl
  | @list depth schema member l items parts hm hd hk _ ih =>
      have hr : readItems (depth + 1) member _ = .ok (parts.map Prod.snd) :=
        readItems_eq_ok.mpr ⟨parts, hk, ih, rfl⟩
      rw [documentAt_of_not_null rfl, readValue, (Model.listMember_eq_ok_iff.mp hm).1]
      simp only [ShapeType.form, hm, src.openList_list s hd, hr, Result.ok_bind]
      rfl
  | @map depth schema member l entries parts hm hd hk _ ih =>
      have hr : readEntries (depth + 1) member [] _ =
          .ok (Entries.ofList (parts.map fun p => (p.1, p.2.2))) :=
        readEntries_eq_ok.mpr ⟨parts, hk, ih, rfl⟩
      rw [documentAt_of_not_null rfl, readValue, (Model.mapValue_eq_ok_iff.mp hm).1]
      simp only [ShapeType.form, hm, src.openMap_map s hd, hr, Result.ok_bind]
      rfl

section
variable {t : Tree Label Leaf} {depth : Nat} {schema : SchemaRef}
  (ih : ∀ u, u.Inside t → ∀ depth schema d, documentAt src s u depth schema = .ok d →
    Reads src s depth schema u d)
include ih

theorem reads_of_readStructure {es : Entries Document}
    (hf : (s.model.typeOf schema).form = .structure)
    (h : readStructure src s depth schema (t.partsWith (documentAt src s)) = .ok es) :
    Reads src s depth schema t (.map { schema } es) := by
  rw [readStructure] at h
  obtain ⟨present, ho, h⟩ := Result.bind_eq_ok.mp h
  obtain ⟨hd, l, entries, rfl, rfl⟩ := (src.openStructure_eq_ok s).mp ho
  obtain ⟨read, hm, h⟩ := Result.bind_eq_ok.mp h
  obtain ⟨parts, hp, hr, rfl⟩ := readMembers_eq_ok.mp hm
  obtain ⟨_, hc, h⟩ := Result.bind_eq_ok.mp h
  obtain rfl := Except.ok.inj h
  refine .members hf hd hp (fun p hp' => ih p.2.1 ?_ _ _ _ (hr p hp')) hc
  obtain ⟨key, he, -⟩ := src.exists_entry_of_presentMembers_eq hp hp'
  exact .entry he

theorem reads_of_readUnion {es : Entries Document} (hf : (s.model.typeOf schema).form = .union)
    (h : readUnion src s depth schema (t.partsWith (documentAt src s)) = .ok es) :
    Reads src s depth schema t (.map { schema } es) := by
  rw [readUnion] at h
  obtain ⟨chosen, ho, h⟩ := Result.bind_eq_ok.mp h
  obtain ⟨hd, l, entries, key, u, rfl, hc, rfl⟩ := (src.openUnion_eq_ok s).mp ho
  cases hm : src.member? schema key with
  | none =>
      simp only [Source.chosen, hm] at h
      obtain rfl := Except.ok.inj h
      exact .unknown hf hd hc hm
  | some member =>
      simp only [Source.chosen, hm, readMembers, Tree.visit_result] at h
      obtain ⟨d, hr, h⟩ := Result.bind_eq_ok.mp h
      obtain rfl := Except.ok.inj h
      exact .known hf hd hc hm (ih u (.entry (src.mem_of_candidates hc).1) _ _ _ hr)

theorem reads_of_readItems {member : SchemaRef} {kept : List (Result (Node Label Leaf))}
    {ds : List Document} (hm : s.model.listMember schema = .ok member)
    (ho : src.openList s depth schema (t.partsWith (documentAt src s)) = .ok kept)
    (h : readItems (depth + 1) member kept = .ok ds) :
    Reads src s depth schema t (.list { schema } ds) := by
  obtain ⟨hd, l, items, rfl, rfl⟩ := (src.openList_eq_ok s).mp ho
  obtain ⟨parts, hk, hp, rfl⟩ := readItems_eq_ok.mp h
  exact .list hm hd hk fun p hp' =>
    ih p.1 (.item (s.mem_of_kept_eq hk hp').1) _ _ _ (hp p hp')

theorem reads_of_readEntries {member : SchemaRef}
    {kept : List (Result (String × Node Label Leaf))} {es : Entries Document}
    (hm : s.model.mapValue schema = .ok member)
    (ho : src.openMap s depth schema (t.partsWith (documentAt src s)) = .ok kept)
    (h : readEntries (depth + 1) member [] kept = .ok es) :
    Reads src s depth schema t (.map { schema } es) := by
  obtain ⟨hd, l, entries, rfl, rfl⟩ := (src.openMap_eq_ok s).mp ho
  obtain ⟨parts, hk, hp, rfl⟩ := readEntries_eq_ok.mp h
  exact .map hm hd hk fun p hp' =>
    ih p.2.1 (.entry (s.mem_of_kept_eq hk hp').1) _ _ _ (hp p hp')

/-- A value that is not null is read by one of the rules, if its parts are. -/
theorem reads_of_readValue (hn : t.isNull = false) {d : Document}
    (h : readValue src s (t.partsWith (documentAt src s)) depth schema = .ok d) :
    Reads src s depth schema t d := by
  unfold readValue at h
  cases hf : (s.model.typeOf schema).form with
  | document =>
      simp only [hf, Tree.partsWith_tree] at h
      obtain rfl := Except.ok.inj h
      exact .document hf hn
  | scalar type =>
      simp only [hf, Tree.partsWith_tree] at h
      obtain ⟨v, hv, h⟩ := Result.bind_eq_ok.mp h
      obtain rfl := Except.ok.inj h
      exact .scalar hf hn hv
  | «structure» =>
      simp only [hf] at h
      obtain ⟨es, hs, h⟩ := Result.bind_eq_ok.mp h
      obtain rfl := Except.ok.inj h
      exact reads_of_readStructure ih hf hs
  | union =>
      simp only [hf] at h
      obtain ⟨es, hu, h⟩ := Result.bind_eq_ok.mp h
      obtain rfl := Except.ok.inj h
      exact reads_of_readUnion ih hf hu
  | list =>
      simp only [hf] at h
      obtain ⟨member, hm, h⟩ := Result.bind_eq_ok.mp h
      obtain ⟨kept, ho, h⟩ := Result.bind_eq_ok.mp h
      obtain ⟨ds, hr, h⟩ := Result.bind_eq_ok.mp h
      obtain rfl := Except.ok.inj h
      exact reads_of_readItems ih hm ho hr
  | map =>
      simp only [hf] at h
      obtain ⟨member, hm, h⟩ := Result.bind_eq_ok.mp h
      obtain ⟨kept, ho, h⟩ := Result.bind_eq_ok.mp h
      obtain ⟨es, hr, h⟩ := Result.bind_eq_ok.mp h
      obtain rfl := Except.ok.inj h
      exact reads_of_readEntries ih hm ho hr

end

theorem reads_of_documentAt (t : Tree Label Leaf) : ∀ (depth : Nat) (schema : SchemaRef)
    (d : Document), documentAt src s t depth schema = .ok d → Reads src s depth schema t d := by
  induction t using Tree.induct_inside with
  | h t ih =>
      intro depth schema d h
      cases hn : t.isNull with
      | true =>
          obtain ⟨l, rfl⟩ := Tree.isNull_eq_true hn
          obtain rfl := Except.ok.inj ((documentAt_null l depth schema).symm.trans h)
          exact .null l
      | false =>
          rw [documentAt_of_not_null hn] at h
          exact reads_of_readValue ih hn h

/-- Reading succeeds exactly by the rules. -/
theorem documentAt_eq_ok_iff {t : Tree Label Leaf} {depth : Nat} {schema : SchemaRef}
    {d : Document} : documentAt src s t depth schema = .ok d ↔ Reads src s depth schema t d :=
  ⟨reads_of_documentAt t depth schema d, Reads.run⟩

end ShapeCodec.Reader
