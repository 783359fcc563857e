import Mathlib.Data.List.Basic
import ShapeCodec.Proofs.Result
import ShapeCodec.Proofs.Tree

/-!
# Going into containers

What it takes for the steps into a container to succeed, and what they hand on. Handing on does not
look at what has been made of the parts, so it is described over the bare tree; `f` stands for what
a walk makes of a part.
-/

namespace ShapeCodec

open ShapeCodec.Tree (Parts Visited)

variable {Label Leaf α β : Type}

/-- A part of a tree together with what `f` makes of it. -/
def Tree.visit (f : Tree Label Leaf → β) (t : Tree Label Leaf) : Visited Label Leaf β :=
  ⟨t, f t⟩

@[simp] theorem Tree.visit_tree (f : Tree Label Leaf → β) (t : Tree Label Leaf) :
    (t.visit f).tree = t := rfl

@[simp] theorem Tree.visit_result (f : Tree Label Leaf → β) (t : Tree Label Leaf) :
    (t.visit f).result = f t := rfl

@[simp] theorem Tree.visit_isNull (f : Tree Label Leaf → β) (t : Tree Label Leaf) :
    (t.visit f).isNull = t.isNull := rfl

namespace Scope

variable (s : Scope)

theorem enter_eq_ok {depth : Nat} : s.enter depth = .ok () ↔ depth < s.config.maxDepth := by
  unfold enter Config.checkDepth
  split
  · simp only [reduceCtorEq, false_iff]
    omega
  · simp only [true_iff]
    omega

theorem kept_map {isNull : α → Bool} {isNull' : β → Bool} {g : α → β}
    (hg : ∀ a, isNull' (g a) = isNull a) (collection : SchemaRef) (items : List α) :
    s.kept collection isNull' (items.map g) =
      (s.kept collection isNull items).map (Except.map g) := by
  simp only [kept, List.filterMap_map, List.map_filterMap]
  congr 1
  funext a
  simp only [Function.comp_apply, hg]
  split
  · split <;> rfl
  · rfl

theorem kept_visit (f : Tree Label Leaf → β) (collection : SchemaRef)
    (ts : List (Tree Label Leaf)) :
    s.kept collection Visited.isNull (ts.map fun u => u.visit f) =
      (s.kept collection Tree.isNull ts).map (Except.map fun u => u.visit f) :=
  s.kept_map (fun _ => rfl) collection ts

theorem kept_visitEntries (f : Tree Label Leaf → β) (collection : SchemaRef)
    (es : List (String × Tree Label Leaf)) :
    s.kept collection (fun e => e.2.isNull) (es.map fun e => (e.1, e.2.visit f)) =
      (s.kept collection (fun e => e.2.isNull) es).map (Except.map fun e => (e.1, e.2.visit f)) :=
  s.kept_map (fun _ => rfl) collection es

/-- What is handed on is part of the collection, and a null only if it is sparse. -/
theorem mem_of_mem_kept {collection : SchemaRef} {isNull : α → Bool} {items : List α} {a : α}
    (h : .ok a ∈ s.kept collection isNull items) :
    a ∈ items ∧ (isNull a = true → s.model.isSparse collection = true) := by
  obtain ⟨b, hb, hk⟩ := List.mem_filterMap.mp h
  split at hk
  · split at hk <;> simp at hk
  · rename_i hn
    obtain rfl : b = a := by simpa using hk
    refine ⟨hb, fun ha => ?_⟩
    simpa [ha] using hn

/-- So is every part of what is handed on without an error. -/
theorem mem_of_kept_eq {collection : SchemaRef} {isNull : α → Bool} {items : List α}
    {parts : List β} {part : β → α}
    (h : s.kept collection isNull items = parts.map fun p => .ok (part p)) {p : β}
    (hp : p ∈ parts) :
    part p ∈ items ∧ (isNull (part p) = true → s.model.isSparse collection = true) := by
  refine s.mem_of_mem_kept ?_
  rw [h]
  exact List.mem_map_of_mem hp

theorem mem_kept_of_not_null {collection : SchemaRef} {isNull : α → Bool} {items : List α} {a : α}
    (h : a ∈ items) (hn : isNull a = false) : .ok a ∈ s.kept collection isNull items :=
  List.mem_filterMap.mpr ⟨a, h, by simp [hn]⟩

private theorem sublist_of_filterMap {f : α → Option β} {g : α → β}
    (hf : ∀ a b, f a = some (g b) → a = b) {items as : List α}
    (h : items.filterMap f = as.map g) : as.Sublist items := by
  induction items generalizing as with
  | nil =>
      obtain rfl : as = [] := by simpa using h.symm
      exact .slnil
  | cons a items ih =>
      rw [List.filterMap_cons] at h
      split at h
      · exact (ih h).cons a
      · rename_i r hr
        cases as with
        | nil => simp at h
        | cons b as =>
            obtain ⟨rfl, ht⟩ := List.cons.inj h
            exact hf a b hr ▸ (ih ht).cons_cons a

/-- What is handed on without an error keeps its order. -/
theorem sublist_of_kept {collection : SchemaRef} {isNull : α → Bool} {items as : List α}
    (h : s.kept collection isNull items = as.map .ok) : as.Sublist items := by
  refine sublist_of_filterMap (fun a b hab => ?_) h
  split at hab
  · split at hab <;> simp at hab
  · simpa using hab

/-- So the keys of what is handed on from a map are as distinct as they were. -/
theorem nodup_of_kept {collection : SchemaRef} {isNull : String × α → Bool}
    {entries : List (String × α)} {parts : List (String × α × β)}
    (hn : (Entries.keys entries).Nodup)
    (h : s.kept collection isNull entries = parts.map fun p => .ok (p.1, p.2.1)) :
    (parts.map Prod.fst).Nodup := by
  have hsub : (parts.map fun p => (p.1, p.2.1)).Sublist entries :=
    s.sublist_of_kept (by rw [h, List.map_map]; rfl)
  simpa [Function.comp_def] using hn.sublist (hsub.map Prod.fst)

/-- Nothing is lost from a collection that is sparse or holds no null. -/
theorem kept_of_forall {collection : SchemaRef} {isNull : α → Bool} {items : List α}
    (h : ∀ a ∈ items, isNull a = true → s.model.isSparse collection = true) :
    s.kept collection isNull items = items.map .ok := by
  rw [kept, ← List.filterMap_eq_map]
  refine List.filterMap_congr fun a ha => ?_
  -- a null is kept only where the collection is sparse
  by_cases hn : isNull a = true
  · simp [hn, h a ha hn]
  · simp [hn]

end Scope

namespace Source

variable (src : Source Label Leaf) (s : Scope)

/-! ### Members -/

theorem presentMembers_visit (f : Tree Label Leaf → β) (schema : SchemaRef)
    (entries : Entries (Tree Label Leaf)) :
    src.presentMembers schema Visited.isNull (entries.map fun e => (e.1, e.2.visit f)) =
      (src.presentMembers schema Tree.isNull entries).map fun p => (p.1, p.2.visit f) := by
  simp only [presentMembers, List.filterMap_map, List.map_filterMap]
  congr 1
  funext e
  simp only [Function.comp_apply, Tree.visit_isNull]
  cases src.member? schema e.1 with
  | none => rfl
  | some member => by_cases h : e.2.isNull = true <;> simp [h]

theorem mem_presentMembers {schema member : SchemaRef} {isNull : α → Bool} {entries : Entries α}
    {a : α} : (member, a) ∈ src.presentMembers schema isNull entries ↔
      ∃ key, (key, a) ∈ entries ∧ src.member? schema key = some member ∧ isNull a = false := by
  rw [presentMembers, List.mem_filterMap]
  constructor
  · rintro ⟨⟨key, b⟩, hb, h⟩
    cases hm : src.member? schema key with
    | none => simp [hm] at h
    | some found =>
        obtain ⟨hn, rfl, rfl⟩ : isNull b = false ∧ found = member ∧ b = a := by simpa [hm] using h
        exact ⟨key, hb, hm, hn⟩
  · rintro ⟨key, ha, hm, hn⟩
    exact ⟨(key, a), ha, by simp [hm, hn]⟩

theorem presentMembers_at {schema member : SchemaRef} {isNull : α → Bool} {key : String} {a : α}
    (hm : src.member? schema key = some member) (hn : isNull a = false) (before after : Entries α) :
    src.presentMembers schema isNull (before ++ (key, a) :: after) =
      src.presentMembers schema isNull before ++
        (member, a) :: src.presentMembers schema isNull after := by
  simp [presentMembers, hm, hn]

/-- Every member that is present comes from an entry. -/
theorem exists_entry_of_presentMembers_eq {schema : SchemaRef} {isNull : α → Bool}
    {entries : Entries α} {parts : List β} {member : β → SchemaRef} {part : β → α}
    (h : src.presentMembers schema isNull entries = parts.map fun p => (member p, part p)) {p : β}
    (hp : p ∈ parts) : ∃ key, (key, part p) ∈ entries ∧
      src.member? schema key = some (member p) ∧ isNull (part p) = false := by
  refine src.mem_presentMembers.mp ?_
  rw [h]
  exact List.mem_map_of_mem hp

/-- Where no two keys go by one member, distinct keys give distinct members. -/
theorem nodup_presentMembers {schema : SchemaRef} {isNull : α → Bool} {entries : Entries α}
    (hinj : ∀ {k k' member}, src.member? schema k = some member →
      src.member? schema k' = some member → k = k')
    (h : (Entries.keys entries).Nodup) :
    ((src.presentMembers schema isNull entries).map Prod.fst).Nodup := by
  induction entries with
  | nil => exact List.nodup_nil
  | cons e entries ih =>
      obtain ⟨hnew, hrest⟩ := List.nodup_cons.mp h
      have hcons : src.presentMembers schema isNull (e :: entries) =
          src.presentMembers schema isNull [e] ++ src.presentMembers schema isNull entries :=
        List.filterMap_append (l := [e])
      have hone : ((src.presentMembers schema isNull [e]).map Prod.fst).Nodup := by
        cases hm : src.member? schema e.1 with
        | none => simp [presentMembers, hm]
        | some member => by_cases hn : isNull e.2 = true <;> simp [presentMembers, hm, hn]
      rw [hcons, List.map_append, List.nodup_append]
      refine ⟨hone, ih hrest, ?_⟩
      rintro member hmember _ hmember' rfl
      obtain ⟨⟨found, a⟩, ha, hfirst⟩ := List.mem_map.mp hmember
      obtain ⟨⟨found', a'⟩, ha', hsecond⟩ := List.mem_map.mp hmember'
      obtain rfl : found = found' := hfirst.trans hsecond.symm
      obtain ⟨key, hkey, hfound, -⟩ := src.mem_presentMembers.mp ha
      obtain ⟨key', hkey', hfound', -⟩ := src.mem_presentMembers.mp ha'
      obtain rfl : e = (key, a) := (List.mem_singleton.mp hkey).symm
      obtain rfl : key = key' := hinj hfound hfound'
      have hrepeated : key ∈ entries.map Prod.fst := List.mem_map.mpr ⟨(key, a'), hkey', rfl⟩
      exact hnew hrepeated

/-- What the one entry of a union is taken for. -/
def chosen (schema : SchemaRef) (key : String) (a : α) : Chosen α :=
  match src.member? schema key with
  | some member => .known member a
  | none => .unknown key a

theorem choose_eq_ok {m : Model} {schema : SchemaRef} {isNull : α → Bool} {entries : Entries α}
    {c : Chosen α} : src.choose m schema isNull entries = .ok c ↔
      ∃ key a, src.candidates isNull entries = [(key, a)] ∧ c = src.chosen schema key a := by
  unfold choose
  split
  · rename_i key a h
    constructor
    · intro h'
      refine ⟨key, a, h, ?_⟩
      unfold chosen
      cases hm : src.member? schema key <;> simp only [hm] at h' <;> exact (Except.ok.inj h').symm
    · rintro ⟨key', a', h', rfl⟩
      obtain ⟨rfl, rfl⟩ : key = key' ∧ a = a' := by simpa [h] using h'
      unfold chosen
      cases src.member? schema key <;> rfl
  · rename_i h
    simp only [reduceCtorEq, false_iff]
    rintro ⟨key, a, h', -⟩
    exact h key a h'

theorem candidates_visit (f : Tree Label Leaf → β) (entries : Entries (Tree Label Leaf)) :
    src.candidates Visited.isNull (entries.map fun e => (e.1, e.2.visit f)) =
      (src.candidates Tree.isNull entries).map fun e => (e.1, e.2.visit f) := by
  simp only [candidates, List.filter_map, Function.comp_def, Tree.visit_isNull]

theorem mem_of_candidates {isNull : α → Bool} {entries : Entries α} {key : String} {a : α}
    (h : src.candidates isNull entries = [(key, a)]) :
    (key, a) ∈ entries ∧ isNull a = false ∧ src.ignoresKey key = false := by
  have hm : (key, a) ∈ src.candidates isNull entries := by simp [h]
  simpa [candidates] using List.mem_filter.mp hm

/-! ### Opening -/

theorem entriesOf_partsWith {type : ShapeType} {f : Tree Label Leaf → β} {t : Tree Label Leaf}
    {entries : Entries (Visited Label Leaf β)} :
    src.entriesOf type (t.partsWith f) = .ok entries ↔
      ∃ l es, t = .map l es ∧ entries = es.map fun e => (e.1, e.2.visit f) := by
  cases t <;> simp [entriesOf, Tree.partsWith, Tree.visit, eq_comm]

theorem itemsOf_partsWith {f : Tree Label Leaf → β} {t : Tree Label Leaf}
    {items : List (Visited Label Leaf β)} :
    src.itemsOf (t.partsWith f) = .ok items ↔
      ∃ l ts, t = .list l ts ∧ items = ts.map fun u => u.visit f := by
  cases t <;> simp [itemsOf, Tree.partsWith, Tree.visit, eq_comm]

theorem openStructure_eq_ok {depth : Nat} {schema : SchemaRef} {f : Tree Label Leaf → β}
    {t : Tree Label Leaf} {present : List (SchemaRef × Visited Label Leaf β)} :
    src.openStructure s depth schema (t.partsWith f) = .ok present ↔
      depth < s.config.maxDepth ∧ ∃ l entries, t = .map l entries ∧
        present = (src.presentMembers schema Tree.isNull entries).map
          fun p => (p.1, p.2.visit f) := by
  simp only [openStructure, Result.bind_eq_ok, entriesOf_partsWith]
  constructor
  · rintro ⟨⟨⟩, hd, _, ⟨l, es, rfl, rfl⟩, h⟩
    refine ⟨s.enter_eq_ok.mp hd, l, es, rfl, ?_⟩
    rw [← src.presentMembers_visit f]
    exact (Except.ok.inj h).symm
  · rintro ⟨hd, l, es, rfl, rfl⟩
    refine ⟨(), s.enter_eq_ok.mpr hd, _, ⟨l, es, rfl, rfl⟩, ?_⟩
    rw [src.presentMembers_visit f]
    rfl

theorem openUnion_eq_ok {depth : Nat} {schema : SchemaRef} {f : Tree Label Leaf → β}
    {t : Tree Label Leaf} {c : Chosen (Visited Label Leaf β)} :
    src.openUnion s depth schema (t.partsWith f) = .ok c ↔
      depth < s.config.maxDepth ∧ ∃ l entries key u, t = .map l entries ∧
        src.candidates Tree.isNull entries = [(key, u)] ∧
        c = src.chosen schema key (u.visit f) := by
  simp only [openUnion, Result.bind_eq_ok, entriesOf_partsWith, choose_eq_ok]
  constructor
  · rintro ⟨⟨⟩, hd, _, ⟨l, es, rfl, rfl⟩, key, v, hc, rfl⟩
    rw [src.candidates_visit f] at hc
    obtain ⟨⟨key', u⟩, hu, he⟩ := List.map_eq_singleton_iff.mp hc
    obtain ⟨rfl, rfl⟩ := Prod.mk.inj he
    exact ⟨s.enter_eq_ok.mp hd, l, es, key', u, rfl, hu, rfl⟩
  · rintro ⟨hd, l, es, key, u, rfl, hu, rfl⟩
    refine ⟨(), s.enter_eq_ok.mpr hd, _, ⟨l, es, rfl, rfl⟩, key, u.visit f, ?_, rfl⟩
    rw [src.candidates_visit f, hu]
    rfl

theorem openList_eq_ok {depth : Nat} {schema : SchemaRef} {f : Tree Label Leaf → β}
    {t : Tree Label Leaf} {items : List (Result (Visited Label Leaf β))} :
    src.openList s depth schema (t.partsWith f) = .ok items ↔
      depth < s.config.maxDepth ∧ ∃ l ts, t = .list l ts ∧
        items = (s.kept schema Tree.isNull ts).map (Except.map fun u => u.visit f) := by
  simp only [openList, Result.bind_eq_ok, itemsOf_partsWith]
  constructor
  · rintro ⟨⟨⟩, hd, _, ⟨l, ts, rfl, rfl⟩, h⟩
    refine ⟨s.enter_eq_ok.mp hd, l, ts, rfl, ?_⟩
    rw [← s.kept_visit f]
    exact (Except.ok.inj h).symm
  · rintro ⟨hd, l, ts, rfl, rfl⟩
    refine ⟨(), s.enter_eq_ok.mpr hd, _, ⟨l, ts, rfl, rfl⟩, ?_⟩
    rw [s.kept_visit f]
    rfl

theorem openMap_eq_ok {depth : Nat} {schema : SchemaRef} {f : Tree Label Leaf → β}
    {t : Tree Label Leaf} {entries : List (Result (String × Visited Label Leaf β))} :
    src.openMap s depth schema (t.partsWith f) = .ok entries ↔
      depth < s.config.maxDepth ∧ ∃ l es, t = .map l es ∧
        entries = (s.kept schema (fun e => e.2.isNull) es).map
          (Except.map fun e => (e.1, e.2.visit f)) := by
  simp only [openMap, Result.bind_eq_ok, entriesOf_partsWith]
  constructor
  · rintro ⟨⟨⟩, hd, _, ⟨l, es, rfl, rfl⟩, h⟩
    refine ⟨s.enter_eq_ok.mp hd, l, es, rfl, ?_⟩
    rw [← s.kept_visitEntries f]
    exact (Except.ok.inj h).symm
  · rintro ⟨hd, l, es, rfl, rfl⟩
    refine ⟨(), s.enter_eq_ok.mpr hd, _, ⟨l, es, rfl, rfl⟩, ?_⟩
    rw [s.kept_visitEntries f]
    rfl

/-! ### What is handed on within the limit -/

section
variable {depth : Nat} (h : depth < s.config.maxDepth) (schema : SchemaRef)
  (f : Tree Label Leaf → β) (l : Label)
include h

theorem openStructure_map (entries : List (String × Tree Label Leaf)) :
    src.openStructure s depth schema ((Tree.map l entries).partsWith f) =
      .ok ((src.presentMembers schema Tree.isNull entries).map fun p => (p.1, p.2.visit f)) :=
  (src.openStructure_eq_ok s).mpr ⟨h, l, entries, rfl, rfl⟩

theorem openUnion_map {entries : List (String × Tree Label Leaf)} {key : String}
    {u : Tree Label Leaf} (hc : src.candidates Tree.isNull entries = [(key, u)]) :
    src.openUnion s depth schema ((Tree.map l entries).partsWith f) =
      .ok (src.chosen schema key (u.visit f)) :=
  (src.openUnion_eq_ok s).mpr ⟨h, l, entries, key, u, rfl, hc, rfl⟩

theorem openList_list (items : List (Tree Label Leaf)) :
    src.openList s depth schema ((Tree.list l items).partsWith f) =
      .ok ((s.kept schema Tree.isNull items).map (Except.map fun u => u.visit f)) :=
  (src.openList_eq_ok s).mpr ⟨h, l, items, rfl, rfl⟩

theorem openMap_map (entries : List (String × Tree Label Leaf)) :
    src.openMap s depth schema ((Tree.map l entries).partsWith f) =
      .ok ((s.kept schema (fun e => e.2.isNull) entries).map
        (Except.map fun e => (e.1, e.2.visit f))) :=
  (src.openMap_eq_ok s).mpr ⟨h, l, entries, rfl, rfl⟩

end

end Source
end ShapeCodec
