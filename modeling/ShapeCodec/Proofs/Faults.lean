import ShapeCodec.Proofs.Reading
import ShapeCodec.Proofs.Walks

/-!
# Reading up to the first fault

Settings decide whether a value that can be read is refused, but not what it is read as. So a run
with other settings has the result it had, or the first fault on the way: too many containers, or a
null that is not dropped any more. A fault is passed on as it is from part to whole.
-/

namespace ShapeCodec

/-- What comes of a step that only a fault can keep from its value. -/
def Result.guarded {ε α : Type} (fault? : Option ε) (a : α) : Except ε α :=
  match fault? with
  | some e => .error e
  | none => .ok a

namespace Result

variable {ε α β : Type}

@[simp] theorem guarded_none (a : α) : guarded (none : Option ε) a = .ok a := rfl

@[simp] theorem guarded_some (e : ε) (a : α) : guarded (some e) a = .error e := rfl

theorem guarded_eq_ok {fault? : Option ε} {a b : α} :
    guarded fault? a = .ok b ↔ fault? = none ∧ a = b := by
  cases fault? <;> simp

theorem guarded_eq_error {fault? : Option ε} {a : α} {e : ε} :
    guarded fault? a = .error e ↔ fault? = some e := by
  cases fault? <;> simp

theorem guarded_ite (c : Prop) [Decidable c] (e : ε) (a : α) :
    guarded (if c then some e else none) a = if c then .error e else .ok a := by
  by_cases h : c
  · rw [if_pos h, if_pos h, guarded_some]
  · rw [if_neg h, if_neg h, guarded_none]

theorem guarded_map (fault? : Option ε) (a : α) (f : α → β) :
    (guarded fault? a >>= fun a => .ok (f a)) = guarded fault? (f a) := by
  cases fault? <;> rfl

end Result

open Result (guarded)

/-- What is wrong with going into a container at a depth. -/
def Scope.roomFault? (s : Scope) (depth : Nat) : Option Error :=
  if depth < s.config.maxDepth then none else some (.nestingTooDeep s.config.maxDepth)

theorem Scope.enter_eq_guarded (s : Scope) (depth : Nat) :
    s.enter depth = guarded (s.roomFault? depth) () := by
  unfold enter Config.checkDepth roomFault?
  by_cases h : depth < s.config.maxDepth
  · rw [if_neg (by omega), if_pos h]
    rfl
  · rw [if_pos (by omega), if_neg h]
    rfl

theorem Scope.roomFault?_eq_none {s : Scope} {depth : Nat} (h : depth < s.config.maxDepth) :
    s.roomFault? depth = none :=
  if_pos h

namespace Reader

open ShapeCodec.Tree (Parts Visited)

variable {Label Leaf : Type} {src : Source Label Leaf} {s : Scope}

/-! ### The steps of reading a container -/

/-- The entry of a union, made of the one member that it has. -/
def readChosen (src : Source Label Leaf) (s : Scope) (depth : Nat) :
    Source.Chosen (Node Label Leaf) → Result (Entries Document)
  | .known member v => readMembers s (depth + 1) [] [(member, v)]
  | .unknown tag v => .ok [(tag, src.untyped v.tree)]

section
variable {depth : Nat} {schema member : SchemaRef} {l : Label}
  {entries : List (String × Tree Label Leaf)}

theorem documentAt_structure (hf : (s.model.typeOf schema).form = .structure) :
    documentAt src s (.map l entries) depth schema = (do
      s.enter depth
      let es ← readMembers s (depth + 1) [] ((src.presentMembers schema Tree.isNull entries).map
        fun p => (p.1, p.2.visit (documentAt src s)))
      s.model.checkRequired schema es.contains
      return .map { schema } es) := by
  rw [documentAt_of_not_null rfl, readValue, hf, ← src.presentMembers_visit]
  simp only [readStructure, Source.openStructure, Tree.partsWith, Source.entriesOf, bind_assoc,
    pure_bind, Result.ok_bind]
  rfl

theorem documentAt_union (hf : (s.model.typeOf schema).form = .union) :
    documentAt src s (.map l entries) depth schema = (do
      s.enter depth
      let chosen ← src.choose s.model schema Visited.isNull
        (entries.map fun e => (e.1, e.2.visit (documentAt src s)))
      let es ← readChosen src s depth chosen
      return .map { schema } es) := by
  rw [documentAt_of_not_null rfl, readValue, hf]
  simp only [readUnion, Source.openUnion, Tree.partsWith, Source.entriesOf, bind_assoc,
    Result.ok_bind]
  refine bind_congr fun _ => bind_congr fun chosen => ?_
  cases chosen <;> rfl

theorem documentAt_list {items : List (Tree Label Leaf)}
    (hm : s.model.listMember schema = .ok member) :
    documentAt src s (.list l items) depth schema = (do
      s.enter depth
      let ds ← readItems (depth + 1) member
        ((s.kept schema Tree.isNull items).map (Except.map fun u => u.visit (documentAt src s)))
      return .list { schema } ds) := by
  rw [documentAt_of_not_null rfl, readValue, Model.form_of_listMember hm, ← s.kept_visit]
  simp only [hm, Source.openList, Tree.partsWith, Source.itemsOf, bind_assoc, pure_bind,
    Result.ok_bind]
  rfl

theorem documentAt_map (hm : s.model.mapValue schema = .ok member) :
    documentAt src s (.map l entries) depth schema = (do
      s.enter depth
      let es ← readEntries (depth + 1) member []
        ((s.kept schema (fun e => e.2.isNull) entries).map
          (Except.map fun e => (e.1, e.2.visit (documentAt src s))))
      return .map { schema } es) := by
  rw [documentAt_of_not_null rfl, readValue, Model.form_of_mapValue hm, ← s.kept_visitEntries]
  simp only [hm, Source.openMap, Tree.partsWith, Source.entriesOf, bind_assoc, pure_bind,
    Result.ok_bind]
  rfl

/-- A collection whose elements have no schema is refused before it is opened. -/
theorem documentAt_list_of_error {items : List (Tree Label Leaf)} {e : Error}
    (hf : (s.model.typeOf schema).form = .list) (hm : s.model.listMember schema = .error e) :
    documentAt src s (.list l items) depth schema = .error e := by
  rw [documentAt_of_not_null rfl, readValue, hf]
  simp only [hm]
  rfl

theorem documentAt_map_of_error {e : Error} (hf : (s.model.typeOf schema).form = .map)
    (hm : s.model.mapValue schema = .error e) :
    documentAt src s (.map l entries) depth schema = .error e := by
  rw [documentAt_of_not_null rfl, readValue, hf]
  simp only [hm]
  rfl

end

/-! ### Runs over parts, up to the first fault -/

section
variable {depth : Nat} {f : Tree Label Leaf → DocumentReader}

theorem readMembers_guarded {read : Entries Document}
    {parts : List (SchemaRef × Tree Label Leaf × Document)}
    {fault? : SchemaRef → Tree Label Leaf → Option Error}
    (h : ∀ p ∈ parts, f p.2.1 depth p.1 = guarded (fault? p.1 p.2.1) p.2.2) :
    readMembers s depth read (parts.map fun p => (p.1, p.2.1.visit f)) =
      guarded (parts.findSome? fun p => fault? p.1 p.2.1)
        ((memberEntries s parts).foldl (fun es p => es.insert p.1 p.2) read) := by
  induction parts generalizing read with
  | nil => rfl
  | cons p parts ih =>
      obtain ⟨hp, h⟩ := List.forall_mem_cons.mp h
      simp only [List.map_cons, readMembers, Tree.visit_result, hp, List.findSome?_cons]
      cases fault? p.1 p.2.1 with
      | some e => rfl
      | none => exact ih h

variable {member : SchemaRef} {refusal? : Option Error} {fault? : Tree Label Leaf → Option Error}

/-- The fault of a list is the first one of its elements, or that of an element refused before. -/
theorem readItems_guarded {keep : Tree Label Leaf → Bool} {items : List (Tree Label Leaf)}
    {parts : List (Tree Label Leaf × Document)} (hk : items.filter keep = parts.map Prod.fst)
    (h : ∀ p ∈ parts, f p.1 depth member = guarded (fault? p.1) p.2) :
    readItems depth member ((items.filterMap fun u =>
        if keep u = true then some (.ok u) else refusal?.map .error).map
          (Except.map fun u => u.visit f)) =
      guarded (items.findSome? fun u => if keep u = true then fault? u else refusal?)
        (parts.map Prod.snd) := by
  induction items generalizing parts with
  | nil =>
      obtain rfl : parts = [] := by simpa using hk.symm
      rfl
  | cons u items ih =>
      by_cases hu : keep u = true
      · rw [List.filter_cons_of_pos hu] at hk
        obtain ⟨⟨u', d⟩, rest, rfl, rfl, hrest⟩ := List.map_eq_cons_iff.mp hk.symm
        obtain ⟨hp, h⟩ := List.forall_mem_cons.mp h
        simp only [List.filterMap_cons, hu, if_true, List.map_cons, readItems, Except.map,
          Result.ok_bind, Tree.visit_result, hp, List.findSome?_cons]
        cases fault? u' with
        | some e => rfl
        | none =>
            have hrun := ih hrest.symm h
            simp only [Result.guarded_none, Result.ok_bind] at hrun ⊢
            rw [hrun]
            exact Result.guarded_map _ _ (d :: ·)
      · rw [List.filter_cons_of_neg hu] at hk
        simp only [List.filterMap_cons, hu, List.findSome?_cons]
        cases refusal? with
        | some e => rfl
        | none => exact ih hk h

/-- So is the fault of a map. -/
theorem readEntries_guarded {keep : String × Tree Label Leaf → Bool} {read : Entries Document}
    {entries : List (String × Tree Label Leaf)}
    {parts : List (String × Tree Label Leaf × Document)}
    (hk : entries.filter keep = parts.map fun p => (p.1, p.2.1))
    (h : ∀ p ∈ parts, f p.2.1 depth member = guarded (fault? p.2.1) p.2.2) :
    readEntries depth member read ((entries.filterMap fun e =>
        if keep e = true then some (.ok e) else refusal?.map .error).map
          (Except.map fun e => (e.1, e.2.visit f))) =
      guarded (entries.findSome? fun e => if keep e = true then fault? e.2 else refusal?)
        ((parts.map fun p => (p.1, p.2.2)).foldl (fun es p => es.insert p.1 p.2) read) := by
  induction entries generalizing parts read with
  | nil =>
      obtain rfl : parts = [] := by simpa using hk.symm
      rfl
  | cons e entries ih =>
      by_cases he : keep e = true
      · rw [List.filter_cons_of_pos he] at hk
        obtain ⟨⟨key, u, d⟩, rest, rfl, rfl, hrest⟩ := List.map_eq_cons_iff.mp hk.symm
        obtain ⟨hp, h⟩ := List.forall_mem_cons.mp h
        simp only [List.filterMap_cons, he, if_true, List.map_cons, readEntries, Except.map,
          Result.ok_bind, Tree.visit_result, hp, List.findSome?_cons]
        cases fault? u with
        | some e => rfl
        | none => exact ih hrest.symm h
      · rw [List.filter_cons_of_neg he] at hk
        simp only [List.filterMap_cons, he, List.findSome?_cons]
        cases refusal? with
        | some e => rfl
        | none => exact ih hk h

end

/-! ### Containers, up to the first fault -/

section
variable {depth : Nat} {schema member : SchemaRef} {l : Label}
  {entries : List (String × Tree Label Leaf)}
  (fault? : SchemaRef → Tree Label Leaf → Option Error)

theorem documentAt_structure_guarded {parts : List (SchemaRef × Tree Label Leaf × Document)}
    (hf : (s.model.typeOf schema).form = .structure)
    (hp : src.presentMembers schema Tree.isNull entries = parts.map fun p => (p.1, p.2.1))
    (hr : ∀ p ∈ parts,
      documentAt src s p.2.1 (depth + 1) p.1 = guarded (fault? p.1 p.2.1) p.2.2)
    (hc : s.model.checkRequired schema
      (fun name => Entries.contains name (Entries.ofList (memberEntries s parts))) = .ok ()) :
    documentAt src s (.map l entries) depth schema =
      guarded ((s.roomFault? depth).or (parts.findSome? fun p => fault? p.1 p.2.1))
        (.map { schema } (Entries.ofList (memberEntries s parts))) := by
  have hrun : readMembers s (depth + 1) []
      (parts.map fun p => (p.1, p.2.1.visit (documentAt src s))) =
        guarded (parts.findSome? fun p => fault? p.1 p.2.1)
          (Entries.ofList (memberEntries s parts)) := readMembers_guarded hr
  rw [documentAt_structure hf, s.enter_eq_guarded, hp, List.map_map]
  cases s.roomFault? depth with
  | some e => rfl
  | none =>
      simp only [Function.comp_def, hrun, Result.guarded_none, Result.ok_bind, Option.none_or]
      cases parts.findSome? fun p => fault? p.1 p.2.1 with
      | some e => rfl
      | none => simp only [Result.guarded_none, Result.ok_bind, hc, Result.pure_eq_ok]

theorem choose_singleton {f : Tree Label Leaf → DocumentReader} {key : String}
    {u : Tree Label Leaf} (hc : src.candidates Tree.isNull entries = [(key, u)]) :
    src.choose s.model schema Visited.isNull (entries.map fun e => (e.1, e.2.visit f)) =
      .ok (src.chosen schema key (u.visit f)) := by
  refine src.choose_eq_ok.mpr ⟨key, u.visit f, ?_, rfl⟩
  rw [src.candidates_visit f, hc]
  rfl

theorem choose_arity {f : Tree Label Leaf → DocumentReader}
    (hc : (src.candidates Tree.isNull entries).length ≠ 1) :
    src.choose s.model schema Visited.isNull (entries.map fun e => (e.1, e.2.visit f)) =
      .error (.unionArity (s.model.shapeId schema)
        (src.candidates Tree.isNull entries).length) := by
  rw [Source.choose, src.candidates_visit]
  split
  · rename_i h
    exact absurd (by simpa using congrArg List.length h) hc
  · rw [List.length_map]

theorem documentAt_known_guarded {key : String} {u : Tree Label Leaf} {d : Document}
    (hf : (s.model.typeOf schema).form = .union)
    (hc : src.candidates Tree.isNull entries = [(key, u)])
    (hm : src.member? schema key = some member)
    (hr : documentAt src s u (depth + 1) member = guarded (fault? member u) d) :
    documentAt src s (.map l entries) depth schema =
      guarded ((s.roomFault? depth).or (fault? member u))
        (.map { schema } [((s.model.memberName? member).getD "", d)]) := by
  rw [documentAt_union hf, s.enter_eq_guarded, choose_singleton hc, Source.chosen, hm]
  cases s.roomFault? depth with
  | some e => rfl
  | none =>
      simp only [Result.guarded_none, Result.ok_bind, Option.none_or, readChosen, readMembers,
        Tree.visit_result, hr]
      cases fault? member u <;> rfl

theorem documentAt_unknown_guarded {tag : String} {u : Tree Label Leaf}
    (hf : (s.model.typeOf schema).form = .union)
    (hc : src.candidates Tree.isNull entries = [(tag, u)]) (hm : src.member? schema tag = none) :
    documentAt src s (.map l entries) depth schema =
      guarded (s.roomFault? depth) (.map { schema } [(tag, src.untyped u)]) := by
  rw [documentAt_union hf, s.enter_eq_guarded, choose_singleton hc, Source.chosen, hm]
  cases s.roomFault? depth <;> rfl

theorem documentAt_list_guarded {items : List (Tree Label Leaf)}
    {parts : List (Tree Label Leaf × Document)} (hm : s.model.listMember schema = .ok member)
    (hk : (items.filter fun u => s.model.keeps schema u.isNull) = parts.map Prod.fst)
    (hr : ∀ p ∈ parts, documentAt src s p.1 (depth + 1) member = guarded (fault? member p.1) p.2) :
    documentAt src s (.list l items) depth schema =
      guarded ((s.roomFault? depth).or (items.findSome? fun u =>
          if s.model.keeps schema u.isNull = true then fault? member u else s.refusal? schema))
        (.list { schema } (parts.map Prod.snd)) := by
  rw [documentAt_list hm, s.enter_eq_guarded, Scope.kept_eq, readItems_guarded hk hr]
  cases s.roomFault? depth with
  | some e => rfl
  | none => exact Result.guarded_map _ _ (Tree.list ({ schema } : ShapeCodec.Label))

theorem documentAt_map_guarded {parts : List (String × Tree Label Leaf × Document)}
    (hm : s.model.mapValue schema = .ok member)
    (hk : (entries.filter fun e => s.model.keeps schema e.2.isNull) =
      parts.map fun p => (p.1, p.2.1))
    (hr : ∀ p ∈ parts,
      documentAt src s p.2.1 (depth + 1) member = guarded (fault? member p.2.1) p.2.2) :
    documentAt src s (.map l entries) depth schema =
      guarded ((s.roomFault? depth).or (entries.findSome? fun e =>
          if s.model.keeps schema e.2.isNull = true then fault? member e.2 else s.refusal? schema))
        (.map { schema } (Entries.ofList (parts.map fun p => (p.1, p.2.2)))) := by
  rw [documentAt_map hm, s.enter_eq_guarded, Scope.kept_eq, readEntries_guarded hk hr]
  cases s.roomFault? depth with
  | some e => rfl
  | none => exact Result.guarded_map _ _ (Tree.map ({ schema } : ShapeCodec.Label))

end

end Reader
end ShapeCodec
