import ShapeCodec.Proofs.Changes
import ShapeCodec.Proofs.OrderedMaps
import ShapeCodec.Proofs.RequiredMembers

/-!
# Containers as maps and lists

A document is compared with a reference that knows nothing of schemas but which calls they refuse:
an ordered map, a list, or a scalar. Calls change both alike and fail alike, so whatever is done to
a document, it holds what the reference does, and shows it.
-/

namespace ShapeCodec

open Result (guarded)

/-! ### What schemas refuse -/

namespace Model

variable {m : Model} {S : SchemaRef} {key : String} {value : Document}

/-- What is wrong with a key under a schema with members. -/
def strange? (m : Model) (S : SchemaRef) (key : String) : Option Error :=
  if (m.member? S key).isSome then none
  else some (.invalidSchema s!"{(m.id S).text} has no member `{key}`")

/-- What is wrong with a union of one entry: its key, a member that has to be there, or a null. -/
def unionRefusal? (m : Model) (S : SchemaRef) (key : String) (value : Document) : Option Error :=
  let there (member : SchemaRef) : Bool := m.memberName? member == some key && !value.isNull
  (m.strange? S key).or <|
    ((m.firstMissing? S there).map (m.missingMember · S)).or <|
      if value.isNull then some (.unionArity (m.shapeId S) 0) else none

/-- What is wrong with setting a key under a schema. -/
def entryRefusal? (m : Model) (S : SchemaRef) (key : String) (value : Document) : Option Error :=
  match m.typeOf S with
  | .structure => m.strange? S key
  | .union => m.unionRefusal? S key value
  | _ => none

/-- What is wrong with taking a key away under a schema. -/
def removalRefusal? (m : Model) (S : SchemaRef) : Option Error :=
  if m.typeOf S = .union then some (.invalidUnionMutation (m.shapeId S)) else none

theorem expectMember_guarded {α : Type} (a : α) :
    (m.expectMember S key >>= fun _ => Except.ok a) = guarded (m.strange? S key) a := by
  rw [expectMember, strange?]
  cases m.member? S key <;> rfl

end Model

/-! ### The reference -/

/-- What a document holds, without its label. -/
inductive Content where
  | scalar (value : Option Scalar)
  | list (items : List Document)
  | map (entries : OrderedMap Document)

namespace Content

variable {m : Model} {l : Label} {C : Content}

/-- The document that holds a content. -/
def document (l : Label) : Content → Document
  | scalar none => .null l
  | scalar (some s) => .leaf l s
  | list items => .list l items
  | map M => .map l M.entries

/-- The map, where one is needed. -/
def asMap (m : Model) (l : Label) (C : Content) : Result (OrderedMap Document) :=
  match C with
  | map M => .ok M
  | list _ => .error (.typeMismatch ShapeType.map.keyword ShapeType.list.keyword)
  | scalar _ => .error (.notAContainer ((C.document l).shapeType m))

/-- The list, where one is needed. -/
def asList (m : Model) (l : Label) (C : Content) : Result (List Document) :=
  match C with
  | list items => .ok items
  | map _ => .error (.typeMismatch ShapeType.list.keyword ShapeType.map.keyword)
  | scalar _ => .error (.notAContainer ((C.document l).shapeType m))

/-- The number of keys or of elements. -/
def size (m : Model) (l : Label) (C : Content) : Result Nat :=
  match C with
  | list items => .ok items.length
  | map M => .ok M.keys.length
  | scalar _ => .error (.notAContainer ((C.document l).shapeType m))

/-- What is wrong with a place in a list. -/
def outside? (items : List Document) (index : Nat) : Option Error :=
  if items.length ≤ index then some (.indexOutOfBounds index items.length) else none

/-- What is wrong with a call: the kind of container, or what is asked of it. -/
def refusal? (m : Model) (l : Label) (C : Content) (c : Change) : Option Error :=
  match c with
  | .withEntry key value => inMap fun _ => m.entryRefusal? l.schema key value
  | .withoutEntry _ => inMap fun _ => m.removalRefusal? l.schema
  | .withElement index _ => inList fun items => outside? items index
  | .withAppended _ => inList fun _ => none
  | .withoutElement index => inList fun items => outside? items index
where
  /-- What is wrong with a map, if it is one. -/
  inMap (refusal? : OrderedMap Document → Option Error) : Option Error :=
    match C.asMap m l with
    | .ok M => refusal? M
    | .error e => some e
  /-- What is wrong with a list, if it is one. -/
  inList (refusal? : List Document → Option Error) : Option Error :=
    match C.asList m l with
    | .ok items => refusal? items
    | .error e => some e

/-- What a call that is not refused makes of a content. A union has just the entry that was set. -/
def changed (m : Model) (S : SchemaRef) : Content → Change → Content
  | map M, .withEntry key value =>
    map (if m.typeOf S = .union then .single key value else M.put key value)
  | map M, .withoutEntry key => map (M.remove key)
  | list items, .withElement index value =>
    list (items.take index ++ value :: items.drop (index + 1))
  | list items, .withAppended value => list (items ++ [value])
  | list items, .withoutElement index => list (items.take index ++ items.drop (index + 1))
  | C, _ => C

/-- The content after a call. -/
def step (m : Model) (l : Label) (C : Content) (c : Change) : Content :=
  match C.refusal? m l c with
  | some _ => C
  | none => C.changed m l.schema c

/-- The content after a run of calls. -/
def after (m : Model) (l : Label) (C : Content) (cs : List Change) : Content :=
  cs.foldl (step m l) C

/-! ### Looking into a document -/

theorem label_document : (C.document l).label = l := by
  cases C with
  | scalar value => cases value <;> rfl
  | list items => rfl
  | map M => rfl

theorem entries_document : (C.document l).entries m = (C.asMap m l).map OrderedMap.entries := by
  cases C with
  | scalar value => cases value <;> rfl
  | list items => rfl
  | map M => rfl

theorem elements_document : (C.document l).elements m = C.asList m l := by
  cases C with
  | scalar value => cases value <;> rfl
  | list items => rfl
  | map M => rfl

/-- A document shows what a content holds. -/
structure Shows (m : Model) (l : Label) (C : Content) (d : Document) : Prop where
  get? : ∀ key, d.get? m key = (C.asMap m l).map (·.value key)
  containsKey : ∀ key, d.containsKey m key = (C.asMap m l).map fun M => decide (key ∈ M.keys)
  keys : d.keys m = (C.asMap m l).map (·.keys)
  getAt : ∀ index, d.getAt m index = C.asList m l >>= fun items =>
    match items[index]? with
    | some item => .ok item
    | none => .error (.indexOutOfBounds index items.length)
  length : d.length m = C.size m l

theorem shows_document : C.Shows m l (C.document l) where
  get? key := by
    rw [Document.get?, entries_document]
    cases C.asMap m l with
    | error e => rfl
    | ok M => exact congrArg Except.ok (M.find?_entries key)
  containsKey key := by
    rw [Document.containsKey, entries_document]
    cases C.asMap m l with
    | error e => rfl
    | ok M =>
        refine congrArg Except.ok (Bool.eq_iff_iff.mpr ?_)
        rw [Entries.contains_iff, M.keys_entries, decide_eq_true_iff]
  keys := by
    rw [Document.keys, entries_document]
    cases C.asMap m l with
    | error e => rfl
    | ok M => exact congrArg Except.ok M.keys_entries
  getAt index := by
    rw [Document.getAt, elements_document]
    rfl
  length := by
    cases C with
    | scalar value => cases value <;> rfl
    | list items => rfl
    | map M =>
        have hlength : M.entries.length = M.keys.length := by
          rw [← M.keys_entries, Entries.keys, List.length_map]
        exact congrArg Except.ok hlength

/-! ### Changing a document -/

/-- A union that is built of one entry is refused as the reference says. -/
theorem ofMembers_single {S : SchemaRef} (hf : m.typeOf S = .union) (key : String)
    (value : Document) : Document.ofMembers m S [(key, value)] =
      guarded (m.unionRefusal? S key value) (.map { schema := S } [(key, value)]) := by
  let there (member : SchemaRef) : Bool := m.memberName? member == some key && !value.isNull
  have hkeys : Document.checkKeys m S [key] = guarded (m.strange? S key) () :=
    Model.expectMember_guarded ()
  have hthere : ∀ member ∈ m.members S, ∀ name, m.memberName? member = some name →
      ((Entries.find? name [(key, value)]).any fun d => !d.isNull) = there member := by
    intro member _ name hname
    by_cases hkey : key = name
    · simp [there, Entries.find?, hname, hkey]
    · have hne : name ≠ key := fun h => hkey h.symm
      simp [there, Entries.find?, hname, hkey, hne]
  have hrequired := Model.checkRequired_eq hthere
  have hcount : Document.presentCount [(key, value)] = if value.isNull then 0 else 1 := by
    cases hnull : value.isNull <;> simp [Document.presentCount, hnull]
  unfold Document.ofMembers Model.unionRefusal?
  simp only [hf, hrequired, hcount, Entries.keys_cons, Entries.keys_nil, hkeys]
  cases m.strange? S key with
  | some e => rfl
  | none =>
      cases m.firstMissing? S there with
      | some member => rfl
      | none => cases value.isNull <;> rfl

theorem withEntry_map (M : OrderedMap Document) (key : String) (value : Document) :
    Document.withEntry m (.map l M.entries) key value =
      guarded (m.entryRefusal? l.schema key value)
        (((map M).changed m l.schema (.withEntry key value)).document l) := by
  by_cases hunion : m.typeOf l.schema = .union
  · rw [Document.withEntry_union hunion, ofMembers_single hunion, Model.entryRefusal?, hunion,
      changed, if_pos hunion, document, OrderedMap.entries_single]
    cases m.unionRefusal? l.schema key value <;> rfl
  · rw [changed, if_neg hunion, document, OrderedMap.entries_put]
    by_cases hstructure : m.typeOf l.schema = .structure
    · rw [Document.withEntry_structure hstructure, Model.entryRefusal?, hstructure,
        ← Model.expectMember_guarded]
      cases m.expectMember l.schema key <;> rfl
    · rw [Document.withEntry_other hunion hstructure, Model.entryRefusal?]
      split
      · contradiction
      · contradiction
      · rfl

theorem withoutEntry_map (M : OrderedMap Document) (key : String) :
    Document.withoutEntry m (.map l M.entries) key =
      guarded (m.removalRefusal? l.schema) (.map l (M.remove key).entries) := by
  rw [Document.withoutEntry_map, Model.removalRefusal?, M.entries_remove, Result.guarded_ite]

theorem withElement_list (items : List Document) (index : Nat) (value : Document) :
    Document.withElement m (.list l items) index value =
      guarded (outside? items index)
        (.list l (items.take index ++ value :: items.drop (index + 1))) := by
  have happly : Document.withElement m (.list l items) index value =
      guarded (outside? items index) (.list l (items.set index value)) := by
    rw [outside?, Result.guarded_ite]
    rfl
  rw [happly, outside?]
  by_cases hout : items.length ≤ index
  · rw [if_pos hout]
    rfl
  · rw [List.set_eq_take_append_cons_drop, if_pos (Nat.lt_of_not_le hout)]

theorem withoutElement_list (items : List Document) (index : Nat) :
    Document.withoutElement m (.list l items) index =
      guarded (outside? items index) (.list l (items.take index ++ items.drop (index + 1))) := by
  rw [outside?, ← List.eraseIdx_eq_take_drop_succ, Result.guarded_ite]
  rfl

/-- A call is refused as the reference says, and else makes of the document what the reference is. -/
theorem apply_document (c : Change) :
    c.apply m (C.document l) =
      guarded (C.refusal? m l c) ((C.changed m l.schema c).document l) := by
  cases c with
  | withEntry key value =>
      cases C with
      | scalar value => cases value <;> rfl
      | list items => rfl
      | map M => exact withEntry_map M key value
  | withoutEntry key =>
      cases C with
      | scalar value => cases value <;> rfl
      | list items => rfl
      | map M => exact withoutEntry_map M key
  | withElement index value =>
      cases C with
      | scalar value => cases value <;> rfl
      | list items => exact withElement_list items index value
      | map M => rfl
  | withAppended value =>
      cases C with
      | scalar value => cases value <;> rfl
      | list items => rfl
      | map M => rfl
  | withoutElement index =>
      cases C with
      | scalar value => cases value <;> rfl
      | list items => exact withoutElement_list items index
      | map M => rfl

/-- So one step of the document is one step of the reference. -/
theorem step_document (c : Change) : c.step m (C.document l) = (C.step m l c).document l := by
  have happly := apply_document (m := m) (l := l) (C := C) c
  rw [step]
  cases hrefusal : C.refusal? m l c with
  | some e =>
      rw [hrefusal] at happly
      exact Change.step_of_error happly
  | none =>
      rw [hrefusal] at happly
      exact Change.step_of_ok happly

theorem after_document (cs : List Change) :
    (C.document l).after m cs = (C.after m l cs).document l := by
  induction cs generalizing C with
  | nil => rfl
  | cons c cs ih =>
      show (c.step m (C.document l)).after m cs = ((C.step m l c).after m l cs).document l
      rw [step_document, ih]

/-! ### Documents and their contents -/

/-- A document has a label and holds a content, shows it, and refuses the same calls. -/
structure Mirrors (m : Model) (l : Label) (C : Content) (d : Document) : Prop where
  label : d.label = l
  document : d = C.document l
  shows : C.Shows m l d
  refuses : ∀ c e, c.apply m d = .error e ↔ C.refusal? m l c = some e

theorem mirrors_document : C.Mirrors m l (C.document l) where
  label := label_document
  document := rfl
  shows := shows_document
  refuses c e := by rw [apply_document, Result.guarded_eq_error]

/-- Whatever has distinct keys holds a content. -/
theorem exists_document {d : Document} (h : ∀ es, d.asMap = .ok es → (Entries.keys es).Nodup) :
    ∃ C : Content, d = C.document d.label := by
  cases d with
  | null l => exact ⟨.scalar none, rfl⟩
  | leaf l s => exact ⟨.scalar (some s), rfl⟩
  | list l items => exact ⟨.list items, rfl⟩
  | map l es =>
      have hn : (Entries.keys es).Nodup := h es rfl
      refine ⟨.map (.ofEntries es hn), ?_⟩
      rw [document, OrderedMap.entries_ofEntries]
      rfl

end Content

/--
A document with distinct keys holds a map, a list or a scalar, and goes on to do so in step with
the reference, whatever it is changed by: its label stays, its entries or elements are those of the
reference, they are found by key and by place as there, and calls fail with the same errors.
-/
theorem changes_follow_reference (m : Model) {d : Document}
    (h : ∀ es, d.asMap = .ok es → (Entries.keys es).Nodup) :
    ∃ C : Content, d = C.document d.label ∧
      ∀ cs, (C.after m d.label cs).Mirrors m d.label (d.after m cs) := by
  obtain ⟨C, hC⟩ := Content.exists_document h
  refine ⟨C, hC, fun cs => ?_⟩
  have hafter : d.after m cs = (C.after m d.label cs).document d.label := by
    conv_lhs => rw [hC]
    exact Content.after_document cs
  rw [hafter]
  exact Content.mirrors_document

namespace Gallery

/-- A union that stands for another type. -/
def chosen : Document :=
  .map { schema := schema model "t#Choice", discriminator := some ⟨"t#Other"⟩ }
    [("text", Document.ofString "gear")]

theorem changes_follow_reference_chosen :
    (∀ es, chosen.asMap = .ok es → (Entries.keys es).Nodup) ∧
      ∃ C : Content, chosen = C.document chosen.label ∧
        ∀ cs, (C.after model chosen.label cs).Mirrors model chosen.label
          (chosen.after model cs) := by
  have hkeys : ∀ es, chosen.asMap = .ok es → (Entries.keys es).Nodup := by
    intro es hes
    obtain rfl := Except.ok.inj hes
    decide
  exact ⟨hkeys, changes_follow_reference model hkeys⟩

end Gallery
end ShapeCodec
