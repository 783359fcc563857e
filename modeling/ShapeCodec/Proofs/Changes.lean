import ShapeCodec.Document.Update
import ShapeCodec.Proofs.Result

/-!
# Changes of documents

The calls that change a document, and what becomes of it under one after the other. A call that
fails leaves the document that there was.
-/

namespace ShapeCodec

/-- A call that makes a document from another one. -/
inductive Change where
  | withEntry (key : String) (value : Document)
  | withoutEntry (key : String)
  | withElement (index : Nat) (value : Document)
  | withAppended (value : Document)
  | withoutElement (index : Nat)

namespace Change

/-- What a call returns. -/
def apply (m : Model) (d : Document) : Change → Result Document
  | withEntry key value => d.withEntry m key value
  | withoutEntry key => d.withoutEntry m key
  | withElement index value => d.withElement m index value
  | withAppended value => d.withAppended m value
  | withoutElement index => d.withoutElement m index

/-- The document after a call. -/
def step (m : Model) (d : Document) (c : Change) : Document :=
  match c.apply m d with
  | .ok changed => changed
  | .error _ => d

variable {m : Model} {d changed : Document} {c : Change}

theorem step_of_ok (h : c.apply m d = .ok changed) : c.step m d = changed := by
  rw [step, h]

theorem step_of_error {e : Error} (h : c.apply m d = .error e) : c.step m d = d := by
  rw [step, h]

end Change

namespace Document

/-! ### Changing entries -/

section
variable {m : Model} {l : Label} {es : Entries Document}

theorem withEntry_union (h : m.typeOf l.schema = .union) (key : String) (value : Document) :
    withEntry m (.map l es) key value =
      (ofMembers m l.schema [(key, value)]).map fun changed =>
        changed.relabel { changed.label with discriminator := l.discriminator } := by
  have hentries : entries m (.map l es) = .ok es := rfl
  have hschema : schema (.map l es) = l.schema := rfl
  unfold withEntry
  simp only [hentries, Result.ok_bind, hschema, h]
  cases ofMembers m l.schema [(key, value)] <;> rfl

theorem withEntry_structure (h : m.typeOf l.schema = .structure) (key : String)
    (value : Document) : withEntry m (.map l es) key value =
      (m.expectMember l.schema key).map fun _ => .map l (es.insert key value) := by
  have hentries : entries m (.map l es) = .ok es := rfl
  have hschema : schema (.map l es) = l.schema := rfl
  unfold withEntry
  simp only [hentries, Result.ok_bind, hschema, h]
  cases m.expectMember l.schema key <;> rfl

theorem withEntry_other (hunion : m.typeOf l.schema ≠ .union)
    (hstructure : m.typeOf l.schema ≠ .structure) (key : String) (value : Document) :
    withEntry m (.map l es) key value = .ok (.map l (es.insert key value)) := by
  have hentries : entries m (.map l es) = .ok es := rfl
  have hschema : schema (.map l es) = l.schema := rfl
  unfold withEntry
  simp only [hentries, Result.ok_bind, hschema]
  rfl

theorem withoutEntry_map (key : String) : withoutEntry m (.map l es) key =
    if m.typeOf l.schema = .union then .error (.invalidUnionMutation (m.shapeId l.schema))
    else .ok (.map l (es.erase key)) := by
  show (if m.typeOf l.schema = .union then _ else _) = _
  by_cases h : m.typeOf l.schema = .union
  · rw [if_pos h, if_pos h]
    rfl
  · rw [if_neg h, if_neg h]
    rfl

end

/-! ### Runs -/

/-- The document after a run of calls. -/
def after (m : Model) (d : Document) (cs : List Change) : Document :=
  cs.foldl (Change.step m) d

end Document
end ShapeCodec
