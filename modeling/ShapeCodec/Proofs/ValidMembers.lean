import ShapeCodec.Gallery.Shapes
import ShapeCodec.Proofs.Changes
import ShapeCodec.Proofs.Conformance
import ShapeCodec.Proofs.Layout

/-!
# Structures and unions that change

A structure or union is only made of entries that its schema admits. Changing a union makes it anew,
so a union stays one. Changing a structure looks at the key alone: a key always names a member, but
a required member can be set to null or taken away, and the schema admits the entries again once
every such member has been given a value.
-/

namespace ShapeCodec

/-- Whether a key has a value other than null. -/
def Document.has (es : Entries Document) (key : String) : Bool :=
  (es.find? key).any fun d => !d.isNull

namespace Model

/-- What a structure or union demands of its entries. -/
structure Admits (m : Model) (S : SchemaRef) (es : Entries Document) : Prop where
  members : ∀ key ∈ es.keys, (m.member? S key).isSome = true
  required : ∀ member ∈ m.members S, (m.traits member).mustBePresent = true →
    ∀ name, m.memberName? member = some name → Document.has es name = true
  single : m.typeOf S = .union → Document.presentCount es = 1

variable {m : Model} {S : SchemaRef} {es : Entries Document}

/-- A structure or union is made of just the entries that its schema admits. -/
theorem ofMembers_eq_ok_iff {d : Document} : Document.ofMembers m S es = .ok d ↔
    (m.typeOf S).isStructureLike = true ∧ m.Admits S es ∧ d = .map { schema := S } es := by
  unfold Document.ofMembers
  dsimp only
  constructor
  · intro h
    split at h
    · cases h
    rename_i hlike
    obtain ⟨⟨⟩, hkeys, h⟩ := Result.bind_eq_ok.mp h
    obtain ⟨⟨⟩, hrequired, h⟩ := Result.bind_eq_ok.mp h
    split at h
    · cases h
    rename_i hcount
    refine ⟨by simpa using hlike, ⟨?_, ?_, fun hunion => ?_⟩, (Except.ok.inj h).symm⟩
    · exact Document.checkKeys_eq_ok.mp hkeys
    · exact Document.checkRequired_iff.mp hrequired
    · simpa [hunion] using hcount
  · rintro ⟨hlike, h, rfl⟩
    have hcount : ¬ (m.typeOf S = .union ∧ Document.presentCount es ≠ 1) :=
      fun hu => hu.2 (h.single hu.1)
    have hrequired := Document.checkRequired_iff.mpr h.required
    rw [if_neg (by simp [hlike]), Document.checkKeys_eq_ok.mpr h.members]
    simp only [Result.ok_bind]
    show (m.checkRequired S (Document.has es) >>= _) = _
    rw [hrequired]
    simp only [Result.ok_bind, if_neg hcount]
    rfl

end Model

/-! ### What becomes of one member -/

namespace Change

/-- Whether a call leaves a value other than null under a key, if it is about the key. -/
def leaves? (key : String) : Change → Option Bool
  | withEntry k value => if k = key then some (!value.isNull) else none
  | withoutEntry k => if k = key then some false else none
  | withElement .. | withAppended _ | withoutElement _ => none

/-- What the last call about a key leaves under it, if there is one. -/
def lastLeaves? (key : String) (cs : List Change) : Option Bool :=
  (cs.filterMap (leaves? key)).getLast?

theorem lastLeaves?_cons (key : String) (c : Change) (cs : List Change) :
    lastLeaves? key (c :: cs) = (lastLeaves? key cs).or (c.leaves? key) := by
  unfold lastLeaves?
  cases hc : c.leaves? key with
  | none => rw [List.filterMap_cons_none hc, Option.or_none]
  | some b =>
      rw [List.filterMap_cons_some hc, List.getLast?_cons]
      cases (cs.filterMap (leaves? key)).getLast? <;> rfl

end Change

namespace Document

variable {m : Model} {l : Label} {S : SchemaRef} {es : Entries Document}

theorem has_insert (key other : String) (value : Document) (es : Entries Document) :
    has (es.insert key value) other = if key = other then !value.isNull else has es other := by
  by_cases h : key = other
  · subst h
    rw [has, Entries.find?_insert_self, if_pos rfl, Option.any_some]
  · have hne : other ≠ key := fun he => h he.symm
    rw [has, Entries.find?_insert_of_ne hne, if_neg h, has]

theorem has_erase (hn : es.keys.Nodup) (key other : String) :
    has (es.erase key) other = if key = other then false else has es other := by
  by_cases h : key = other
  · subst h
    rw [has, Entries.find?_erase_self hn, if_pos rfl, Option.any_none]
  · have hne : other ≠ key := fun he => h he.symm
    rw [has, Entries.find?_erase_of_ne hne, if_neg h, has]

/-! ### Unions -/

/-- A change of a union is refused, or makes a union anew. -/
theorem step_union (hf : m.typeOf S = .union) (h : m.Admits S es) (c : Change) :
    ∃ es', c.step m (.map { schema := S } es) = .map { schema := S } es' ∧ m.Admits S es' := by
  cases happly : c.apply m (.map { schema := S } es) with
  | error e => exact ⟨es, Change.step_of_error happly, h⟩
  | ok changed =>
      rw [Change.step_of_ok happly]
      cases c with
      | withEntry key value =>
          have hmade : (ofMembers m S [(key, value)]).map _ = .ok changed :=
            (withEntry_union hf key value).symm.trans happly
          obtain ⟨d, hd, rfl⟩ := Result.map_eq_ok.mp hmade
          obtain ⟨-, hadmits, rfl⟩ := Model.ofMembers_eq_ok_iff.mp hd
          exact ⟨_, rfl, hadmits⟩
      | withoutEntry key =>
          have hrefused := (withoutEntry_map key).symm.trans happly
          rw [if_pos hf] at hrefused
          cases hrefused
      | withElement | withAppended | withoutElement => cases happly

theorem after_union (hf : m.typeOf S = .union) (h : m.Admits S es) (cs : List Change) :
    ∃ es', after m (.map { schema := S } es) cs = .map { schema := S } es' ∧ m.Admits S es' := by
  induction cs generalizing es with
  | nil => exact ⟨es, rfl, h⟩
  | cons c cs ih =>
      obtain ⟨es', hstep, hadmits⟩ := step_union hf h c
      obtain ⟨es'', hafter, hadmits⟩ := ih hadmits
      refine ⟨es'', ?_, hadmits⟩
      show after m (c.step m _) cs = _
      rw [hstep, hafter]

/-! ### Structures -/

/-- Entries under a structure: distinct keys, all of them names of members. -/
structure Keyed (m : Model) (S : SchemaRef) (es : Entries Document) : Prop where
  nodup : es.keys.Nodup
  members : ∀ key ∈ es.keys, (m.member? S key).isSome = true

/-- A change keeps to the members, and changes just the one it is about. -/
theorem step_structure (hf : m.typeOf S = .structure) (h : Keyed m S es) (c : Change) :
    ∃ es', c.step m (.map { schema := S } es) = .map { schema := S } es' ∧ Keyed m S es' ∧
      ∀ name, (m.member? S name).isSome = true →
        has es' name = (c.leaves? name).getD (has es name) := by
  cases c with
  | withEntry key value =>
      have happly : (Change.withEntry key value).apply m (.map { schema := S } es) =
          (m.expectMember S key).map fun _ => .map { schema := S } (es.insert key value) :=
        withEntry_structure hf key value
      cases hmember : m.member? S key with
      | none =>
          rw [Model.expectMember, hmember] at happly
          refine ⟨es, Change.step_of_error happly, h, fun name hname => ?_⟩
          have hne : key ≠ name := by
            rintro rfl
            simp [hmember] at hname
          rw [Change.leaves?, if_neg hne, Option.getD_none]
      | some member =>
          rw [Model.expectMember, hmember] at happly
          refine ⟨es.insert key value, Change.step_of_ok happly, ⟨?_, ?_⟩, fun name _ => ?_⟩
          · exact Entries.nodup_keys_insert h.nodup
          · intro other hother
            rcases Entries.mem_keys_insert.mp hother with hother | rfl
            · exact h.members other hother
            · rw [hmember]
              rfl
          · rw [has_insert, Change.leaves?]
            by_cases hkey : key = name
            · rw [if_pos hkey, if_pos hkey, Option.getD_some]
            · rw [if_neg hkey, if_neg hkey, Option.getD_none]
  | withoutEntry key =>
      have hne : m.typeOf S ≠ .union := by
        rw [hf]
        decide
      have happly : (Change.withoutEntry key).apply m (.map { schema := S } es) =
          .ok (.map { schema := S } (es.erase key)) :=
        (withoutEntry_map key).trans (if_neg hne)
      refine ⟨es.erase key, Change.step_of_ok happly, ⟨?_, ?_⟩, fun name _ => ?_⟩
      · exact Entries.nodup_keys_erase h.nodup
      · intro other hother
        rw [Entries.keys_erase] at hother
        exact h.members other (List.mem_of_mem_erase hother)
      · rw [has_erase h.nodup, Change.leaves?]
        by_cases hkey : key = name
        · rw [if_pos hkey, if_pos hkey, Option.getD_some]
        · rw [if_neg hkey, if_neg hkey, Option.getD_none]
  | withElement | withAppended | withoutElement => exact ⟨es, rfl, h, fun _ _ => rfl⟩

theorem after_structure (hf : m.typeOf S = .structure) (h : Keyed m S es) (cs : List Change) :
    ∃ es', after m (.map { schema := S } es) cs = .map { schema := S } es' ∧ Keyed m S es' ∧
      ∀ name, (m.member? S name).isSome = true →
        has es' name = (Change.lastLeaves? name cs).getD (has es name) := by
  induction cs generalizing es with
  | nil => exact ⟨es, rfl, h, fun _ _ => rfl⟩
  | cons c cs ih =>
      obtain ⟨es', hstep, hkeyed, hhas⟩ := step_structure hf h c
      obtain ⟨es'', hafter, hkeyed, hlast⟩ := ih hkeyed
      refine ⟨es'', ?_, hkeyed, fun name hname => ?_⟩
      · show after m (c.step m _) cs = _
        rw [hstep, hafter]
      · rw [hlast name hname, hhas name hname, Change.lastLeaves?_cons]
        cases Change.lastLeaves? name cs <;> rfl

/-- The required members of a structure, by name. -/
theorem admits_structure_iff {es' : Entries Document} (hf : m.typeOf S = .structure)
    (h : Keyed m S es') : m.Admits S es' ↔
      ∀ member ∈ m.members S, (m.traits member).mustBePresent = true →
        ∀ name, m.memberName? member = some name → has es' name = true := by
  refine ⟨fun hadmits => hadmits.required, fun hrequired => ⟨h.members, hrequired, fun hu => ?_⟩⟩
  rw [hf] at hu
  cases hu

end Document

/--
A document that is made as a structure or union keeps to the members of its schema, whatever it is
changed by. A union goes on to satisfy all that it was checked for. A structure does exactly if no
member that has to be present was set to null or taken away by the last call about it.
-/
theorem members_after_changes {m : Model} {S : SchemaRef} (hS : m.LaidOut S)
    {es : Entries Document} (hn : es.keys.Nodup) {d : Document}
    (hd : Document.ofMembers m S es = .ok d) (cs : List Change) :
    ∃ es', d.after m cs = .map { schema := S } es' ∧
      (∀ key ∈ Entries.keys es', (m.member? S key).isSome = true) ∧
      (m.Admits S es' ↔ Document.ofMembers m S es' = .ok (d.after m cs)) ∧
      (m.typeOf S = .union → m.Admits S es') ∧
      (m.typeOf S = .structure → (m.Admits S es' ↔
        ∀ member ∈ m.members S, (m.traits member).mustBePresent = true →
          ∀ name, m.memberName? member = some name →
            Change.lastLeaves? name cs ≠ some false)) := by
  obtain ⟨hlike, hadmits, rfl⟩ := Model.ofMembers_eq_ok_iff.mp hd
  have hmade (es' : Entries Document) (hafter : Document.after m (.map { schema := S } es) cs =
      .map { schema := S } es') : m.Admits S es' ↔
        Document.ofMembers m S es' = .ok (Document.after m (.map { schema := S } es) cs) := by
    rw [Model.ofMembers_eq_ok_iff, hafter]
    exact ⟨fun h => ⟨hlike, h, rfl⟩, fun h => h.2.1⟩
  -- what was there at first stays until a call is about it
  have hgetD (last : Option Bool) : last.getD true = true ↔ last ≠ some false := by
    rcases last with _ | _ | _ <;> simp
  rcases ShapeType.isStructureLike_iff.mp hlike with hf | hf
  · have hf := ShapeType.form_eq_structure.mp hf
    obtain ⟨es', hafter, hkeyed, hlast⟩ :=
      Document.after_structure hf ⟨hn, hadmits.members⟩ cs
    refine ⟨es', hafter, hkeyed.members, hmade es' hafter, fun hu => ?_, fun _ => ?_⟩
    · rw [hf] at hu
      cases hu
    · rw [Document.admits_structure_iff hf hkeyed]
      refine forall₂_congr fun member hmem => forall₃_congr fun hmust name hname => ?_
      have hfound := Model.member?_of_mem hS.names_nodup hmem hname
      rw [hlast name (by rw [hfound]; rfl), hadmits.required member hmem hmust name hname]
      exact hgetD _
  · have hf := ShapeType.form_eq_union.mp hf
    obtain ⟨es', hafter, hadmits'⟩ := Document.after_union hf hadmits cs
    refine ⟨es', hafter, hadmits'.members, hmade es' hafter, fun _ => hadmits', fun hs => ?_⟩
    rw [hf] at hs
    cases hs

namespace Gallery

/-- A structure with one member, which has to be present. -/
def gadgetShape : SchemaRef :=
  schema model "t#Gadget"

/-- A value for that member. -/
def serialNumber (n : Int) (h : IntWidth.long.fits n = true := by decide) : Document :=
  .ofScalar (.integer .long ⟨n, h⟩)

/-- A gadget of these entries. -/
def gadgetOf (es : Entries Document) : Document :=
  .map { schema := gadgetShape } es

/-- Where the serial number is taken away and set again, the gadget is one again. -/
theorem members_after_changes_gadget :
    (model.LaidOut gadgetShape ∧ (Entries.keys [("serial", serialNumber 5)]).Nodup ∧
      Document.ofMembers model gadgetShape [("serial", serialNumber 5)] =
        .ok (gadgetOf [("serial", serialNumber 5)])) ∧
    ∃ es, (gadgetOf [("serial", serialNumber 5)]).after model
        [.withoutEntry "serial", .withEntry "serial" (serialNumber 6)] = gadgetOf es ∧
      model.Admits gadgetShape es := by
  have hlaidOut : model.LaidOut gadgetShape := Model.AllLaidOut.laidOut allLaidOut gadgetShape
  have hkeys : (Entries.keys [("serial", serialNumber 5)]).Nodup := by decide
  have hmade : Document.ofMembers model gadgetShape [("serial", serialNumber 5)] =
      .ok (gadgetOf [("serial", serialNumber 5)]) := rfl
  obtain ⟨es, hafter, -, -, -, hadmits⟩ := members_after_changes hlaidOut hkeys hmade
    [.withoutEntry "serial", .withEntry "serial" (serialNumber 6)]
  refine ⟨⟨hlaidOut, hkeys, hmade⟩, es, hafter, (hadmits rfl).mpr ?_⟩
  intro member _ _ name _
  by_cases hname : "serial" = name
  · subst hname
    decide
  · simp [Change.lastLeaves?, Change.leaves?, hname]

/-- The schema does not admit what is left of a gadget whose serial number was taken away. -/
theorem gadget_without_serial :
    ∃ d, Document.ofMembers model gadgetShape [("serial", serialNumber 5)] = .ok d ∧
      d.after model [.withoutEntry "serial"] = gadgetOf [] ∧
      Document.ofMembers model gadgetShape [] =
        .error (.missingRequiredMember "serial" ⟨"t#Gadget"⟩) ∧
      ¬ model.Admits gadgetShape [] := by
  have hmissing : Document.ofMembers model gadgetShape [] =
      .error (.missingRequiredMember "serial" ⟨"t#Gadget"⟩) := rfl
  refine ⟨_, rfl, rfl, hmissing, fun h => ?_⟩
  have hmade := Model.ofMembers_eq_ok_iff.mpr ⟨rfl, h, rfl⟩
  rw [hmissing] at hmade
  cases hmade

end Gallery
end ShapeCodec
