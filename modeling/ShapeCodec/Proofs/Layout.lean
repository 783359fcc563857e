import Mathlib.Data.List.Nodup
import ShapeCodec.Gallery.Shapes
import ShapeCodec.Proofs.Members
import ShapeCodec.Schema.Registry

/-!
# Laid out schemas

Every way of checking members leaves a model whose shapes are laid out: checked building, filling
in placeholders, and registries. What later proofs need of a schema is that everything it reaches
through members is laid out, and that holds of every schema of such a model, recursive or not.
-/

namespace ShapeCodec

/-- The names that the members of a shape of a type can have. -/
def ShapeType.allows (type : ShapeType) (names : List String) : Prop :=
  match type with
  | .list => names = ["member"]
  | .map => names = ["key", "value"]
  | .structure | .union => names.Nodup
  | _ => names = []

instance (type : ShapeType) (names : List String) : Decidable (type.allows names) := by
  unfold ShapeType.allows
  split <;> infer_instance

theorem ShapeType.allows.nodup {type : ShapeType} {names : List String} (h : type.allows names) :
    names.Nodup := by
  unfold ShapeType.allows at h
  split at h
  · simp [h]
  · simp [h]
  · exact h
  · exact h
  · simp [h]

theorem ShapeType.form_eq_structure {type : ShapeType} :
    type.form = .structure ↔ type = .structure := by
  cases type <;> simp [form]

theorem ShapeType.form_eq_union {type : ShapeType} : type.form = .union ↔ type = .union := by
  cases type <;> simp [form]

theorem ShapeType.form_eq_document {type : ShapeType} :
    type.form = .document ↔ type = .document := by
  cases type <;> simp [form]

theorem ScalarType.form_shapeType (type : ScalarType) : type.shapeType.form = .scalar type := by
  cases type with
  | integer width => cases width <;> rfl
  | _ => rfl

theorem ScalarType.shapeType_ne_document (type : ScalarType) : type.shapeType ≠ .document := by
  intro h
  have hform := type.form_shapeType
  rw [h] at hform
  cases hform

theorem ShapeType.isStructureLike_iff {type : ShapeType} :
    type.isStructureLike = true ↔ type.form = .structure ∨ type.form = .union := by
  cases type <;> simp [isStructureLike, form]

/-- The members of a shape, once they are filled in, fit its type. -/
def Shape.LaidOut (s : Shape) : Prop :=
  ∀ members, s.members = some members → s.type.allows (members.map Member.name)

theorem PreludeShape.laidOut (p : PreludeShape) : p.shape.LaidOut := by
  rintro members ⟨⟩
  cases p with
  | scalar type => cases type with
    | integer width => cases width <;> rfl
    | _ => rfl
  | unit => exact List.nodup_nil
  | _ => rfl

/-- Nothing is repeated exactly if all are different from each other and from those seen before. -/
theorem firstRepeated?_eq_none_iff {α : Type} [BEq α] [LawfulBEq α] {seen xs : List α}
    (hs : seen.Nodup) : firstRepeated? seen xs = none ↔ (seen ++ xs).Nodup := by
  induction xs generalizing seen with
  | nil => simpa [firstRepeated?] using hs
  | cons x xs ih =>
      rw [firstRepeated?]
      by_cases hx : x ∈ seen
      · have hrepeated : ¬(seen ++ x :: xs).Nodup := fun hn =>
          (List.nodup_append.mp hn).2.2 x hx x (List.mem_cons_self ..) rfl
        simp [hx, hrepeated]
      · have hs' : (seen ++ [x]).Nodup := List.nodup_append.mpr ⟨hs, by simp, by
          intro a ha b hb
          obtain rfl := List.mem_singleton.mp hb
          exact fun he => hx (he ▸ ha)⟩
        rw [if_neg (by simpa using hx), ih hs', List.append_assoc, List.singleton_append]

namespace Model

variable {m : Model}

/-! ### What a schema reaches -/

/-- The schemas met from a schema on by going to members, whose targets may lead back. -/
inductive Reaches (m : Model) : SchemaRef → SchemaRef → Prop
  | refl (s : SchemaRef) : Reaches m s s
  | step {s t u : SchemaRef} : t ∈ m.members s → Reaches m t u → Reaches m s u

/-- A property holds of a schema and of all that it reaches. -/
def Everywhere (m : Model) (P : SchemaRef → Prop) (s : SchemaRef) : Prop :=
  ∀ t, m.Reaches s t → P t

theorem Everywhere.here {P : SchemaRef → Prop} {s : SchemaRef} (h : m.Everywhere P s) : P s :=
  h s (.refl s)

theorem Everywhere.member {P : SchemaRef → Prop} {s t : SchemaRef} (h : m.Everywhere P s)
    (ht : t ∈ m.members s) : m.Everywhere P t :=
  fun u hu => h u (.step ht hu)

theorem Everywhere.reached {P : SchemaRef → Prop} {s t : SchemaRef} (h : m.Everywhere P s)
    (ht : m.Reaches s t) : m.Everywhere P t := by
  induction ht with
  | refl => exact h
  | step hm _ ih => exact ih (h.member hm)

/-- What holds of some schemas, between them with all their members, holds wherever they lead. -/
theorem everywhere_of_closed {P : SchemaRef → Prop} {schemas : List SchemaRef} {s : SchemaRef}
    (hm : ∀ t ∈ schemas, ∀ member ∈ m.members t, member ∈ schemas) (hP : ∀ t ∈ schemas, P t)
    (hs : s ∈ schemas) : m.Everywhere P s := by
  intro t ht
  induction ht with
  | refl => exact hP _ hs
  | step hmember _ ih => exact ih (hm _ hs _ hmember)

/-- The shapes whose members a schema shows, here and further on, are laid out. -/
def LaidOut (m : Model) : SchemaRef → Prop :=
  m.Everywhere fun t => ∀ key, m.table? t = some key → (m.shape key).LaidOut

theorem LaidOut.names_nodup {s : SchemaRef} (h : m.LaidOut s) :
    ((m.declarations s).map Member.name).Nodup := by
  rw [declarations]
  cases ht : m.table? s with
  | none => exact List.nodup_nil
  | some key =>
      cases hm : (m.shape key).members with
      | none => simp [Shape.memberList, hm]
      | some members => simpa [Shape.memberList, hm] using (h.here key ht members hm).nodup

/-- No two members of a structure or union that a schema reaches have the same name. -/
def DistinctNames (m : Model) : SchemaRef → Prop :=
  m.Everywhere fun t => (m.typeOf t).isStructureLike = true →
    ((m.declarations t).map Member.name).Nodup

theorem LaidOut.distinctNames {s : SchemaRef} (h : m.LaidOut s) : m.DistinctNames s :=
  fun _ ht _ => LaidOut.names_nodup (h.reached ht)

/-! ### Checks -/

/-- Members that pass the check fit the type. -/
theorem allows_of_layoutFault? {type : ShapeType} {members : List Member}
    (h : m.layoutFault? type members = none) : type.allows (members.map Member.name) := by
  unfold layoutFault? at h
  split at h
  · split at h
    · rfl
    · simp at h
  · split at h
    · rfl
    · simp at h
  · exact (firstRepeated?_eq_none_iff List.nodup_nil).mp (by simpa using h)
  · exact (firstRepeated?_eq_none_iff List.nodup_nil).mp (by simpa using h)
  · have : members = [] := by simpa using h
    subst this
    unfold ShapeType.allows
    split <;> simp_all

theorem keyFault?_eq_none_iff {schema : SchemaRef} :
    m.keyFault? (.resolved schema) = none ↔
      m.typeOf schema = .string ∨ m.typeOf schema = .enum := by
  simp only [keyFault?]
  cases m.typeOf schema <;> simp

/-- Members pass the check exactly if they fit the type and the keys of a map are texts. -/
theorem layoutFault?_eq_none_iff {type : ShapeType} {members : List Member} :
    m.layoutFault? type members = none ↔ type.allows (members.map Member.name) ∧
      (type = .map → ∀ key ∈ members.head?, m.keyFault? key.target = none) := by
  constructor
  · refine fun h => ⟨allows_of_layoutFault? h, ?_⟩
    rintro rfl key hkey
    simp only [layoutFault?] at h
    split at h
    · obtain rfl := Option.some.inj hkey
      exact h
    · simp at h
  · rintro ⟨ha, hk⟩
    cases type with
    | list =>
        obtain ⟨d, rfl, hd⟩ := List.map_eq_singleton_iff.mp ha
        obtain ⟨name, target, traits⟩ := d
        obtain rfl : name = "member" := hd
        rfl
    | map =>
        obtain ⟨key, rest, rfl, hkey, hrest⟩ := List.map_eq_cons_iff.mp ha
        obtain ⟨value, rfl, hvalue⟩ := List.map_eq_singleton_iff.mp hrest
        obtain ⟨name, target, traits⟩ := key
        obtain ⟨name', target', traits'⟩ := value
        obtain rfl : name = "key" := hkey
        obtain rfl : name' = "value" := hvalue
        exact hk rfl _ rfl
    | «structure» | union =>
        exact Option.map_eq_none_iff.mpr ((firstRepeated?_eq_none_iff List.nodup_nil).mpr ha)
    | _ =>
        have hnil : members = [] := List.map_eq_nil_iff.mp ha
        simp [layoutFault?, hnil]

/-- Of a model, the check only sees what is wrong with the targets of keys. -/
theorem layoutFault?_congr {m' : Model} {type : ShapeType} {members : List Member}
    (h : ∀ d ∈ members, m.keyFault? d.target = m'.keyFault? d.target) :
    m.layoutFault? type members = m'.layoutFault? type members := by
  cases type with
  | map =>
      simp only [layoutFault?]
      split
      · exact h _ (List.mem_cons_self ..)
      · rfl
  | _ => rfl

theorem allows_of_checkLayout {id : ShapeId} {type : ShapeType} {members : List Member}
    (h : m.checkLayout id type members = .ok ()) : type.allows (members.map Member.name) := by
  unfold checkLayout at h
  split at h
  · exact allows_of_layoutFault? ‹_›
  · simp at h

/-! ### Checked models -/

/-- Every shape declared in a model is laid out. -/
def AllLaidOut (m : Model) : Prop :=
  ∀ s ∈ m.shapes, s.LaidOut

theorem allLaidOut_iff : m.AllLaidOut ↔ ∀ s ∈ m.shapes.toList,
    s.members.all (fun members => s.type.allows (members.map Member.name)) = true := by
  -- placeholders have no members yet, which is no fault
  simp only [AllLaidOut, Shape.LaidOut, Array.mem_toList_iff]
  refine forall₂_congr fun s _ => ?_
  cases s.members <;> simp

instance (m : Model) : Decidable m.AllLaidOut :=
  decidable_of_iff' _ allLaidOut_iff

/-- What holds of the shapes of the prelude and of all declared shapes holds of every shape. -/
theorem forall_shape {P : Shape → Prop} (hp : ∀ p : PreludeShape, P p.shape)
    (hd : ∀ s ∈ m.shapes, P s) (key : ShapeKey) : P (m.shape key) := by
  cases key with
  | prelude p => exact hp p
  | declared i =>
      -- a key without a shape shows the document of the prelude
      by_cases hi : i < m.shapes.size
      · simpa [Model.shape, hi] using hd _ (Array.getElem_mem hi)
      · simpa [Model.shape, hi] using hp .document

theorem AllLaidOut.shape (h : m.AllLaidOut) (key : ShapeKey) : (m.shape key).LaidOut :=
  forall_shape PreludeShape.laidOut h key

/-- In a checked model every schema is laid out. -/
theorem AllLaidOut.laidOut (h : m.AllLaidOut) (s : SchemaRef) : m.LaidOut s :=
  fun _ _ key _ => h.shape key

theorem AllLaidOut.empty : ({} : Model).AllLaidOut := by
  intro s hs
  simp at hs

theorem AllLaidOut.declare {shape : Shape} (h : m.AllLaidOut) (hs : shape.LaidOut) :
    (m.declare shape).2.AllLaidOut := by
  intro s hm
  rcases Array.mem_push.mp hm with hm | rfl
  · exact h s hm
  · exact hs

theorem AllLaidOut.declarePlaceholder {id : ShapeId} {type : ShapeType} {traits : Traits}
    (h : m.AllLaidOut) : (m.declarePlaceholder id type traits).2.AllLaidOut :=
  h.declare fun members hm => by simp at hm

theorem AllLaidOut.buildChecked {id : ShapeId} {type : ShapeType} {traits : Traits}
    {members : List Member} {r : SchemaRef × Model} (h : m.AllLaidOut)
    (hb : m.buildChecked id type traits members = .ok r) : r.2.AllLaidOut := by
  obtain ⟨_, hc, hb⟩ := Result.bind_eq_ok.mp hb
  obtain rfl : m.build id type traits members = r := by simpa using hb
  refine h.declare fun ms hm => ?_
  obtain rfl : members = ms := by simpa using hm
  exact allows_of_checkLayout hc

theorem AllLaidOut.finalize {schema : SchemaRef} {members : List Member} {m' : Model}
    (h : m.AllLaidOut) (hf : m.finalize schema members = .ok m') : m'.AllLaidOut := by
  cases schema with
  | member key i => simp [Model.finalize] at hf
  | shape key =>
      obtain ⟨_, hc, hf⟩ := Result.bind_eq_ok.mp hf
      split at hf
      · obtain rfl := Except.ok.inj hf
        -- only the shape that is filled in changes, and it has just been checked
        intro s hs
        rcases Array.mem_or_eq_of_mem_setIfInBounds hs with hs | rfl
        · exact h s hs
        · intro ms hm
          obtain rfl : members = ms := by simpa using hm
          exact allows_of_checkLayout hc
      · simp at hf

private theorem AllLaidOut.finalizeAll {declared : Entries SchemaRef} {shapes : List PendingShape}
    {m' : Model} (h : m.AllLaidOut)
    (hf : RegistryBuilder.finalizeAll declared m shapes = .ok m') : m'.AllLaidOut := by
  induction shapes generalizing m with
  | nil =>
      obtain rfl : m = m' := by simpa [RegistryBuilder.finalizeAll] using hf
      exact h
  | cons s rest ih =>
      obtain ⟨_, -, hf⟩ := Result.bind_eq_ok.mp hf
      obtain ⟨_, -, hf⟩ := Result.bind_eq_ok.mp hf
      obtain ⟨m₁, hs, hf⟩ := Result.bind_eq_ok.mp hf
      exact ih (h.finalize hs) hf

/-- A registry that can be built adds laid out shapes only. -/
theorem AllLaidOut.registry {b : RegistryBuilder} {r : Model × Registry} (h : m.AllLaidOut)
    (hb : b.build m = .ok r) : r.1.AllLaidOut := by
  unfold RegistryBuilder.build at hb
  split at hb
  · simp at hb
  · obtain ⟨m₁, hf, hb⟩ := Result.bind_eq_ok.mp hb
    obtain rfl := Except.ok.inj hb
    refine AllLaidOut.finalizeAll ?_ hf
    intro s hs
    rcases Array.mem_append.mp hs with hs | hs
    · exact h s hs
    · obtain ⟨p, -, rfl⟩ := List.mem_map.mp (List.mem_toArray.mp hs)
      intro members hm
      simp at hm

end Model

/-- The shapes of the gallery, which are declared without a check, would pass it. -/
theorem Gallery.allLaidOut : Gallery.model.AllLaidOut := by
  decide

end ShapeCodec
