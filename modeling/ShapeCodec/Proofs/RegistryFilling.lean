import ShapeCodec.Proofs.Entries
import ShapeCodec.Proofs.Layout
import ShapeCodec.Proofs.RegistryCalls
import ShapeCodec.Proofs.Result

/-!
# Filling in declared shapes

All shapes are declared before any of their members is looked up. They are then filled in one after
the other, up to the first whose targets are not there or whose members do not fit, so whether a
registry can be built is told from the calls that collected it.
-/

namespace ShapeCodec.RegistryBuilder

variable {calls : List RegistryCall} {call : RegistryCall}

/-! ### Filling in -/

/-- A shape whose members have not been filled in. -/
def placeholder (s : PendingShape) : Shape :=
  { id := s.id, type := s.type, traits := s.traits }

/-- What a target id stands for, if it stands for anything. -/
def target (declared : Entries SchemaRef) (id : ShapeId) : SchemaRef :=
  match declared.find? id.text with
  | some schema => schema
  | none => ((PreludeShape.lookup? id).map .prelude).getD default

/-- A member with its target. -/
def resolved (declared : Entries SchemaRef) (p : PendingMember) : Member :=
  { name := p.name, target := .resolved (target declared p.target), traits := p.traits }

/-- A shape with its members. -/
def filled (declared : Entries SchemaRef) (s : PendingShape) : Shape :=
  { id := s.id, type := s.type, traits := s.traits,
    members := some (s.members.map (resolved declared)) }

/-- Whether a target id stands for a declared shape or a shape of the prelude. -/
def isTarget (declared : Entries SchemaRef) (id : ShapeId) : Bool :=
  declared.contains id.text || (PreludeShape.lookup? id).isSome

/-- What is wrong with a shape: the first target that is not there, or else the layout. -/
def fault? (declared : Entries SchemaRef) (m : Model) (s : PendingShape) : Option Error :=
  match s.members.find? fun p => !isTarget declared p.target with
  | some p => some (.unknownType p.target)
  | none => (m.layoutFault? s.type (s.members.map (resolved declared))).map fun fault =>
      .invalidSchema s!"{s.type.keyword} {s.id.text} {fault}"

variable {declared : Entries SchemaRef} {m m' : Model}

theorem resolveTarget_eq (declared : Entries SchemaRef) (id : ShapeId) :
    resolveTarget declared id =
      if isTarget declared id then .ok (target declared id) else .error (.unknownType id) := by
  unfold resolveTarget isTarget target Entries.contains
  cases declared.find? id.text with
  | some schema => rfl
  | none => cases PreludeShape.lookup? id <;> rfl

theorem resolveMember_eq (declared : Entries SchemaRef) (p : PendingMember) :
    resolveMember declared p =
      if isTarget declared p.target then .ok (resolved declared p)
      else .error (.unknownType p.target) := by
  rw [resolveMember, resolveTarget_eq]
  split <;> rfl

theorem mapM_resolveMember (declared : Entries SchemaRef) (ps : List PendingMember) :
    ps.mapM (resolveMember declared) =
      match ps.find? fun p => !isTarget declared p.target with
      | some p => .error (.unknownType p.target)
      | none => .ok (ps.map (resolved declared)) := by
  induction ps with
  | nil => rfl
  | cons p ps ih =>
      rw [List.mapM_cons, resolveMember_eq, ih]
      cases ht : isTarget declared p.target with
      | true =>
          simp only [if_true, Result.ok_bind, List.find?_cons, ht, Bool.not_true]
          cases ps.find? fun p => !isTarget declared p.target <;> rfl
      | false => simp [ht]

/-- Types are all that a layout is judged by, apart from the members themselves. -/
def SameTypes (m m' : Model) : Prop :=
  ∀ key, (m.shape key).type = (m'.shape key).type

theorem sameTypes_of_map {shapes shapes' : Array Shape} {names names' : Entries SchemaRef}
    (h : shapes.map Shape.type = shapes'.map Shape.type) :
    SameTypes ⟨shapes, names⟩ ⟨shapes', names'⟩ := by
  intro key
  cases key with
  | prelude p => rfl
  | declared i =>
      have hi : shapes[i]?.map Shape.type = shapes'[i]?.map Shape.type := by
        rw [← Array.getElem?_map, ← Array.getElem?_map, h]
      simp only [Model.shape, Array.getD_eq_getD_getElem?]
      cases hs : shapes[i]? <;> cases hs' : shapes'[i]? <;> simp_all

/-- Targets that have been looked up are shapes. -/
def ShapesOnly (declared : Entries SchemaRef) : Prop :=
  ∀ e ∈ declared, ∃ key, e.2 = .shape key

theorem ShapesOnly.target (h : ShapesOnly declared) (id : ShapeId) :
    ∃ key, target declared id = .shape key := by
  unfold RegistryBuilder.target
  cases hf : declared.find? id.text with
  | some schema => exact h _ (Entries.mem_of_find? hf)
  | none => cases PreludeShape.lookup? id <;> exact ⟨_, rfl⟩

theorem SameTypes.layoutFault? (h : SameTypes m m') (hd : ShapesOnly declared) (type : ShapeType)
    (ps : List PendingMember) :
    m.layoutFault? type (ps.map (resolved declared)) =
      m'.layoutFault? type (ps.map (resolved declared)) := by
  refine Model.layoutFault?_congr (List.forall_mem_map.mpr fun p _ => ?_)
  obtain ⟨key, hk⟩ := hd.target p.target
  simp [Model.keyFault?, resolved, hk, Model.typeOf, h key]

theorem SameTypes.fault? (h : SameTypes m m') (hd : ShapesOnly declared) (s : PendingShape) :
    fault? declared m s = fault? declared m' s := by
  simp only [RegistryBuilder.fault?, h.layoutFault? hd]

/-- A placeholder is filled in where it stands, unless something is wrong with its shape. -/
theorem finalizeAll_cons {before : List Shape} {s : PendingShape} {rest : List PendingShape}
    (hm : m.shapes = (before ++ (s :: rest).map placeholder).toArray)
    (hs : resolveTarget declared s.id = .ok (.shape (.declared before.length))) :
    finalizeAll declared m (s :: rest) =
      match fault? declared m s with
      | some e => .error e
      | none => finalizeAll declared
          { m with
            shapes := (before ++ filled declared s :: rest.map placeholder).toArray } rest := by
  have hshape : m.shape (.declared before.length) = placeholder s := by
    simp [Model.shape, hm]
  rw [finalizeAll, mapM_resolveMember, fault?]
  cases s.members.find? fun p => !isTarget declared p.target with
  | some p => rfl
  | none =>
      simp only [hs, Result.ok_bind, Model.finalize, hshape, Model.checkLayout]
      cases hf : m.layoutFault? s.type (s.members.map (resolved declared)) with
      | some fault => simp [placeholder, hf]
      | none => simp [placeholder, hf, hm, filled]

/-- Shapes are filled in one after the other, up to the first with which something is wrong. -/
theorem finalizeAll_eq (hd : ShapesOnly declared) {shapes : List PendingShape}
    (before : List Shape) (hm : m.shapes = (before ++ shapes.map placeholder).toArray)
    (hs : ∀ i s, shapes[i]? = some s →
      resolveTarget declared s.id = .ok (.shape (.declared (before.length + i)))) :
    finalizeAll declared m shapes =
      match shapes.findSome? (fault? declared m) with
      | some e => .error e
      | none => .ok { m with shapes := (before ++ shapes.map (filled declared)).toArray } := by
  induction shapes generalizing before m with
  | nil =>
      obtain ⟨shapes, names⟩ := m
      obtain rfl : shapes = before.toArray := by simpa using hm
      simp [finalizeAll]
  | cons s rest ih =>
      rw [finalizeAll_cons hm (hs 0 s rfl), List.findSome?_cons]
      cases hf : fault? declared m s with
      | some e => rfl
      | none =>
          -- the shape has the type that its placeholder had
          have htypes : SameTypes { m with
              shapes := (before ++ filled declared s :: rest.map placeholder).toArray } m := by
            obtain ⟨shapes, names⟩ := m
            obtain rfl : shapes = (before ++ (s :: rest).map placeholder).toArray := hm
            exact sameTypes_of_map (by simp [filled, placeholder])
          dsimp only
          rw [ih (before ++ [filled declared s]) (by simp) fun i t ht => by
            simpa [Nat.add_assoc, Nat.add_comm 1] using hs (i + 1) t (by simpa using ht),
            funext (htypes.fault? hd)]
          simp

/-! ### The schemas of declared ids -/

theorem keys_schemasFrom (n : Nat) (shapes : List PendingShape) :
    Entries.keys (schemasFrom n shapes) = shapes.map fun s => s.id.text := by
  induction shapes generalizing n with
  | nil => rfl
  | cons s rest ih => simp [schemasFrom, ih]

theorem getElem?_schemasFrom {n i : Nat} {shapes : List PendingShape} {s : PendingShape}
    (h : shapes[i]? = some s) :
    (schemasFrom n shapes)[i]? = some (s.id.text, .shape (.declared (n + i))) := by
  induction shapes generalizing n i with
  | nil => simp at h
  | cons t rest ih =>
      cases i with
      | zero =>
          obtain rfl : t = s := by simpa using h
          rfl
      | succ i => simpa [schemasFrom, Nat.add_assoc, Nat.add_comm 1] using ih (n := n + 1) h

theorem mem_schemasFrom {n : Nat} {shapes : List PendingShape} {e : String × SchemaRef}
    (h : e ∈ schemasFrom n shapes) :
    ∃ i s, shapes[i]? = some s ∧ e = (s.id.text, .shape (.declared (n + i))) := by
  have hlen : (schemasFrom n shapes).length = shapes.length := by
    simpa [Entries.keys] using congrArg List.length (keys_schemasFrom n shapes)
  obtain ⟨i, hi, rfl⟩ := List.mem_iff_getElem.mp h
  have hs : shapes[i]? = some shapes[i] := List.getElem?_eq_getElem (hlen ▸ hi)
  refine ⟨i, shapes[i], hs, ?_⟩
  simpa [hi] using getElem?_schemasFrom (n := n) hs

theorem shapesOnly_schemasFrom (n : Nat) (shapes : List PendingShape) :
    ShapesOnly (schemasFrom n shapes) := by
  intro e he
  obtain ⟨i, s, -, rfl⟩ := mem_schemasFrom he
  exact ⟨_, rfl⟩

theorem map_id_shapesOf (calls : List RegistryCall) :
    (shapesOf calls).map PendingShape.id = declaredIds calls :=
  map_id_shapesWith ..

theorem text_injective : Function.Injective ShapeId.text :=
  fun ⟨_⟩ ⟨_⟩ h => congrArg ShapeId.mk h

/-- The texts of the ids, which are the keys of the registry. -/
theorem keys_schemasFrom_shapesOf (n : Nat) (calls : List RegistryCall) :
    Entries.keys (schemasFrom n (shapesOf calls)) = (declaredIds calls).map ShapeId.text := by
  rw [keys_schemasFrom, ← map_id_shapesOf, List.map_map]
  rfl

theorem find?_schemasFrom {n i : Nat} {s : PendingShape} (hn : (declaredIds calls).Nodup)
    (h : (shapesOf calls)[i]? = some s) :
    Entries.find? s.id.text (schemasFrom n (shapesOf calls)) =
      some (.shape (.declared (n + i))) := by
  have hkeys : (Entries.keys (schemasFrom n (shapesOf calls))).Nodup := by
    rw [keys_schemasFrom_shapesOf]
    exact hn.map text_injective
  exact Entries.find?_of_mem hkeys (List.mem_of_getElem? (getElem?_schemasFrom h))

theorem isTarget_iff {n : Nat} {id : ShapeId} :
    isTarget (schemasFrom n (shapesOf calls)) id = true ↔
      id ∈ declaredIds calls ∨ (PreludeShape.lookup? id).isSome = true := by
  rw [isTarget, Bool.or_eq_true, Entries.contains_iff, keys_schemasFrom_shapesOf,
    List.mem_map_of_injective text_injective]

/-! ### Builds -/

/-- A model with the placeholders of all shapes that are declared. -/
def withPlaceholders (m : Model) (calls : List RegistryCall) : Model :=
  { m with shapes := m.shapes ++ ((shapesOf calls).map placeholder).toArray }

/-- What is built from calls if nothing is wrong. -/
def built (m : Model) (calls : List RegistryCall) : Model × Registry :=
  let declared := schemasFrom m.shapes.size (shapesOf calls)
  ({ m with shapes := m.shapes ++ ((shapesOf calls).map (filled declared)).toArray }, ⟨declared⟩)

/-- When nothing is wrong with the calls, the first shape with a fault is the error, if any is. -/
theorem build_of_clean (h : Clean calls) (m : Model) :
    (ofCalls calls).build m =
      match (shapesOf calls).findSome?
        (fault? (schemasFrom m.shapes.size (shapesOf calls)) (withPlaceholders m calls)) with
      | some e => .error e
      | none => .ok (built m calls) := by
  have hm : (withPlaceholders m calls).shapes =
      (m.shapes.toList ++ (shapesOf calls).map placeholder).toArray := by
    simp [withPlaceholders]
  have hfill := finalizeAll_eq (shapesOnly_schemasFrom m.shapes.size (shapesOf calls))
    m.shapes.toList hm fun i s hs => by
      simp [resolveTarget, find?_schemasFrom (clean_iff.mp h).1 hs]
  unfold build
  simp only [problems_of_clean h, shapes_of_clean h]
  change (finalizeAll _ (withPlaceholders m calls) _ >>= _) = _
  rw [hfill]
  cases (shapesOf calls).findSome? _ with
  | some e => rfl
  | none => simp [built, withPlaceholders]

theorem build_of_first {before after : List RegistryCall} {text : String} (hb : Clean before)
    (hc : problem? before call = some text) (m : Model) :
    (ofCalls (before ++ call :: after)).build m = .error (.invalidSchema text) := by
  obtain ⟨more, h⟩ := problems_of_first hb hc after
  rw [build, h]

/-! ### When a build succeeds -/

/-- The type of what a target id stands for. -/
def targetType? (calls : List RegistryCall) (id : ShapeId) : Option ShapeType :=
  match (shapesOf calls).find? (·.id == id) with
  | some s => some s.type
  | none => (PreludeShape.lookup? id).map PreludeShape.type

/-- The members of a shape have names that its type allows, and the keys of a map are texts. -/
def Fits (calls : List RegistryCall) (s : PendingShape) : Prop :=
  s.type.allows (s.members.map PendingMember.name) ∧
    (s.type = .map → ∀ key ∈ s.members.head?,
      targetType? calls key.target = some .string ∨ targetType? calls key.target = some .enum)

/-- Calls that a registry can be built from. -/
structure Buildable (calls : List RegistryCall) : Prop where
  once : (declaredIds calls).Nodup
  placed : Placed calls
  targets : ∀ container p, .member container p ∈ calls →
    p.target ∈ declaredIds calls ∨ (PreludeShape.lookup? p.target).isSome = true
  fits : ∀ s ∈ shapesOf calls, Fits calls s

theorem mem_shapesOf_iff {s : PendingShape} : s ∈ shapesOf calls ↔
    .declare s.id s.type s.traits ∈ calls ∧ s.members = membersOf calls s.id := by
  rw [shapesOf, shapesWith, List.mem_filterMap]
  constructor
  · rintro ⟨call, hc, h⟩
    cases call with
    | declare id type traits =>
        obtain rfl := Option.some.inj h
        exact ⟨hc, rfl⟩
    | member => simp at h
  · rintro ⟨hc, hm⟩
    exact ⟨_, hc, by simp only [← hm]⟩

theorem mem_membersOf_iff {id : ShapeId} {p : PendingMember} :
    p ∈ membersOf calls id ↔ .member id p ∈ calls := by
  rw [membersOf, List.mem_filterMap]
  constructor
  · rintro ⟨call, hc, h⟩
    cases call with
    | declare => simp at h
    | member container q =>
        obtain ⟨rfl, rfl⟩ : container = id ∧ q = p := by simpa using h
        exact hc
  · exact fun hc => ⟨_, hc, by simp⟩

/-- With members added after declarations only, the members of all shapes are all members. -/
theorem forall_mem_members_iff {P : PendingMember → Prop} (h : Placed calls) :
    (∀ s ∈ shapesOf calls, ∀ p ∈ s.members, P p) ↔
      ∀ container p, .member container p ∈ calls → P p := by
  constructor
  · intro hall container p hp
    obtain ⟨before, after, rfl⟩ := List.append_of_mem hp
    have hdeclared : container ∈ declaredIds (before ++ .member container p :: after) := by
      rw [declaredIds_append]
      exact List.mem_append_left _ (h before container p after rfl)
    rw [← map_id_shapesOf] at hdeclared
    obtain ⟨s, hs, rfl⟩ := List.mem_map.mp hdeclared
    refine hall s hs p ?_
    rw [(mem_shapesOf_iff.mp hs).2, mem_membersOf_iff]
    exact hp
  · intro hall s hs p hp
    rw [(mem_shapesOf_iff.mp hs).2, mem_membersOf_iff] at hp
    exact hall s.id p hp

/-- Shapes that are added find their places behind those that were there. -/
theorem shape_append {m : Model} {shapes : List Shape} {i : Nat} {shape : Shape}
    (h : shapes[i]? = some shape) :
    ({ m with shapes := m.shapes ++ shapes.toArray } : Model).shape
      (.declared (m.shapes.size + i)) = shape := by
  rw [Model.shape, Array.getD_eq_getD_getElem?, Array.getElem?_append_right (Nat.le_add_right ..)]
  simp [h]

theorem shape_withPlaceholders {m : Model} {i : Nat} {s : PendingShape}
    (h : (shapesOf calls)[i]? = some s) :
    (withPlaceholders m calls).shape (.declared (m.shapes.size + i)) = placeholder s :=
  shape_append (by simp [h])

/-- The type of a target is the declared one, or that of the shape of the prelude. -/
theorem typeOf_target (hn : (declaredIds calls).Nodup) (m : Model) {id : ShapeId}
    (ht : isTarget (schemasFrom m.shapes.size (shapesOf calls)) id = true) :
    targetType? calls id = some ((withPlaceholders m calls).typeOf
      (target (schemasFrom m.shapes.size (shapesOf calls)) id)) := by
  unfold targetType? target
  cases hf : (shapesOf calls).find? (·.id == id) with
  | some s =>
      obtain rfl : s.id = id := by simpa using List.find?_some hf
      obtain ⟨i, hi⟩ := List.mem_iff_getElem?.mp (List.mem_of_find?_eq_some hf)
      simp only [find?_schemasFrom hn hi, Model.typeOf, shape_withPlaceholders hi, placeholder]
  | none =>
      have hid : id ∉ declaredIds calls := by
        rw [← map_id_shapesOf, List.mem_map]
        rintro ⟨s, hs, rfl⟩
        simpa using List.find?_eq_none.mp hf s hs
      have hnone : Entries.find? id.text (schemasFrom m.shapes.size (shapesOf calls)) = none := by
        rwa [Entries.find?_eq_none_iff, keys_schemasFrom_shapesOf,
          List.mem_map_of_injective text_injective]
      obtain ⟨shape, hshape⟩ := Option.isSome_iff_exists.mp ((isTarget_iff.mp ht).resolve_left hid)
      simp only [hnone, hshape, Option.map_some, Option.getD_some]
      rfl

/-- Nothing is wrong with a shape whose targets are there and whose members fit. -/
theorem fault?_eq_none_iff (hn : (declaredIds calls).Nodup) (m : Model) (s : PendingShape) :
    fault? (schemasFrom m.shapes.size (shapesOf calls)) (withPlaceholders m calls) s = none ↔
      (∀ p ∈ s.members, p.target ∈ declaredIds calls ∨
        (PreludeShape.lookup? p.target).isSome = true) ∧ Fits calls s := by
  have htargets : (s.members.find? fun p =>
      !isTarget (schemasFrom m.shapes.size (shapesOf calls)) p.target) = none ↔
      ∀ p ∈ s.members, p.target ∈ declaredIds calls ∨
        (PreludeShape.lookup? p.target).isSome = true := by
    simp [List.find?_eq_none, isTarget_iff]
  rw [← htargets, fault?]
  cases hf : s.members.find? fun p =>
    !isTarget (schemasFrom m.shapes.size (shapesOf calls)) p.target with
  | some p => simp
  | none =>
      simp only [Option.map_eq_none_iff, true_and, Model.layoutFault?_eq_none_iff, Fits,
        List.map_map]
      refine and_congr Iff.rfl (imp_congr_right fun _ => ?_)
      rw [List.head?_map]
      cases hhead : s.members.head? with
      | none => simp
      | some key =>
          have hkey : isTarget (schemasFrom m.shapes.size (shapesOf calls)) key.target = true := by
            simpa using List.find?_eq_none.mp hf key (List.mem_of_mem_head? hhead)
          simp only [Option.map_some, Option.mem_some_iff, forall_eq', typeOf_target hn m hkey,
            resolved, Model.keyFault?_eq_none_iff, Option.some.injEq]

/-- A registry can be built exactly from calls of which none has anything wrong with it. -/
theorem exists_build_iff (m : Model) :
    (∃ r, (ofCalls calls).build m = .ok r) ↔ Buildable calls := by
  by_cases hc : Clean calls
  · obtain ⟨hn, hp⟩ := clean_iff.mp hc
    have hbuild : (∃ r, (ofCalls calls).build m = .ok r) ↔
        (shapesOf calls).findSome? (fault? (schemasFrom m.shapes.size (shapesOf calls))
          (withPlaceholders m calls)) = none := by
      rw [build_of_clean hc m]
      cases (shapesOf calls).findSome? _ <;> simp
    simp only [hbuild, List.findSome?_eq_none_iff, fault?_eq_none_iff hn]
    rw [forall₂_and, forall_mem_members_iff (P := fun p => p.target ∈ declaredIds calls ∨
      (PreludeShape.lookup? p.target).isSome = true) hp]
    exact ⟨fun ⟨ht, hf⟩ => ⟨hn, hp, ht, hf⟩, fun h => ⟨h.targets, h.fits⟩⟩
  · refine iff_of_false ?_ fun h => hc (clean_iff.mpr ⟨h.once, h.placed⟩)
    obtain ⟨before, call, after, text, rfl, hb, ht⟩ := exists_first_of_not_clean hc
    simp [build_of_first hb ht]

end ShapeCodec.RegistryBuilder
