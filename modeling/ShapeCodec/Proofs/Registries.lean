import ShapeCodec.Proofs.Members
import ShapeCodec.Proofs.RegistryFilling

/-!
# Building registries

What a registry and its model hold after a build: the declared shapes, in order, each with its own
members. Members lead on to shapes of the registry or of the prelude and nowhere else, in cycles
too, and the order in which declarations of different shapes are mixed makes no difference.
-/

namespace ShapeCodec.RegistryBuilder

variable {calls : List RegistryCall} {call : RegistryCall}

/-! ### What is in a registry -/

/-- What a registry and its model have of a shape that was declared. -/
structure Holds (r : Model × Registry) (s : PendingShape) (schema : SchemaRef) : Prop where
  found : r.2.get s.id = .ok schema
  finalized : r.1.isFinalized schema = true
  id : r.1.id schema = s.id
  type : r.1.typeOf schema = s.type
  traits : r.1.traits schema = s.traits
  length : (r.1.members schema).length = s.members.length
  /-- Members are where they were added, and lead to the registry if it has their target. -/
  member : ∀ j p, s.members[j]? = some p → ∃ member,
    r.1.memberAt? schema j = some member ∧ member.memberIndex? = some j ∧
    r.1.memberName? member = some p.name ∧ r.1.traits member = p.traits ∧
    ((∃ target, r.2.get p.target = .ok target ∧ r.1.target? member = some target) ∨
      r.2.contains p.target = false ∧ ∃ shape, PreludeShape.lookup? p.target = some shape ∧
        r.1.target? member = some (.prelude shape))

/-- The shape that describes a schema is in the registry or in the prelude. -/
def Within (r : Model × Registry) (schema : SchemaRef) : Prop :=
  r.1.described schema ∈ r.2.toList ∨ ∃ shape, r.1.described schema = .prelude shape

theorem shape_built {m : Model} {i : Nat} {s : PendingShape} (h : (shapesOf calls)[i]? = some s) :
    (built m calls).1.shape (.declared (m.shapes.size + i)) =
      filled (schemasFrom m.shapes.size (shapesOf calls)) s :=
  shape_append (by simp [h])

theorem eq_built (h : Buildable calls) {m : Model} {r : Model × Registry}
    (hr : (ofCalls calls).build m = .ok r) : r = built m calls := by
  rw [build_of_clean (clean_iff.mpr ⟨h.once, h.placed⟩)] at hr
  split at hr
  · cases hr
  · exact (Except.ok.inj hr).symm

theorem isTarget_of_mem (h : Buildable calls) (m : Model) {s : PendingShape} {p : PendingMember}
    (hs : s ∈ shapesOf calls) (hp : p ∈ s.members) :
    isTarget (schemasFrom m.shapes.size (shapesOf calls)) p.target = true := by
  rw [(mem_shapesOf_iff.mp hs).2, mem_membersOf_iff] at hp
  exact isTarget_iff.mpr (h.targets s.id p hp)

/-- A target is the schema that the registry has for it, or else a shape of the prelude. -/
theorem target_cases {r : Registry} {id : ShapeId} (h : isTarget r.schemas id = true) :
    (r.get id = .ok (target r.schemas id) ∧ target r.schemas id ∈ r.toList) ∨
      r.contains id = false ∧
        ∃ shape, PreludeShape.lookup? id = some shape ∧ target r.schemas id = .prelude shape := by
  simp only [isTarget, Entries.contains] at h
  simp only [Registry.get, Registry.contains, Entries.contains, target]
  cases hf : Entries.find? id.text r.schemas with
  | some schema => exact .inl ⟨rfl, List.mem_map_of_mem (Entries.mem_of_find? hf)⟩
  | none =>
      obtain ⟨shape, hshape⟩ := Option.isSome_iff_exists.mp (by simpa [hf] using h)
      exact .inr ⟨rfl, shape, hshape, by simp [hshape]⟩

section
variable {m : Model} {i : Nat} {s : PendingShape} (hs : (shapesOf calls)[i]? = some s)
include hs

theorem declaration?_built {j : Nat} {p : PendingMember} (hp : s.members[j]? = some p) :
    (built m calls).1.declaration? (.declared (m.shapes.size + i)) j =
      some (resolved (schemasFrom m.shapes.size (shapesOf calls)) p) := by
  rw [Model.declaration?, shape_built hs]
  simp [filled, Shape.memberList, hp]

theorem memberAt?_built (j : Nat) :
    (built m calls).1.memberAt? (.shape (.declared (m.shapes.size + i))) j =
      if j < s.members.length then some (.member (.declared (m.shapes.size + i)) j) else none := by
  simp only [Model.memberAt?, Model.table?, Model.described, shape_built hs]
  simp [filled, Shape.memberList]

theorem target?_built {j : Nat} {p : PendingMember} (hp : s.members[j]? = some p) :
    (built m calls).1.target? (.member (.declared (m.shapes.size + i)) j) =
      some (target (schemasFrom m.shapes.size (shapesOf calls)) p.target) := by
  rw [Model.target?, declaration?_built hs hp]
  rfl

/-- A declared shape has come into the registry as it was declared. -/
theorem holds_built (h : Buildable calls) :
    Holds (built m calls) s (.shape (.declared (m.shapes.size + i))) where
  found := by
    rw [Registry.get, built, find?_schemasFrom h.once hs]
  finalized := by simp [Model.isFinalized, shape_built hs, filled]
  id := by simp [Model.id, shape_built hs, filled]
  type := by simp [Model.typeOf, shape_built hs, filled]
  traits := by simp [Model.traits, shape_built hs, filled]
  length := by simp [Model.members, Model.table?, Model.described, shape_built hs, filled,
    Shape.memberList]
  member := by
    intro j p hp
    have hj : j < s.members.length := (List.getElem?_eq_some_iff.mp hp).1
    have hdecl : (built m calls).1.declarationOf? (.member (.declared (m.shapes.size + i)) j) = _ :=
      declaration?_built hs hp
    have htarget := isTarget_of_mem h m (List.mem_of_getElem? hs) (List.mem_of_getElem? hp)
    refine ⟨.member (.declared (m.shapes.size + i)) j, by rw [memberAt?_built hs, if_pos hj], rfl,
      by rw [Model.memberName?, hdecl]; rfl, Model.traits_of_declarationOf? hdecl, ?_⟩
    rw [target?_built hs hp]
    rcases target_cases htarget with ⟨hget, -⟩ | ⟨hno, shape, hshape, heq⟩
    · exact .inl ⟨_, hget, rfl⟩
    · exact .inr ⟨hno, shape, hshape, congrArg some heq⟩

end

/-! ### Nothing leads out of a registry -/

theorem within_of_target {r : Model × Registry} {member : SchemaRef} {id : ShapeId}
    (h : isTarget r.2.schemas id = true)
    (ht : r.1.target? member = some (target r.2.schemas id)) : Within r member := by
  have hd : r.1.described member = target r.2.schemas id := by
    cases member with
    | shape key => simp [Model.target?] at ht
    | member key i => rw [Model.described, ht, Option.getD_some]
  rw [Within, hd]
  rcases target_cases h with ⟨-, hin⟩ | ⟨-, shape, -, heq⟩
  · exact .inl hin
  · exact .inr ⟨shape, heq⟩

/-- The targets of the prelude are shapes of the prelude. -/
theorem described_of_prelude {m : Model} {p : PreludeShape} {j : Nat}
    (hj : j < (m.shape (.prelude p)).memberList.length) :
    ∃ shape, m.described (.member (.prelude p) j) = .prelude shape := by
  have htargets : ∀ d ∈ p.members, ∃ shape, d.target = .resolved (.prelude shape) := by
    cases p <;> simp [PreludeShape.members, SchemaRef.scalar, SchemaRef.prelude]
  have hj : j < p.members.length := hj
  obtain ⟨shape, hd⟩ := htargets _ (List.getElem_mem hj)
  refine ⟨shape, ?_⟩
  have hdecl : m.declaration? (.prelude p) j = some p.members[j] := List.getElem?_eq_getElem hj
  simp [Model.described, Model.target?, hdecl, hd, Model.resolve]

theorem Within.member (h : Buildable calls) {m : Model} {schema member : SchemaRef}
    (hw : Within (built m calls) schema) (hm : member ∈ (built m calls).1.members schema) :
    Within (built m calls) member := by
  obtain ⟨j, hj⟩ := Model.mem_members_iff.mp hm
  obtain ⟨key, htable, hlt, rfl⟩ := Model.memberAt?_eq_some_iff.mp hj
  rw [Model.table?] at htable
  obtain hin | ⟨shape, hin⟩ := hw
  · obtain ⟨e, he, heq⟩ := List.mem_map.mp hin
    obtain ⟨i, s, hs, rfl⟩ := mem_schemasFrom he
    obtain rfl : .declared (m.shapes.size + i) = key := by simpa [← heq] using htable
    rw [shape_built hs] at hlt
    have hlt : j < s.members.length := by simpa [filled, Shape.memberList] using hlt
    have hp : s.members[j]? = some s.members[j] := List.getElem?_eq_getElem hlt
    exact within_of_target
      (isTarget_of_mem h m (List.mem_of_getElem? hs) (List.getElem_mem hlt)) (target?_built hs hp)
  · obtain rfl : .prelude shape = key := by simpa [hin] using htable
    exact .inr (described_of_prelude hlt)

theorem Within.reaches (h : Buildable calls) {m : Model} {schema reached : SchemaRef}
    (hw : Within (built m calls) schema) (hr : (built m calls).1.Reaches schema reached) :
    Within (built m calls) reached := by
  induction hr with
  | refl => exact hw
  | step hm _ ih => exact ih (hw.member h hm)

theorem within_of_mem {m : Model} {schema : SchemaRef} (hs : schema ∈ (built m calls).2.toList) :
    Within (built m calls) schema := by
  obtain ⟨e, he, rfl⟩ := List.mem_map.mp hs
  obtain ⟨i, s, -, rfl⟩ := mem_schemasFrom he
  exact .inl hs

/-! ### The order of calls -/

theorem shapesWith_filter (members : ShapeId → List PendingMember) (calls : List RegistryCall) :
    shapesWith members (calls.filter RegistryCall.isDeclare) = shapesWith members calls := by
  rw [shapesWith, shapesWith, List.filterMap_filter]
  congr 1
  funext call
  cases call <;> rfl

theorem firstRepeated?_append (seen : List ShapeId) {before : List ShapeId} {id : ShapeId}
    (hn : (seen ++ before).Nodup) (hid : id ∈ seen ++ before) (after : List ShapeId) :
    firstRepeated? seen (before ++ id :: after) = some id := by
  induction before generalizing seen with
  | nil => rw [List.nil_append, firstRepeated?, if_pos (by simpa using hid)]
  | cons first before ih =>
      have hfirst : first ∉ seen := fun hm =>
        (List.nodup_append.mp hn).2.2 first hm first (List.mem_cons_self ..) rfl
      rw [List.cons_append, firstRepeated?, if_neg (by simpa using hfirst)]
      exact ih (seen ++ [first]) (by simpa using hn) (by simpa using hid)

/-- If members are where they belong, all that can be wrong is an id that is declared again. -/
theorem build_of_placed (hp : Placed calls) (hn : ¬(declaredIds calls).Nodup) (m : Model) :
    ∃ id, firstRepeated? [] (declaredIds calls) = some id ∧
      (ofCalls calls).build m = .error (.invalidSchema s!"shape {id.text} declared twice") := by
  obtain ⟨before, call, after, text, rfl, hb, ht⟩ := exists_first_of_not_clean fun hc =>
    hn (clean_iff.mp hc).1
  cases call with
  | declare id type traits =>
      rw [problem?, Option.ite_none_right_eq_some] at ht
      obtain ⟨hid, -⟩ := ht
      refine ⟨id, ?_, build_of_first hb (by rw [problem?, if_pos hid]) m⟩
      rw [declaredIds_append]
      exact firstRepeated?_append [] (clean_iff.mp hb).1 hid _
  | member container p => simp [problem?, hp before container p after rfl] at ht

/-- The same declarations, with the same members for each, build the same in any order of calls. -/
theorem build_congr {calls calls' : List RegistryCall} (hp : Placed calls) (hp' : Placed calls')
    (hd : calls.filter RegistryCall.isDeclare = calls'.filter RegistryCall.isDeclare)
    (hm : ∀ id, membersOf calls id = membersOf calls' id) (m : Model) :
    (ofCalls calls).build m = (ofCalls calls').build m := by
  have hshapes : shapesOf calls = shapesOf calls' := by
    rw [shapesOf, shapesOf, funext hm, ← shapesWith_filter, hd, shapesWith_filter]
  have hids : declaredIds calls = declaredIds calls' := by
    rw [← map_id_shapesOf, hshapes, map_id_shapesOf]
  by_cases hn : (declaredIds calls).Nodup
  · rw [build_of_clean (clean_iff.mpr ⟨hn, hp⟩), build_of_clean (clean_iff.mpr ⟨hids ▸ hn, hp'⟩),
      withPlaceholders, withPlaceholders, built, built, hshapes]
  · obtain ⟨id, hid, hb⟩ := build_of_placed hp hn m
    obtain ⟨id', hid', hb'⟩ := build_of_placed hp' (hids ▸ hn) m
    obtain rfl : id = id' := Option.some.inj (hid.symm.trans (hids ▸ hid'))
    rw [hb, hb']

/--
What is built from any sequence of calls. It succeeds exactly if every id is declared once, members
are added to shapes that have been declared by then, their targets are declared or in the prelude,
and the members of every shape fit its type. The registry then holds what was declared, in order,
each shape with the members that were added to it, and nothing leads out of it but to the prelude;
what the model had before stays. The first call with a problem makes the error, or else the first
shape with a fault. The order of calls does not matter as long as members come after their shapes.
-/
theorem registry_of_calls (m : Model) (calls : List RegistryCall) :
    ((∃ r, (ofCalls calls).build m = .ok r) ↔ Buildable calls) ∧
    (∀ r : Model × Registry, (ofCalls calls).build m = .ok r →
      r.2.schemas.map Prod.fst = (declaredIds calls).map ShapeId.text ∧
      (∀ (i : Nat) s, (shapesOf calls)[i]? = some s →
        ∃ schema, r.2.toList[i]? = some schema ∧ Holds r s schema) ∧
      (∀ schema ∈ r.2.toList, ∀ reached, r.1.Reaches schema reached → Within r reached) ∧
      (∀ i < m.shapes.size, r.1.shapes[i]? = m.shapes[i]?) ∧ r.1.names = m.names) ∧
    (∀ before call after text, calls = before ++ call :: after → Clean before →
      problem? before call = some text →
      (ofCalls calls).build m = .error (.invalidSchema text)) ∧
    (Clean calls → ∀ before s after e, shapesOf calls = before ++ s :: after →
      (∀ t ∈ before, fault? (schemasFrom m.shapes.size (shapesOf calls))
        (withPlaceholders m calls) t = none) →
      fault? (schemasFrom m.shapes.size (shapesOf calls)) (withPlaceholders m calls) s = some e →
      (ofCalls calls).build m = .error e) ∧
    (∀ calls', Placed calls → Placed calls' →
      calls.filter RegistryCall.isDeclare = calls'.filter RegistryCall.isDeclare →
      (∀ id, membersOf calls id = membersOf calls' id) →
      (ofCalls calls).build m = (ofCalls calls').build m) := by
  refine ⟨exists_build_iff m, fun r hr => ?_, ?_, ?_, ?_⟩
  · have h : Buildable calls := (exists_build_iff m).mp ⟨r, hr⟩
    obtain rfl := eq_built h hr
    refine ⟨keys_schemasFrom_shapesOf m.shapes.size calls, fun i s hs => ?_,
      fun schema hs reached hreach => (within_of_mem hs).reaches h hreach, fun i hi => ?_, rfl⟩
    · refine ⟨_, ?_, holds_built hs h⟩
      rw [Registry.toList, List.getElem?_map]
      exact congrArg (Option.map Prod.snd) (getElem?_schemasFrom hs)
    · exact Array.getElem?_append_left hi
  · rintro before call after text rfl hb ht
    exact build_of_first hb ht m
  · intro hc before s after e hs hbefore hfault
    have hfirst : (shapesOf calls).findSome? (fault? (schemasFrom m.shapes.size (shapesOf calls))
        (withPlaceholders m calls)) = some e :=
      List.findSome?_eq_some_iff.mpr ⟨before, s, after, hs, hfault, hbefore⟩
    rw [build_of_clean hc m, hfirst]
  · exact fun calls' hp hp' hd hm => build_congr hp hp' hd hm m

/-- A list of nodes that hold such lists in turn, with calls for the two shapes mixed. -/
def nodeCalls : List RegistryCall :=
  [ .declare ⟨"x#Node"⟩ .structure {},
    .member ⟨"x#Node"⟩ { name := "next", target := ⟨"x#Nodes"⟩, traits := {} },
    .declare ⟨"x#Nodes"⟩ .list {},
    .member ⟨"x#Nodes"⟩ { name := "member", target := ⟨"x#Node"⟩, traits := {} },
    .member ⟨"x#Node"⟩ { name := "name", target := ⟨"smithy.api#String"⟩, traits := {} } ]

/-- They can be built, and the list holds what it was declared with. -/
theorem registry_of_calls_nodes : Buildable nodeCalls ∧
    ∃ r schema, (ofCalls nodeCalls).build {} = .ok r ∧ r.2.toList[1]? = some schema ∧
      r.1.typeOf schema = .list ∧ (r.1.members schema).length = 1 := by
  have hr : (ofCalls nodeCalls).build {} = .ok (built {} nodeCalls) := by rfl
  refine ⟨(registry_of_calls {} nodeCalls).1.mp ⟨_, hr⟩, built {} nodeCalls, ?_⟩
  obtain ⟨-, hholds, -⟩ := (registry_of_calls {} nodeCalls).2.1 _ hr
  obtain ⟨schema, hs, h⟩ := hholds 1 _ rfl
  exact ⟨schema, hr, hs, h.type, h.length⟩

end ShapeCodec.RegistryBuilder
