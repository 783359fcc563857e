import Mathlib.Logic.Relation
import ShapeCodec.Proofs.Layout

/-!
# The views of a member table

The members of a structure or union are seen by place, by name and by wire key. Once the members
have passed the check they never change, and the views by place and by name agree on all of them.
Nothing checks wire keys: a member is found by its own exactly when no later member has taken it.
-/

namespace ShapeCodec.Model

variable {m m' : Model}

/-! ### Members stay as they were filled in -/

/-- What can be done to a model: shapes are added, placeholders filled in, names given. -/
inductive Step (m : Model) : Model → Prop
  | declare (shape : Shape) : Step m (m.declare shape).2
  | finalize {schema : SchemaRef} {members : List Member} {m' : Model} :
      m.finalize schema members = .ok m' → Step m m'
  | bind (name : String) (schema : SchemaRef) : Step m (m.bind name schema)

/-- What becomes of a model in any number of steps. -/
def Grows : Model → Model → Prop :=
  Relation.ReflTransGen Step

/-- A declared shape whose members have been filled in. -/
def Filled (m : Model) (index : Nat) (shape : Shape) : Prop :=
  m.shapes[index]? = some shape ∧ shape.members.isSome = true

theorem Filled.shape {index : Nat} {shape : Shape} (h : m.Filled index shape) :
    m.shape (.declared index) = shape := by
  rw [Model.shape, Array.getD_eq_getD_getElem?, h.1, Option.getD_some]

/-- Filling in takes a placeholder that is declared and writes nothing but its members. -/
theorem finalize_eq_ok {schema : SchemaRef} {members : List Member}
    (h : m.finalize schema members = .ok m') :
    ∃ index, schema = .shape (.declared index) ∧
      (m.shape (.declared index)).members = none ∧
      m.checkLayout (m.shape (.declared index)).id (m.shape (.declared index)).type members =
        .ok () ∧
      m' = { m with
        shapes := m.shapes.setIfInBounds index
          { m.shape (.declared index) with members := some members } } := by
  cases schema with
  | member key i => simp [Model.finalize] at h
  | shape key =>
      obtain ⟨⟨⟩, hc, h⟩ := Result.bind_eq_ok.mp h
      cases key with
      | declared index =>
          cases hm : (m.shape (.declared index)).members with
          | none =>
              refine ⟨index, rfl, hm, hc, ?_⟩
              simp only [hm] at h
              exact (Except.ok.inj h).symm
          | some old => simp [hm] at h
      | prelude shape => simp at h

/-- A placeholder has its place among the declared shapes. -/
theorem lt_size_of_members {index : Nat} (h : (m.shape (.declared index)).members = none) :
    index < m.shapes.size := by
  by_contra hi
  have hd : PreludeShape.document.shape.members = none := by
    simpa [Model.shape, Array.getD_eq_getD_getElem?, hi] using h
  exact absurd hd (by decide)

theorem Step.filled {index : Nat} {shape : Shape} (h : Step m m') (hf : m.Filled index shape) :
    m'.Filled index shape := by
  refine ⟨?_, hf.2⟩
  cases h with
  | declare other =>
      have hi : index < m.shapes.size := (Array.getElem?_eq_some_iff.mp hf.1).1
      show (m.shapes.push other)[index]? = some shape
      rw [Array.getElem?_push_lt hi]
      exact (Array.getElem?_eq_getElem hi).symm.trans hf.1
  | finalize h =>
      obtain ⟨other, -, hm, -, rfl⟩ := finalize_eq_ok h
      -- the shape filled in now had no members, so it is another one
      have hne : other ≠ index := by
        rintro rfl
        have hsome := hf.2
        rw [← hf.shape, hm] at hsome
        exact Bool.noConfusion hsome
      show (m.shapes.setIfInBounds other _)[index]? = some shape
      rw [Array.getElem?_setIfInBounds_ne hne]
      exact hf.1
  | bind name schema => exact hf.1

/-- Whatever is done to a model, members that have been filled in stay. -/
theorem Grows.filled {index : Nat} {shape : Shape} (h : Grows m m') (hf : m.Filled index shape) :
    m'.Filled index shape := by
  induction h with
  | refl => exact hf
  | tail _ hstep ih => exact hstep.filled ih

/-- Members have passed the check of a type and belong to a schema of it from then on. -/
def Accepts (m : Model) (type : ShapeType) (members : List Member) (schema : SchemaRef)
    (m' : Model) : Prop :=
  (∃ id traits, m.buildChecked id type traits members = .ok (schema, m')) ∨
    m.typeOf schema = type ∧ m.finalize schema members = .ok m'

/-- Members that are accepted fill in a shape that they fit. -/
theorem Accepts.filled {type : ShapeType} {members : List Member} {schema : SchemaRef}
    (h : m.Accepts type members schema m') :
    ∃ index shape, schema = .shape (.declared index) ∧ m'.Filled index shape ∧
      shape.members = some members ∧ type.allows (members.map Member.name) := by
  rcases h with ⟨id, traits, h⟩ | ⟨ht, h⟩
  · obtain ⟨⟨⟩, hc, h⟩ := Result.bind_eq_ok.mp h
    obtain ⟨rfl, rfl⟩ := Prod.mk.inj (Except.ok.inj h)
    refine ⟨m.shapes.size, { id, type, traits, members := some members }, rfl, ⟨?_, rfl⟩, rfl,
      allows_of_checkLayout hc⟩
    exact Array.getElem?_push_size
  · obtain ⟨index, rfl, hm, hc, rfl⟩ := finalize_eq_ok h
    have htype : (m.shape (.declared index)).type = type := ht
    refine ⟨index, { m.shape (.declared index) with members := some members }, rfl, ⟨?_, rfl⟩,
      rfl, htype ▸ allows_of_checkLayout hc⟩
    exact Array.getElem?_setIfInBounds_self_of_lt (lt_size_of_members hm)

/-! ### Lookup in a table -/

/-- The last position that satisfies a predicate is one that no later position follows. -/
theorem lastIndex?_eq_some_iff {α : Type} {p : α → Bool} {xs : List α} {i : Nat} :
    lastIndex? p xs = some i ↔
      (∃ x, xs[i]? = some x ∧ p x = true) ∧ ∀ j y, xs[j]? = some y → p y = true → j ≤ i := by
  induction xs generalizing i with
  | nil => simp [lastIndex?]
  | cons x xs ih =>
      cases hl : lastIndex? p xs with
      | some k =>
          obtain ⟨hk, hlast⟩ := ih.mp hl
          simp only [lastIndex?, hl, Option.some.injEq]
          constructor
          · rintro rfl
            refine ⟨by simpa using hk, fun j y hj hp => ?_⟩
            cases j with
            | zero => omega
            | succ j => exact Nat.succ_le_succ (hlast j y (by simpa using hj) hp)
          · rintro ⟨⟨z, hz, hpz⟩, hi⟩
            obtain ⟨y, hy, hpy⟩ := hk
            have hki := hi (k + 1) y (by simpa using hy) hpy
            cases i with
            | zero => omega
            | succ i =>
                have := hlast i z (by simpa using hz) hpz
                omega
      | none =>
          have hnone := lastIndex?_eq_none_iff.mp hl
          -- nothing further on satisfies it, so only the first position is left
          have hzero : ∀ j y, (x :: xs)[j]? = some y → p y = true → j = 0 := by
            intro j y hj hp
            cases j with
            | zero => rfl
            | succ j =>
                have := hnone y (List.mem_of_getElem? (by simpa using hj))
                rw [hp] at this
                simp at this
          simp only [lastIndex?, hl]
          by_cases hp : p x = true
          · simp only [hp, if_true, Option.some.injEq]
            constructor
            · rintro rfl
              exact ⟨⟨x, rfl, hp⟩, fun j y hj hpy => Nat.le_of_eq (hzero j y hj hpy)⟩
            · rintro ⟨⟨y, hy, hpy⟩, -⟩
              exact (hzero i y hy hpy).symm
          · simp only [hp, if_false, reduceCtorEq, false_iff]
            rintro ⟨⟨y, hy, hpy⟩, -⟩
            obtain rfl := hzero i y hy hpy
            obtain rfl : x = y := by simpa using hy
            exact hp hpy

/-! ### The three views -/

section
variable {members : List Member} {view : SchemaRef} {index i : Nat} {shape : Shape}
  (hf : m.Filled index shape) (hm : shape.members = some members)
  (hv : m.described view = .shape (.declared index))
include hf hm hv

theorem declarations_of_filled : m.declarations view = members := by
  have ht : m.table? view = some (.declared index) := by simp [table?, hv]
  rw [declarations_of_table? ht, hf.shape, Shape.memberList, hm, Option.getD_some]

theorem memberAt?_of_filled {d : Member} (h : members[i]? = some d) :
    m.memberAt? view i = some (.member (.declared index) i) := by
  refine memberAt?_eq_some_iff.mpr ⟨.declared index, by simp [table?, hv], ?_, rfl⟩
  rw [hf.shape, Shape.memberList, hm, Option.getD_some]
  exact (List.getElem?_eq_some_iff.mp h).1

/-- What is found by a wire key is the last member that has it. -/
theorem memberByWireName?_of_filled {key : String} {found : SchemaRef} :
    m.memberByWireName? view key = some found ↔ ∃ i d, members[i]? = some d ∧ d.wireName = key ∧
      found = .member (.declared index) i ∧
      ∀ j e, members[j]? = some e → e.wireName = key → j ≤ i := by
  rw [memberByWireName?, declarations_of_filled hf hm hv, Option.bind_eq_some_iff]
  simp only [lastIndex?_eq_some_iff, beq_iff_eq]
  constructor
  · rintro ⟨i, ⟨⟨d, hd, hk⟩, hlast⟩, hat⟩
    rw [memberAt?_of_filled hf hm hv hd] at hat
    exact ⟨i, d, hd, hk, (Option.some.inj hat).symm, hlast⟩
  · rintro ⟨i, d, hd, hk, rfl, hlast⟩
    exact ⟨i, ⟨⟨d, hd, hk⟩, hlast⟩, memberAt?_of_filled hf hm hv hd⟩

end

/--
Members that are accepted, seen from their shape or from a member that targets it, then and ever
after. Place and name of a declaration lead to one member and back. Its wire key leads to the last
member that has it, so every member is found by its own exactly when no two share one. Other names
and keys lead nowhere.
-/
theorem member_views_agree {m m' m'' : Model} {type : ShapeType} {members : List Member}
    {schema view : SchemaRef} (ha : m.Accepts type members schema m') (hg : m'.Grows m'')
    (hv : m''.described view = schema) :
    (∀ i d, members[i]? = some d → ∃ member,
      m''.memberAt view i = .ok member ∧ member.memberIndex? = some i ∧
      m''.declarationOf? member = some d ∧ m''.wireName? member = some d.wireName ∧
      m''.memberIndexOf? view d.name = some i ∧ m''.member? view d.name = some member ∧
      (m''.memberByWireName? view d.wireName = some member ↔
        ∀ j e, members[j]? = some e → e.wireName = d.wireName → j ≤ i)) ∧
    ((members.map Member.wireName).Nodup ↔ ∀ i d, members[i]? = some d →
      ∃ member, m''.memberAt view i = .ok member ∧
        m''.memberByWireName? view d.wireName = some member) ∧
    (∀ name, name ∉ members.map Member.name →
      m''.memberIndexOf? view name = none ∧ m''.member? view name = none) ∧
    ∀ key, key ∉ members.map Member.wireName → m''.memberByWireName? view key = none := by
  obtain ⟨index, shape, rfl, hf, hm, hallows⟩ := ha.filled
  have hf := hg.filled hf
  have hdecls := declarations_of_filled hf hm hv
  have hat : ∀ {i d}, members[i]? = some d →
      m''.memberAt view i = .ok (.member (.declared index) i) := fun hd =>
    memberAt_eq_ok_iff.mpr (memberAt?_of_filled hf hm hv hd)
  have hwire : ∀ {i d}, members[i]? = some d →
      (m''.memberByWireName? view d.wireName = some (.member (.declared index) i) ↔
        ∀ j e, members[j]? = some e → e.wireName = d.wireName → j ≤ i) := by
    intro i d hd
    rw [memberByWireName?_of_filled hf hm hv]
    constructor
    · rintro ⟨i', -, -, -, heq, hlast⟩
      obtain rfl : i = i' := by simpa using heq
      exact hlast
    · exact fun hlast => ⟨i, d, hd, rfl, rfl, hlast⟩
  refine ⟨fun i d hd => ?_, ⟨fun hn i d hd => ?_, fun hfound => ?_⟩, fun name hname => ?_,
    fun key hkey => ?_⟩
  · have hplace : m''.memberIndexOf? view d.name = some i := by
      rw [memberIndexOf?, hdecls]
      exact lastIndex?_of_nodup hallows.nodup hd
    have hmember := memberAt?_of_filled hf hm hv hd
    obtain ⟨d', hd', hdecl⟩ := declarationOf?_of_memberAt? hmember
    obtain rfl : d = d' := by simpa [hdecls, hd] using hd'
    refine ⟨_, hat hd, rfl, hdecl, wireName?_of_declarationOf? hdecl, hplace, ?_, hwire hd⟩
    rw [member?, hplace]
    exact hmember
  · refine ⟨_, hat hd, (hwire hd).mpr fun j e he hk => ?_⟩
    have hi : (members.map Member.wireName)[i]? = some d.wireName := by simp [hd]
    have hj : (members.map Member.wireName)[j]? = some d.wireName := by simp [he, hk]
    obtain ⟨hlt, hi⟩ := List.getElem?_eq_some_iff.mp hi
    obtain ⟨hlt', hj⟩ := List.getElem?_eq_some_iff.mp hj
    exact Nat.le_of_eq ((List.Nodup.getElem_inj_iff hn).mp (hj.trans hi.symm))
  · -- of two members with one key, each would have to come last
    refine List.nodup_iff_getElem?_ne_getElem?.mpr fun i j hij hj heq => ?_
    have hj : j < members.length := by simpa using hj
    have hd := List.getElem?_eq_getElem (Nat.lt_trans hij hj)
    have he := List.getElem?_eq_getElem hj
    obtain ⟨member, hmember, hkey⟩ := hfound i _ hd
    obtain rfl := Except.ok.inj ((hat hd).symm.trans hmember)
    have hkeys : members[j].wireName = members[i].wireName := by
      simpa [hd, he] using heq.symm
    exact absurd ((hwire hd).mp hkey j _ he hkeys) (Nat.not_le.mpr hij)
  · have hnone : m''.memberIndexOf? view name = none := by
      rw [memberIndexOf?, hdecls, lastIndex?_eq_none_iff]
      intro d hd
      exact beq_false_of_ne fun he => hname (he ▸ List.mem_map_of_mem hd)
    exact ⟨hnone, by rw [member?, hnone]; rfl⟩
  · rw [memberByWireName?, hdecls, lastIndex?_eq_none_iff.mpr]
    · rfl
    · intro d hd
      exact beq_false_of_ne fun he => hkey (he ▸ List.mem_map_of_mem hd)

/-- Two members, of which the second takes the name of the first for its wire key. -/
def sharingMembers : List Member :=
  [ { name := "a", target := .resolved (.scalar .string) },
    { name := "b", target := .resolved (.scalar .string), traits := { jsonName := some "a" } } ]

/-- A structure that takes the name of one member for the wire key of another. -/
def sharing : Model :=
  (({} : Model).build ⟨"x#S"⟩ .structure {} sharingMembers).2

theorem accepts_sharing :
    ({} : Model).Accepts .structure sharingMembers (.shape (.declared 0)) sharing :=
  .inl ⟨⟨"x#S"⟩, {}, rfl⟩

/-- The views of the two members agree where they can. -/
theorem member_views_agree_sharing :
    (∀ name, name ∉ ["a", "b"] →
      sharing.memberIndexOf? (.shape (.declared 0)) name = none ∧
        sharing.member? (.shape (.declared 0)) name = none) ∧
    sharing.memberByWireName? (.shape (.declared 0)) "a" = some (.member (.declared 0) 1) := by
  have hview : sharing.described (.shape (.declared 0)) = .shape (.declared 0) := rfl
  obtain ⟨hat, -, hnames, -⟩ := member_views_agree accepts_sharing .refl hview
  refine ⟨hnames, ?_⟩
  obtain ⟨member, hmember, -, -, -, -, -, hkey⟩ := hat 1 _ rfl
  obtain rfl := Except.ok.inj (hmember.symm.trans rfl)
  refine hkey.mpr fun j e he _ => ?_
  have := (List.getElem?_eq_some_iff.mp he).1
  simp only [sharingMembers, List.length_cons, List.length_nil] at this
  omega

/-- The first of the two members is not found by its wire key, which the second one has as well. -/
theorem shared_wire_key_hides_member :
    ({} : Model).Accepts .structure sharingMembers (.shape (.declared 0)) sharing ∧
    ∃ member, sharing.memberAt (.shape (.declared 0)) 0 = .ok member ∧
      sharing.wireName? member = some "a" ∧
      sharing.memberByWireName? (.shape (.declared 0)) "a" ≠ some member :=
  ⟨accepts_sharing, .member (.declared 0) 0, rfl, rfl, by decide⟩

end ShapeCodec.Model
