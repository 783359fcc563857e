import Mathlib.Data.List.Nodup
import ShapeCodec.Codec
import ShapeCodec.Proofs.Result

/-!
# Members and their keys

A member is found by a key exactly when it is one of the members and, where keys are distinct, the
key is its own. Readers and writers look members up by one of two keys, the name and the wire key;
both are covered by one argument over the key of a declaration.
-/

namespace ShapeCodec

/-- The key by which a member goes: on the wire if `wireNames` is on, else in the schema. -/
def Member.key (wireNames : Bool) (d : Member) : String :=
  if wireNames then d.wireName else d.name

namespace Model

variable {m : Model}

/-! ### The last position -/

theorem getElem?_of_lastIndex? {α : Type} {p : α → Bool} {xs : List α} {i : Nat}
    (h : lastIndex? p xs = some i) : ∃ x, xs[i]? = some x ∧ p x = true := by
  induction xs generalizing i with
  | nil => simp [lastIndex?] at h
  | cons x xs ih =>
      simp only [lastIndex?] at h
      cases hl : lastIndex? p xs with
      | some j =>
          simp only [hl, Option.some.injEq] at h
          subst h
          simpa using ih hl
      | none =>
          rw [hl] at h
          by_cases hp : p x = true
          · simp only [hp, if_true, Option.some.injEq] at h
            subst h
            exact ⟨x, rfl, hp⟩
          · simp [hp] at h

theorem lastIndex?_eq_none_iff {α : Type} {p : α → Bool} {xs : List α} :
    lastIndex? p xs = none ↔ ∀ x ∈ xs, p x = false := by
  induction xs with
  | nil => simp [lastIndex?]
  | cons x xs ih =>
      simp only [lastIndex?, List.mem_cons, forall_eq_or_imp]
      cases hl : lastIndex? p xs with
      | some j =>
          obtain ⟨y, hy, hp⟩ := getElem?_of_lastIndex? hl
          have : ¬ ∀ z ∈ xs, p z = false := fun h => by
            simp [h y (List.mem_of_getElem? hy)] at hp
          simp [this]
      | none => simpa using fun _ => ih.mp hl

/-- Among distinct keys, the last element with a key is the only one. -/
theorem lastIndex?_of_nodup {α : Type} {key : α → String} {xs : List α} {i : Nat} {x : α}
    (hn : (xs.map key).Nodup) (h : xs[i]? = some x) :
    lastIndex? (key · == key x) xs = some i := by
  cases hl : lastIndex? (key · == key x) xs with
  | none =>
      have := lastIndex?_eq_none_iff.mp hl x (List.mem_of_getElem? h)
      simp at this
  | some j =>
      obtain ⟨y, hy, hk⟩ := getElem?_of_lastIndex? hl
      have hi : (xs.map key)[i]? = some (key x) := by simp [h]
      have hj : (xs.map key)[j]? = some (key x) := by
        simpa [hy] using hk
      -- both places have the same key, so they are one
      obtain ⟨hlt, hi⟩ := List.getElem?_eq_some_iff.mp hi
      obtain ⟨hlt', hj⟩ := List.getElem?_eq_some_iff.mp hj
      have := (List.Nodup.getElem_inj_iff hn).mp (hj.trans hi.symm)
      rw [this]

/-! ### Members at their places -/

theorem memberAt?_eq_some_iff {schema member : SchemaRef} {i : Nat} :
    m.memberAt? schema i = some member ↔
      ∃ key, m.table? schema = some key ∧ i < (m.shape key).memberList.length ∧
        member = .member key i := by
  rw [memberAt?]
  cases m.table? schema with
  | none => simp
  | some key =>
      by_cases h : i < (m.shape key).memberList.length
      · simp [h, eq_comm]
      · simp [h]

/-- What a schema has at its places depends on the shape that it shows only. -/
theorem memberAt?_congr {schema schema' : SchemaRef} (h : m.table? schema = m.table? schema')
    (i : Nat) : m.memberAt? schema i = m.memberAt? schema' i := by
  rw [memberAt?, memberAt?, h]

theorem members_congr {schema schema' : SchemaRef} (h : m.table? schema = m.table? schema') :
    m.members schema = m.members schema' := by
  rw [members, members, h]

theorem getElem?_members (schema : SchemaRef) (i : Nat) :
    (m.members schema)[i]? = m.memberAt? schema i := by
  rw [members, memberAt?]
  cases m.table? schema with
  | none => rfl
  | some key => by_cases h : i < (m.shape key).memberList.length <;> simp [h]

theorem mem_members_iff {schema member : SchemaRef} :
    member ∈ m.members schema ↔ ∃ i, m.memberAt? schema i = some member := by
  simp only [List.mem_iff_getElem?, getElem?_members]

theorem mem_members_of_memberAt? {schema member : SchemaRef} {i : Nat}
    (h : m.memberAt? schema i = some member) : member ∈ m.members schema :=
  mem_members_iff.mpr ⟨i, h⟩

theorem expectMemberIndex_of_memberAt? {schema member : SchemaRef} {i : Nat}
    (h : m.memberAt? schema i = some member) : m.expectMemberIndex member = .ok i := by
  obtain ⟨key, -, -, rfl⟩ := memberAt?_eq_some_iff.mp h
  rfl

/-- A member stands at the place that it has by itself. -/
theorem memberAt?_of_index {schema member : SchemaRef} {i : Nat} (h : member ∈ m.members schema)
    (hi : m.expectMemberIndex member = .ok i) : m.memberAt? schema i = some member := by
  obtain ⟨k, hk⟩ := mem_members_iff.mp h
  obtain rfl : k = i := Except.ok.inj ((expectMemberIndex_of_memberAt? hk).symm.trans hi)
  exact hk

theorem lt_of_memberAt? {schema member : SchemaRef} {i : Nat}
    (h : m.memberAt? schema i = some member) : i < (m.members schema).length := by
  rw [← getElem?_members] at h
  exact (List.getElem?_eq_some_iff.mp h).1

theorem nodup_members (schema : SchemaRef) : (m.members schema).Nodup := by
  rw [members]
  cases m.table? schema with
  | none => exact List.nodup_nil
  | some key =>
      exact List.nodup_range.map fun i j h => by simpa using h

theorem declarations_of_table? {schema : SchemaRef} {key : ShapeKey}
    (h : m.table? schema = some key) : m.declarations schema = (m.shape key).memberList := by
  rw [declarations, h]

/-- The declaration behind a member is the one at its place. -/
theorem declarationOf?_of_memberAt? {schema member : SchemaRef} {i : Nat}
    (h : m.memberAt? schema i = some member) :
    ∃ d, (m.declarations schema)[i]? = some d ∧ m.declarationOf? member = some d := by
  obtain ⟨key, ht, hi, rfl⟩ := memberAt?_eq_some_iff.mp h
  refine ⟨(m.shape key).memberList[i], ?_, ?_⟩
  · simp [declarations_of_table? ht, hi]
  · simp [declarationOf?, declaration?, hi]

theorem declarationOf?_of_mem {schema member : SchemaRef} (h : member ∈ m.members schema) :
    ∃ d ∈ m.declarations schema, m.declarationOf? member = some d := by
  obtain ⟨i, hi⟩ := mem_members_iff.mp h
  obtain ⟨d, hd, hm⟩ := declarationOf?_of_memberAt? hi
  exact ⟨d, List.mem_of_getElem? hd, hm⟩

/-- Members are member schemas: none of them is a shape. -/
theorem isMember_of_mem {schema member : SchemaRef} (h : member ∈ m.members schema) :
    member.isMember = true := by
  obtain ⟨i, hi⟩ := mem_members_iff.mp h
  obtain ⟨key, -, -, rfl⟩ := memberAt?_eq_some_iff.mp hi
  rfl

/-! ### Lookup by key -/

theorem memberByKey?_eq (w : Bool) (schema : SchemaRef) (k : String) :
    m.memberByKey? w schema k =
      (lastIndex? (Member.key w · == k) (m.declarations schema)).bind (m.memberAt? schema) := by
  cases w <;> rfl

/-- What is found under a key is a member, and the key is its own. -/
theorem mem_of_memberByKey? {w : Bool} {schema member : SchemaRef} {k : String}
    (h : m.memberByKey? w schema k = some member) :
    member ∈ m.members schema ∧ (m.declarationOf? member).map (Member.key w) = some k := by
  rw [memberByKey?_eq] at h
  obtain ⟨i, hi, hm⟩ := Option.bind_eq_some_iff.mp h
  obtain ⟨d, hd, hk⟩ := getElem?_of_lastIndex? hi
  obtain ⟨d', hd', hm'⟩ := declarationOf?_of_memberAt? hm
  obtain rfl : d = d' := by simpa [hd] using hd'
  exact ⟨mem_members_of_memberAt? hm, by simpa [hm'] using hk⟩

theorem mem_of_member? {schema member : SchemaRef} {name : String}
    (h : m.member? schema name = some member) :
    member ∈ m.members schema ∧ m.memberName? member = some name :=
  mem_of_memberByKey? (w := false) h

/-- Where keys are distinct, every member is found under its own. -/
theorem memberByKey?_of_mem {w : Bool} {schema member : SchemaRef} {k : String}
    (hn : ((m.declarations schema).map (Member.key w)).Nodup) (h : member ∈ m.members schema)
    (hk : (m.declarationOf? member).map (Member.key w) = some k) :
    m.memberByKey? w schema k = some member := by
  obtain ⟨i, hi⟩ := mem_members_iff.mp h
  obtain ⟨d, hd, hm⟩ := declarationOf?_of_memberAt? hi
  obtain rfl : Member.key w d = k := by simpa [hm] using hk
  rw [memberByKey?_eq, lastIndex?_of_nodup hn hd]
  exact hi

theorem member?_of_mem {schema member : SchemaRef} {name : String}
    (hn : ((m.declarations schema).map Member.name).Nodup) (h : member ∈ m.members schema)
    (hk : m.memberName? member = some name) : m.member? schema name = some member :=
  memberByKey?_of_mem (w := false) hn h hk

/-- Where names are distinct, the name of a member leads back to it. -/
theorem member?_memberName? {schema member : SchemaRef}
    (hn : ((m.declarations schema).map Member.name).Nodup) (h : member ∈ m.members schema) :
    m.member? schema ((m.memberName? member).getD "") = some member := by
  obtain ⟨d, -, hd⟩ := declarationOf?_of_mem h
  have hname : m.memberName? member = some d.name := by simp [memberName?, hd]
  rw [hname]
  exact member?_of_mem hn h hname

/-- Where names are distinct, members that go by one name are one member. -/
theorem eq_of_memberName? {schema member member' : SchemaRef}
    (hn : ((m.declarations schema).map Member.name).Nodup) (h : member ∈ m.members schema)
    (h' : member' ∈ m.members schema)
    (hname : (m.memberName? member).getD "" = (m.memberName? member').getD "") :
    member = member' := by
  have hfound := member?_memberName? hn h
  rw [hname, member?_memberName? hn h'] at hfound
  exact (Option.some.inj hfound).symm

/-- Keys under which different members are found are different. -/
theorem nodup_keys_of_found {α : Type} {find : String → Option SchemaRef}
    {parts : List (SchemaRef × String × α)} (hk : ∀ p ∈ parts, find p.2.1 = some p.1)
    (hn : (parts.map Prod.fst).Nodup) : (Entries.keys (parts.map fun p => p.2)).Nodup := by
  have hfound : (Entries.keys (parts.map fun p => p.2)).map find =
      (parts.map Prod.fst).map some := by
    simp only [Entries.keys, List.map_map]
    exact List.map_congr_left hk
  refine List.Nodup.of_map find ?_
  rw [hfound]
  exact hn.map fun a b h => Option.some.inj h

theorem memberName?_of_mem {schema member : SchemaRef} (h : member ∈ m.members schema) :
    ∃ name, m.memberName? member = some name := by
  obtain ⟨d, -, hd⟩ := declarationOf?_of_mem h
  exact ⟨d.name, by simp [memberName?, hd]⟩

theorem traits_of_declarationOf? {member : SchemaRef} {d : Member}
    (h : m.declarationOf? member = some d) : m.traits member = d.traits := by
  cases member with
  | shape key => simp [declarationOf?] at h
  | member key i =>
      simp only [declarationOf?] at h
      simp [traits, h]

theorem wireName?_of_declarationOf? {member : SchemaRef} {d : Member}
    (h : m.declarationOf? member = some d) : m.wireName? member = some d.wireName := by
  rw [wireName?, traits_of_declarationOf? h, memberName?, h, Member.wireName]
  cases d.traits.jsonName <;> rfl

/-- The key that a writer gives to a member is the key of its declaration. -/
theorem memberKey?_of_declarationOf? {c : Codec} {member : SchemaRef} {d : Member}
    (h : m.declarationOf? member = some d) :
    (c.scope m).memberKey? member = some (d.key c.wireNames) := by
  unfold Json.Scope.memberKey? Codec.scope Member.key
  split
  · exact wireName?_of_declarationOf? h
  · simp [memberName?, h]

/-! ### Types and elements -/

theorem typeOf_of_table? {schema : SchemaRef} {key : ShapeKey} (h : m.table? schema = some key) :
    m.typeOf schema = (m.shape key).type := by
  unfold table? at h
  cases schema with
  | shape k =>
      obtain rfl : k = key := by simpa [described] using h
      rfl
  | member k i =>
      cases hd : m.described (.member k i) with
      | shape k' =>
          obtain rfl : k' = key := by simpa [hd] using h
          simp [typeOf, typeAt, hd]
      | member k' i' => simp [hd] at h

theorem memberAt_eq_ok_iff {schema member : SchemaRef} {i : Nat} :
    m.memberAt schema i = .ok member ↔ m.memberAt? schema i = some member := by
  rw [memberAt]
  cases m.memberAt? schema i <;> simp

theorem listMember_eq_ok_iff {schema member : SchemaRef} :
    m.listMember schema = .ok member ↔
      m.typeOf schema = .list ∧ m.memberAt? schema 0 = some member := by
  unfold listMember expectType
  by_cases h : m.typeOf schema = .list <;> simp [h, memberAt_eq_ok_iff]

theorem mapValue_eq_ok_iff {schema member : SchemaRef} :
    m.mapValue schema = .ok member ↔
      m.typeOf schema = .map ∧ m.memberAt? schema 1 = some member := by
  unfold mapValue expectType
  by_cases h : m.typeOf schema = .map <;> simp [h, memberAt_eq_ok_iff]

theorem form_of_listMember {schema member : SchemaRef} (h : m.listMember schema = .ok member) :
    (m.typeOf schema).form = .list := by
  rw [(listMember_eq_ok_iff.mp h).1]
  rfl

theorem form_of_mapValue {schema member : SchemaRef} (h : m.mapValue schema = .ok member) :
    (m.typeOf schema).form = .map := by
  rw [(mapValue_eq_ok_iff.mp h).1]
  rfl

theorem mem_of_listMember {schema member : SchemaRef} (h : m.listMember schema = .ok member) :
    member ∈ m.members schema :=
  mem_members_of_memberAt? (listMember_eq_ok_iff.mp h).2

theorem mem_of_mapValue {schema member : SchemaRef} (h : m.mapValue schema = .ok member) :
    member ∈ m.members schema :=
  mem_members_of_memberAt? (mapValue_eq_ok_iff.mp h).2

end Model
end ShapeCodec
