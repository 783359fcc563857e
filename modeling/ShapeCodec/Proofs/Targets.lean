import Mathlib.Data.List.Perm.Subperm
import Mathlib.Logic.Function.Iterate
import ShapeCodec.Proofs.Members

/-!
# Chains of targets

A target may be a member in turn. A chain of targets that reaches a shape passes through each
declared member once at most, so following as many targets as there are members is enough, and a
member has the type of what it targets.
-/

namespace ShapeCodec.Model

variable {m : Model}

/-- What is reached by following a number of targets. -/
def reach (m : Model) (n : Nat) (schema : SchemaRef) : SchemaRef :=
  m.described^[n] schema

theorem reach_succ (n : Nat) (schema : SchemaRef) :
    m.reach (n + 1) schema = m.described (m.reach n schema) :=
  Function.iterate_succ_apply' ..

theorem reach_add (a b : Nat) (schema : SchemaRef) :
    m.reach (a + b) schema = m.reach a (m.reach b schema) :=
  Function.iterate_add_apply ..

/-- Shapes describe themselves, so chains end there. -/
theorem reach_shape (n : Nat) (key : ShapeKey) : m.reach n (.shape key) = .shape key := by
  induction n with
  | zero => rfl
  | succ n ih => rw [reach_succ, ih, described]

/-- What a schema at the end of a chain says of the type. -/
def endType (m : Model) : SchemaRef → ShapeType
  | .shape key => (m.shape key).type
  | .member .. => .document

theorem typeAt_eq (fuel : Nat) (schema : SchemaRef) :
    m.typeAt fuel schema = m.endType (m.reach fuel schema) := by
  cases schema with
  | shape key =>
      rw [reach_shape]
      cases fuel <;> rfl
  | member container index =>
      induction fuel generalizing container index with
      | zero => rfl
      | succ fuel ih =>
          show m.typeAt fuel (m.described (.member container index)) =
            m.endType (m.reach fuel (m.described (.member container index)))
          cases m.described (.member container index) with
          | shape key =>
              rw [reach_shape]
              cases fuel <;> rfl
          | member container index => exact ih container index

/-! ### Declared members -/

/-- The members of all declared shapes. -/
def declaredMembers (m : Model) : List SchemaRef :=
  (List.range m.shapes.size).flatMap fun i =>
    (List.range (m.shape (.declared i)).memberList.length).map (.member (.declared i))

theorem length_declaredMembers : m.declaredMembers.length = m.memberCount := by
  have hcount : m.memberCount = (m.shapes.toList.map fun s => s.memberList.length).sum := by
    rw [memberCount, ← Array.foldl_toList, List.sum_eq_foldl, List.foldl_map]
  have hshapes : m.shapes.toList =
      (List.range m.shapes.size).map fun i => m.shape (.declared i) := by
    refine List.ext_getElem (by simp) fun i hi hi' => ?_
    have hlt : i < m.shapes.size := by simpa using hi
    simp [shape, Array.getD, hlt]
  rw [hcount, hshapes, declaredMembers, List.length_flatMap, List.map_map]
  simp only [List.length_map, List.length_range]
  rfl

theorem isMember_described_prelude (p : PreludeShape) (index : Nat) :
    (m.described (.member (.prelude p) index)).isMember = false := by
  have hresolve : ∀ d ∈ p.members, (m.resolve d.target).isMember = false := by
    cases p <;> simp [PreludeShape.members, resolve, SchemaRef.isMember, SchemaRef.scalar]
  cases hd : m.declaration? (.prelude p) index with
  | none =>
      simp only [described, target?, hd]
      rfl
  | some d =>
      simp only [described, target?, hd, Option.map_some, Option.getD_some]
      exact hresolve d (List.mem_of_getElem? hd)

/-- Only declared members target members. -/
theorem mem_declaredMembers {schema : SchemaRef} (hs : schema.isMember = true)
    (h : (m.described schema).isMember = true) : schema ∈ m.declaredMembers := by
  cases schema with
  | shape key => simp [SchemaRef.isMember] at hs
  | member container index =>
      cases container with
      | prelude p => simp [isMember_described_prelude] at h
      | declared i =>
          cases hd : m.declaration? (.declared i) index with
          | none => simp [described, target?, hd, SchemaRef.isMember, default] at h
          | some d =>
              obtain ⟨hindex, -⟩ := List.getElem?_eq_some_iff.mp hd
              have hi : i < m.shapes.size := by
                by_contra hi
                simp [shape, Array.getD, hi, PreludeShape.shape, PreludeShape.members,
                  Shape.memberList] at hindex
              exact List.mem_flatMap.mpr ⟨i, List.mem_range.mpr hi,
                List.mem_map.mpr ⟨index, List.mem_range.mpr hindex, rfl⟩⟩

/-! ### Enough targets -/

theorem isMember_reach_of_le {n k : Nat} (hk : k ≤ n) {schema : SchemaRef}
    (h : (m.reach n schema).isMember = true) : (m.reach k schema).isMember = true := by
  obtain ⟨d, rfl⟩ := Nat.exists_eq_add_of_le hk
  cases hr : m.reach k schema with
  | member container index => rfl
  | shape key =>
      rw [Nat.add_comm, reach_add, hr, reach_shape] at h
      cases h

/-- A chain that ends in a shape meets no member twice. -/
theorem reach_injOn {n : Nat} {schema : SchemaRef} (hn : (m.reach n schema).isMember = true)
    (hend : (m.reach (n + 1) schema).isMember = false) {i j : Nat} (hij : i < j) (hj : j ≤ n) :
    m.reach i schema ≠ m.reach j schema := by
  intro heq
  -- from the earlier place the shape would be reached in as many steps as from the later one
  have hback : m.reach (n + 1 - j + j) schema = m.reach (n + 1 - j + i) schema := by
    rw [reach_add, ← heq, ← reach_add]
  rw [Nat.sub_add_cancel (by omega)] at hback
  rw [hback, isMember_reach_of_le (by omega) hn] at hend
  cases hend

/-- A chain that ends in a shape is no longer than the number of declared members. -/
theorem le_memberCount_of_reach {n : Nat} {schema : SchemaRef}
    (hn : (m.reach n schema).isMember = true)
    (hend : (m.reach (n + 1) schema).isMember = false) : n ≤ m.memberCount := by
  let chain := (List.range n).map fun i => m.reach i schema
  have hnodup : chain.Nodup := by
    refine List.Nodup.map_on ?_ List.nodup_range
    intro i hi j hj heq
    rw [List.mem_range] at hi hj
    rcases Nat.lt_trichotomy i j with h | h | h
    · exact absurd heq (reach_injOn hn hend h (Nat.le_of_lt hj))
    · exact h
    · exact absurd heq.symm (reach_injOn hn hend h (Nat.le_of_lt hi))
  have hsub : chain ⊆ m.declaredMembers := by
    intro s hs
    obtain ⟨i, hi, rfl⟩ := List.mem_map.mp hs
    rw [List.mem_range] at hi
    refine mem_declaredMembers (isMember_reach_of_le (Nat.le_of_lt hi) hn) ?_
    rw [← reach_succ]
    exact isMember_reach_of_le hi hn
  have hlength := (hnodup.subperm hsub).length_le
  rwa [length_declaredMembers, List.length_map, List.length_range] at hlength

theorem endType_of_isMember {schema : SchemaRef} (h : schema.isMember = true) :
    m.endType schema = .document := by
  cases schema with
  | shape key => cases h
  | member container index => rfl

/-- Beyond the number of members there is nothing more to be reached. -/
theorem endType_reach {n : Nat} (hn : m.memberCount < n) (schema : SchemaRef) :
    m.endType (m.reach (n + 1) schema) = m.endType (m.reach n schema) := by
  cases hr : m.reach n schema with
  | shape key => rw [reach_succ, hr, described]
  | member container index =>
      have hmember : (m.reach n schema).isMember = true := by rw [hr]; rfl
      rw [← hr, endType_of_isMember hmember]
      refine endType_of_isMember (Bool.of_not_eq_false fun hend => ?_)
      exact absurd (le_memberCount_of_reach hmember hend) (by omega)

theorem typeOf_eq (schema : SchemaRef) :
    m.typeOf schema = m.endType (m.reach (m.memberCount + 2) schema) := by
  cases schema with
  | shape key =>
      rw [reach_shape]
      rfl
  | member container index => exact typeAt_eq ..

/-- A member has the type of its target, however far that is from a shape. -/
theorem typeOf_described (schema : SchemaRef) :
    m.typeOf (m.described schema) = m.typeOf schema := by
  rw [typeOf_eq, typeOf_eq, show m.reach (m.memberCount + 2) (m.described schema) =
    m.reach (m.memberCount + 2 + 1) schema from rfl, endType_reach (by omega)]

end ShapeCodec.Model
