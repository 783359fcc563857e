import Mathlib.Data.List.Basic
import Mathlib.Data.List.Induction
import Mathlib.Data.List.Nodup
import ShapeCodec.Schema.Registry

/-!
# Collecting declarations

What a builder has collected after any sequence of calls, told from the calls alone: when nothing is
wrong with any of them it has every declared shape, in order, with the members that were added to
it, and otherwise its first problem is about the first call that something is wrong with.
-/

namespace ShapeCodec

/-- One step of collecting declarations. -/
inductive RegistryCall where
  | declare (id : ShapeId) (type : ShapeType) (traits : Traits)
  | member (container : ShapeId) (member : PendingMember)

/-- Calls that declare shapes. -/
def RegistryCall.isDeclare : RegistryCall → Bool
  | .declare .. => true
  | .member .. => false

namespace RegistryBuilder

/-- A call adds to what has been collected. -/
def apply (b : RegistryBuilder) : RegistryCall → RegistryBuilder
  | .declare id type traits => b.declare id type traits
  | .member container member => b.member container member

/-- What is collected by calls, one after the other. -/
def ofCalls (calls : List RegistryCall) : RegistryBuilder :=
  calls.foldl apply {}

/-! ### What calls say -/

/-- The ids that are declared, in order. -/
def declaredIds (calls : List RegistryCall) : List ShapeId :=
  calls.filterMap fun
    | .declare id _ _ => some id
    | .member .. => none

/-- The members that are added to a shape, in order. -/
def membersOf (calls : List RegistryCall) (id : ShapeId) : List PendingMember :=
  calls.filterMap fun
    | .declare .. => none
    | .member container p => if container = id then some p else none

/-- The shapes that are declared, in order, given the members of each. -/
def shapesWith (members : ShapeId → List PendingMember) (calls : List RegistryCall) :
    List PendingShape :=
  calls.filterMap fun
    | .declare id type traits => some { id, type, traits, members := members id }
    | .member .. => none

/-- The shapes that are declared, in order, with all members that are added to them. -/
def shapesOf (calls : List RegistryCall) : List PendingShape :=
  shapesWith (membersOf calls) calls

/-- What is wrong with a call that comes after others. -/
def problem? (before : List RegistryCall) : RegistryCall → Option String
  | .declare id _ _ =>
    if id ∈ declaredIds before then some s!"shape {id.text} declared twice" else none
  | .member container p =>
    if container ∈ declaredIds before then none
    else some s!"member `{p.name}` added to undeclared shape {container.text}"

/-- Nothing is wrong with any of the calls. -/
def Clean (calls : List RegistryCall) : Prop :=
  ∀ before call after, calls = before ++ call :: after → problem? before call = none

/-- Members are added only to shapes that have been declared by then. -/
def Placed (calls : List RegistryCall) : Prop :=
  ∀ before container p after, calls = before ++ .member container p :: after →
    container ∈ declaredIds before

variable {calls : List RegistryCall} {call : RegistryCall}

/-! ### Collecting -/

theorem ofCalls_concat (calls : List RegistryCall) (call : RegistryCall) :
    ofCalls (calls ++ [call]) = (ofCalls calls).apply call := by
  simp [ofCalls]

theorem declaredIds_append (calls rest : List RegistryCall) :
    declaredIds (calls ++ rest) = declaredIds calls ++ declaredIds rest :=
  List.filterMap_append

theorem membersOf_append (calls rest : List RegistryCall) (id : ShapeId) :
    membersOf (calls ++ rest) id = membersOf calls id ++ membersOf rest id :=
  List.filterMap_append

theorem map_id_shapesWith (members : ShapeId → List PendingMember) (calls : List RegistryCall) :
    (shapesWith members calls).map PendingShape.id = declaredIds calls := by
  rw [shapesWith, declaredIds, List.map_filterMap]
  congr 1
  funext call
  cases call <;> rfl

theorem isDeclared_iff {b : RegistryBuilder} {id : ShapeId} :
    b.isDeclared id = true ↔ id ∈ b.shapes.map PendingShape.id := by
  simp [isDeclared]

/-- Adding members leaves the ids as they are. -/
theorem map_id_member (b : RegistryBuilder) (container : ShapeId) (p : PendingMember) :
    (b.member container p).shapes.map PendingShape.id = b.shapes.map PendingShape.id := by
  rw [member]
  split
  · rw [List.map_map]
    refine List.map_congr_left fun s _ => ?_
    simp only [Function.comp_apply]
    split <;> rfl
  · rfl

/-- The ids that have been collected are those that were declared, if some more than once. -/
theorem isDeclared_ofCalls (calls : List RegistryCall) (id : ShapeId) :
    (ofCalls calls).isDeclared id = true ↔ id ∈ declaredIds calls := by
  induction calls using List.reverseRecOn generalizing id with
  | nil => simp [ofCalls, isDeclared, declaredIds]
  | append_singleton calls call ih =>
      simp only [isDeclared_iff] at ih ⊢
      rw [ofCalls_concat, declaredIds_append, List.mem_append, ← ih]
      cases call with
      | declare id' type traits =>
          simp only [apply, declare]
          split
          · have hid : id' ∈ (ofCalls calls).shapes.map PendingShape.id := isDeclared_iff.mp ‹_›
            simp only [declaredIds, List.filterMap_cons, List.filterMap_nil, List.mem_singleton,
              iff_self_or]
            exact fun h => h ▸ hid
          · simp [declaredIds]
      | member container p => simp [apply, map_id_member, declaredIds]

theorem problems_apply (calls : List RegistryCall) (call : RegistryCall) :
    ((ofCalls calls).apply call).problems =
      (ofCalls calls).problems ++ (problem? calls call).toList := by
  cases call with
  | declare id type traits =>
      have hid := isDeclared_ofCalls calls id
      by_cases h : id ∈ declaredIds calls
      · simp [apply, declare, problem?, h, hid.mpr h]
      · have hno : (ofCalls calls).isDeclared id = false :=
          Bool.eq_false_iff.mpr fun hd => h (hid.mp hd)
        simp [apply, declare, problem?, h, hno]
  | member container p =>
      have hid := isDeclared_ofCalls calls container
      by_cases h : container ∈ declaredIds calls
      · simp [apply, member, problem?, h, hid.mpr h]
      · have hno : (ofCalls calls).isDeclared container = false :=
          Bool.eq_false_iff.mpr fun hd => h (hid.mp hd)
        simp [apply, member, problem?, h, hno]

theorem problems_append (calls rest : List RegistryCall) :
    (ofCalls calls).problems <+: (ofCalls (calls ++ rest)).problems := by
  induction rest using List.reverseRecOn with
  | nil => simp
  | append_singleton rest call ih =>
      rw [← List.append_assoc, ofCalls_concat, problems_apply]
      exact ih.trans (List.prefix_append ..)

theorem Clean.of_append {rest : List RegistryCall} (h : Clean (calls ++ rest)) : Clean calls :=
  fun before call after heq => h before call (after ++ rest) (by simp [heq])

theorem clean_concat_iff : Clean (calls ++ [call]) ↔ Clean calls ∧ problem? calls call = none := by
  refine ⟨fun h => ⟨h.of_append, h calls call [] rfl⟩, fun ⟨h, hc⟩ before call' after heq => ?_⟩
  obtain rfl | ⟨after, last, rfl⟩ := List.eq_nil_or_concat' after
  · obtain ⟨rfl, hcall⟩ := List.append_inj' heq rfl
    exact List.head_eq_of_cons_eq hcall ▸ hc
  · have heq : calls ++ [call] = (before ++ call' :: after) ++ [last] := by simpa using heq
    exact h before call' after (List.append_inj' heq rfl).1

theorem problems_of_clean (h : Clean calls) : (ofCalls calls).problems = [] := by
  induction calls using List.reverseRecOn with
  | nil => rfl
  | append_singleton calls call ih =>
      obtain ⟨h, hc⟩ := clean_concat_iff.mp h
      rw [ofCalls_concat, problems_apply, ih h, hc]
      rfl

/-- The first thing that is wrong is the first problem. -/
theorem problems_of_first {before : List RegistryCall} {text : String} (hb : Clean before)
    (hc : problem? before call = some text) (after : List RegistryCall) :
    ∃ more, (ofCalls (before ++ call :: after)).problems = text :: more := by
  have hfirst : (ofCalls (before ++ [call])).problems = [text] := by
    rw [ofCalls_concat, problems_apply, problems_of_clean hb, hc]
    rfl
  obtain ⟨more, h⟩ := problems_append (before ++ [call]) after
  exact ⟨more, by simpa [hfirst] using h.symm⟩

/-- Calls with which something is wrong have a first one of that kind. -/
theorem exists_first_of_not_clean (h : ¬Clean calls) : ∃ before call after text,
    calls = before ++ call :: after ∧ Clean before ∧ problem? before call = some text := by
  induction calls using List.reverseRecOn with
  | nil => exact absurd (fun before call after heq => by simp at heq) h
  | append_singleton calls call ih =>
      by_cases hc : Clean calls
      · obtain ⟨text, ht⟩ := Option.ne_none_iff_exists'.mp fun hn =>
          h (clean_concat_iff.mpr ⟨hc, hn⟩)
        exact ⟨calls, call, [], text, rfl, hc, ht⟩
      · obtain ⟨before, call', after, text, rfl, hb, ht⟩ := ih hc
        exact ⟨before, call', after ++ [call], text, by simp, hb, ht⟩

theorem placed_concat_iff : Placed (calls ++ [call]) ↔ Placed calls ∧
    ∀ container p, call = .member container p → container ∈ declaredIds calls := by
  constructor
  · refine fun h => ⟨fun before c p after heq => h before c p (after ++ [call]) (by simp [heq]), ?_⟩
    rintro c p rfl
    exact h calls c p [] rfl
  · rintro ⟨h, hc⟩ before c p after heq
    obtain rfl | ⟨after, last, rfl⟩ := List.eq_nil_or_concat' after
    · obtain ⟨rfl, hcall⟩ := List.append_inj' heq rfl
      exact hc c p (List.head_eq_of_cons_eq hcall)
    · have heq : calls ++ [call] = (before ++ .member c p :: after) ++ [last] := by simpa using heq
      exact h before c p after (List.append_inj' heq rfl).1

/-- Nothing is wrong when ids are declared once, and before anything is added to them. -/
theorem clean_iff : Clean calls ↔ (declaredIds calls).Nodup ∧ Placed calls := by
  induction calls using List.reverseRecOn with
  | nil => simp [Clean, Placed, declaredIds]
  | append_singleton calls call ih =>
      rw [clean_concat_iff, placed_concat_iff, declaredIds_append, ih]
      cases call with
      | declare id type traits =>
          have hone : declaredIds [.declare id type traits] = [id] := rfl
          have hnodup : (declaredIds calls ++ [id]).Nodup ↔
              (declaredIds calls).Nodup ∧ id ∉ declaredIds calls := by
            rw [← List.concat_eq_append, List.nodup_concat, and_comm]
          simp only [problem?, hone, hnodup, reduceCtorEq, false_implies, implies_true, true_and,
            ite_eq_right_iff, and_assoc, and_comm, imp_false]
      | member container p => simp [problem?, declaredIds, and_assoc]

/-! ### Shapes that have been collected -/

theorem membersOf_eq_nil {id : ShapeId} (h : Placed calls) (hid : id ∉ declaredIds calls) :
    membersOf calls id = [] := by
  rw [membersOf, List.filterMap_eq_nil_iff]
  intro call hc
  cases call with
  | declare id' type traits => rfl
  | member container p =>
      obtain ⟨before, after, rfl⟩ := List.append_of_mem hc
      have hcontainer := h before container p after rfl
      refine if_neg fun heq => hid ?_
      rw [declaredIds_append]
      exact List.mem_append_left _ (heq ▸ hcontainer)

/-- When nothing is wrong, every shape has been collected with the members that are its own. -/
theorem shapes_of_clean (h : Clean calls) : (ofCalls calls).shapes = shapesOf calls := by
  induction calls using List.reverseRecOn with
  | nil => rfl
  | append_singleton calls call ih =>
      obtain ⟨hp, hc⟩ := clean_concat_iff.mp h
      have hshapes : shapesOf (calls ++ [call]) =
          shapesWith (membersOf (calls ++ [call])) calls ++
            shapesWith (membersOf (calls ++ [call])) [call] := List.filterMap_append
      rw [ofCalls_concat, hshapes]
      cases call with
      | declare id type traits =>
          have hid : id ∉ declaredIds calls := fun hid => by simp [problem?, hid] at hc
          have hno : (ofCalls calls).isDeclared id = false :=
            Bool.eq_false_iff.mpr fun hd => hid ((isDeclared_ofCalls calls id).mp hd)
          have hmembers : membersOf (calls ++ [.declare id type traits]) = membersOf calls := by
            funext other
            rw [membersOf_append]
            exact List.append_nil _
          -- nothing is added to a shape before it is declared
          have hnone := membersOf_eq_nil (clean_iff.mp hp).2 hid
          rw [hmembers]
          simp [apply, declare, hno, ih hp, shapesOf, shapesWith, hnone]
      | member container p =>
          have hcontainer : container ∈ declaredIds calls := by
            by_contra hno
            simp [problem?, hno] at hc
          have hyes := (isDeclared_ofCalls calls container).mpr hcontainer
          simp only [apply, member, hyes, if_true, ih hp, shapesOf, shapesWith,
            List.map_filterMap, List.filterMap_cons, List.filterMap_nil, List.append_nil]
          congr 1
          funext call
          cases call with
          | member => rfl
          | declare id type traits =>
              by_cases hid : id = container
              · simp [hid, membersOf]
              · have hne : container ≠ id := fun he => hid he.symm
                simp [hid, hne, membersOf]

end RegistryBuilder
end ShapeCodec
