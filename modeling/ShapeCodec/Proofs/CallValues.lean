import ShapeCodec.Proofs.WrittenUnder

/-!
# The values of calls

The value that a call stands for, if it stands for one: containers have one when all their parts do.
Which of several errors a call comes to makes no difference here.
-/

namespace ShapeCodec

/-! ### Traversals that may fail -/

theorem mapM_option_congr {α β : Type} {f g : α → Option β} {xs : List α}
    (h : ∀ x ∈ xs, f x = g x) : xs.mapM f = xs.mapM g := by
  induction xs with
  | nil => rfl
  | cons x xs ih =>
      obtain ⟨hx, h⟩ := List.forall_mem_cons.mp h
      rw [List.mapM_cons, List.mapM_cons, hx, ih h]

/-- Taking two steps for each element is taking the first for all and then the second for all. -/
theorem mapM_option_bind {α β γ : Type} (f : α → Option β) (g : β → Option γ) (xs : List α) :
    (xs.mapM fun x => (f x).bind g) = (xs.mapM f).bind fun ys => ys.mapM g := by
  induction xs with
  | nil => rfl
  | cons x xs ih =>
      simp only [List.mapM_cons, ih, Option.bind_eq_bind]
      cases f x with
      | none => rfl
      | some y =>
          cases xs.mapM f with
          | none => simp
          | some ys => simp [List.mapM_cons]

theorem mapM_option_map {α β γ : Type} (f : α → Option β) (h : β → γ) (xs : List α) :
    (xs.mapM fun x => (f x).map h) = (xs.mapM f).map fun ys => ys.map h := by
  induction xs with
  | nil => rfl
  | cons x xs ih =>
      rw [List.mapM_cons, List.mapM_cons, ih]
      cases f x with
      | none => rfl
      | some y => cases xs.mapM f <;> rfl

/-- What is known of the result for each element is known of all results. -/
theorem map_of_mapM_option {α β γ : Type} {f : α → Option β} {k : α → γ} {h : β → γ} {xs : List α}
    {ys : List β} (hy : xs.mapM f = some ys) (hf : ∀ x y, f x = some y → h y = k x) :
    ys.map h = xs.map k := by
  induction xs generalizing ys with
  | nil =>
      obtain rfl : [] = ys := by simpa using hy
      rfl
  | cons x xs ih =>
      rw [List.mapM_cons] at hy
      obtain ⟨y, hx, hy⟩ := Option.bind_eq_some_iff.mp hy
      obtain ⟨ys, hxs, hy⟩ := Option.bind_eq_some_iff.mp hy
      obtain rfl : y :: ys = _ := Option.some.inj hy
      rw [List.map_cons, List.map_cons, hf x y hx, ih hxs]

theorem mem_of_mapM_option {α β : Type} {f : α → Option β} {xs : List α} {ys : List β} {y : β}
    (hy : xs.mapM f = some ys) (h : y ∈ ys) : ∃ x ∈ xs, f x = some y := by
  induction xs generalizing ys with
  | nil =>
      obtain rfl : [] = ys := by simpa using hy
      cases h
  | cons x xs ih =>
      rw [List.mapM_cons] at hy
      obtain ⟨z, hx, hy⟩ := Option.bind_eq_some_iff.mp hy
      obtain ⟨zs, hxs, hy⟩ := Option.bind_eq_some_iff.mp hy
      obtain rfl : z :: zs = _ := Option.some.inj hy
      obtain rfl | h := List.mem_cons.mp h
      · exact ⟨x, List.mem_cons_self .., hx⟩
      · obtain ⟨x', hx', heq⟩ := ih hxs h
        exact ⟨x', List.mem_cons_of_mem _ hx', heq⟩

/-- Where the parts stand for some elements of a list, in order, filtering finds the parts. -/
theorem filterMap_of_sublist {α β γ : Type} {f : α → Option γ} {at' : β → α} {g : β → γ}
    {xs : List α} {parts : List β} (hn : xs.Nodup) (hsub : (parts.map at').Sublist xs)
    (hin : ∀ p ∈ parts, f (at' p) = some (g p)) (hout : ∀ x ∈ xs, x ∉ parts.map at' → f x = none) :
    xs.filterMap f = parts.map g := by
  induction xs generalizing parts with
  | nil =>
      obtain rfl : parts = [] := by simpa using hsub
      rfl
  | cons x xs ih =>
      obtain ⟨hx, hxs⟩ := List.nodup_cons.mp hn
      generalize hfirsts : parts.map at' = firsts at hsub
      cases hsub with
      | cons _ hsub =>
          subst hfirsts
          have hnone : f x = none :=
            hout x (List.mem_cons_self ..) fun hm => hx (hsub.subset hm)
          rw [List.filterMap_cons, hnone]
          exact ih hxs hsub hin fun y hy => hout y (List.mem_cons_of_mem _ hy)
      | cons_cons _ hsub =>
          obtain ⟨p, rest, rfl, rfl, rfl⟩ := List.map_eq_cons_iff.mp hfirsts
          obtain ⟨hp, hin⟩ := List.forall_mem_cons.mp hin
          rw [List.filterMap_cons, hp, List.map_cons]
          refine congrArg _ (ih hxs hsub hin fun y hy hnot => hout y (List.mem_cons_of_mem _ hy) ?_)
          rw [List.map_cons, List.mem_cons, not_or]
          exact ⟨fun heq => hx (heq ▸ hy), hnot⟩

namespace Writer

variable {α : Type} (m : Model) (sink : Sink α)

/-- The value that a call stands for, if it stands for one. -/
def value? (call : Call) : Option α :=
  (denote m sink call).toOption.map Prod.snd

variable {m sink} {S : SchemaRef}

theorem value?_null : value? m sink (.null S) = some (sink.null S) := by
  rw [value?, denote]
  rfl

theorem value?_fail (e : Error) : value? m sink (.fail e) = none := by
  rw [value?, denote]
  rfl

theorem value?_scalar (v : Scalar) :
    value? m sink (.scalar S v) = (sink.scalar S v).toOption := by
  rw [value?, denote]
  cases sink.scalar S v <;> rfl

theorem value?_document (d : Document) :
    value? m sink (.document S d) = (sink.document S d).toOption := by
  rw [value?, denote]
  cases sink.document S d <;> rfl

theorem denoteElements_toOption (calls : List Call) :
    (denoteElements m sink calls).toOption = calls.mapM (value? m sink) := by
  induction calls with
  | nil => rw [denoteElements]; rfl
  | cons call calls ih =>
      rw [denoteElements, List.mapM_cons, ← ih, value?]
      cases denote m sink call with
      | error e => rfl
      | ok p => cases denoteElements m sink calls <;> rfl

theorem value?_list (calls : List Call) :
    value? m sink (.list S calls) = (calls.mapM (value? m sink)).map (sink.list S) := by
  rw [← denoteElements_toOption, value?, denote]
  cases denoteElements m sink calls <;> rfl

theorem denoteEntries_toOption (parts : List (String × Call)) :
    (denoteEntries m sink (parts.map fun p => .entry p.1 [p.2])).toOption =
      parts.mapM fun p => (value? m sink p.2).map fun value => (p.1, value) := by
  induction parts with
  | nil => rw [List.map_nil, denoteEntries]; rfl
  | cons p parts ih =>
      rw [List.map_cons, denoteEntries, denoteEntry, List.mapM_cons, ← ih, value?]
      cases denote m sink p.2 with
      | error e => rfl
      | ok q => cases denoteEntries m sink (parts.map fun p => .entry p.1 [p.2]) <;> rfl

theorem value?_map (parts : List (String × Call)) :
    value? m sink (.map S (parts.map fun p => .entry p.1 [p.2])) =
      (parts.mapM fun p => (value? m sink p.2).map fun value => (p.1, value)).map fun pairs =>
        sink.map S (Entries.ofList pairs) := by
  rw [← denoteEntries_toOption, value?, denote]
  cases denoteEntries m sink (parts.map fun p => .entry p.1 [p.2]) <;> rfl

/-- The value of a structure with these members; a union has exactly one. -/
def structureOf (m : Model) (sink : Sink α) (S : SchemaRef) (pairs : List (String × α)) :
    Option α :=
  if m.typeOf S = .union ∧ (Entries.ofList pairs).length ≠ 1 then none
  else some (sink.map S (Entries.ofList pairs))

section
variable {parts : List (SchemaRef × Call)} {key : SchemaRef → String}
  (hs : ∀ p ∈ parts, ∀ s, p.2.schema? = some s → s = p.1)
  (hk : ∀ p ∈ parts, sink.memberKey? p.1 = some (key p.1))
include hs hk

theorem denoteMembers_toOption :
    (denoteMembers m sink (parts.map Prod.snd)).toOption =
      parts.mapM fun p => (value? m sink p.2).map fun value => (key p.1, value) := by
  induction parts with
  | nil => rw [List.map_nil, denoteMembers]; rfl
  | cons p parts ih =>
      obtain ⟨hsp, hs⟩ := List.forall_mem_cons.mp hs
      obtain ⟨hkp, hk⟩ := List.forall_mem_cons.mp hk
      rw [List.map_cons, denoteMembers, List.mapM_cons, ← ih hs hk, value?]
      cases hd : denote m sink p.2 with
      | error e => rfl
      | ok q =>
          obtain ⟨s, value⟩ := q
          obtain rfl := hsp s (schema?_of_denote hd)
          have hkey : memberKey m sink p.1 = .ok (key p.1) := memberKey_eq_ok_iff.mpr hkp
          simp only [Result.ok_bind, hkey]
          cases denoteMembers m sink (parts.map Prod.snd) <;> rfl

theorem value?_structure :
    value? m sink (.structure S (parts.map Prod.snd)) =
      (parts.mapM fun p => (value? m sink p.2).map fun value => (key p.1, value)).bind
        (structureOf m sink S) := by
  rw [← denoteMembers_toOption hs hk, value?, denote]
  cases denoteMembers m sink (parts.map Prod.snd) with
  | error e => rfl
  | ok pairs =>
      by_cases h : m.typeOf S = .union ∧ (Entries.ofList pairs).length ≠ 1
      · simp [structureOf, h, Except.toOption]
      · simp only [Result.ok_bind, if_neg h]
        exact (if_neg h).symm

end

end Writer

end ShapeCodec
