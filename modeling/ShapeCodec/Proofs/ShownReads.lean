import ShapeCodec.Proofs.Reading
import ShapeCodec.Proofs.Showing

/-!
# What is shown of a document that has been read

What a reader makes of a value carries the schema that it was read under, unless that schema allows
anything. So input that differs in nothing but what is read under sensitive schemas is read as
documents that show the same.
-/

namespace ShapeCodec

variable {Label Leaf : Type}

/-! ### Input that is told apart by nothing that is shown -/

/--
Values that differ in nothing but what is read under sensitive schemas. Where a schema allows
anything, the documents they stand for have to show the same by themselves.
-/
inductive Source.Alike (src : Source Label Leaf) (m : Model) :
    SchemaRef → Tree Label Leaf → Tree Label Leaf → Prop
  | same {S : SchemaRef} (t : Tree Label Leaf) : Alike src m S t t
  | hidden {S : SchemaRef} {t u : Tree Label Leaf} :
      m.isSensitive S = true → (m.typeOf S).form ≠ .document → t.isNull = false →
      u.isNull = false → Alike src m S t u
  | kept {S : SchemaRef} {t u : Tree Label Leaf} :
      (m.typeOf S).form = .document → t.isNull = false → u.isNull = false →
      (src.untyped t).inspect m = (src.untyped u).inspect m → Alike src m S t u
  | members {S : SchemaRef} {l l' : Label}
      {parts : List (String × Tree Label Leaf × Tree Label Leaf)} :
      (m.typeOf S).form = .structure ∨ (m.typeOf S).form = .union →
      (∀ p ∈ parts, ∀ member, src.member? S p.1 = some member → Alike src m member p.2.1 p.2.2) →
      (∀ p ∈ parts, src.member? S p.1 = none → p.2.1 = p.2.2) →
      Alike src m S (.map l (parts.map fun p => (p.1, p.2.1)))
        (.map l' (parts.map fun p => (p.1, p.2.2)))
  | items {S member : SchemaRef} {l l' : Label} {parts : List (Tree Label Leaf × Tree Label Leaf)} :
      m.listMember S = .ok member → (∀ p ∈ parts, Alike src m member p.1 p.2) →
      Alike src m S (.list l (parts.map Prod.fst)) (.list l' (parts.map Prod.snd))
  | entries {S member : SchemaRef} {l l' : Label}
      {parts : List (String × Tree Label Leaf × Tree Label Leaf)} :
      m.mapValue S = .ok member → (∀ p ∈ parts, Alike src m member p.2.1 p.2.2) →
      Alike src m S (.map l (parts.map fun p => (p.1, p.2.1)))
        (.map l' (parts.map fun p => (p.1, p.2.2)))

theorem Source.Alike.isNull_eq {src : Source Label Leaf} {m : Model} {S : SchemaRef}
    {t u : Tree Label Leaf} (h : src.Alike m S t u) : t.isNull = u.isNull := by
  cases h with
  | same t => rfl
  | hidden _ _ ht hu | kept _ ht hu => rw [ht, hu]
  | members | items | entries => rfl

/-! ### Two containers at once -/

/-- Two lists that go back to one list, place by place, have equal images if their parts have. -/
private theorem map_eq_of_common {ι γ δ τ : Type} {input : γ → δ} {left right : ι → δ}
    {text : γ → τ} {qs : List ι} {ps ps' : List γ} (hps : qs.map left = ps.map input)
    (hps' : qs.map right = ps'.map input)
    (h : ∀ q ∈ qs, ∀ p ∈ ps, ∀ p' ∈ ps', left q = input p → right q = input p' →
      text p = text p') : ps.map text = ps'.map text := by
  induction qs generalizing ps ps' with
  | nil =>
      obtain rfl : ps = [] := by simpa using hps.symm
      obtain rfl : ps' = [] := by simpa using hps'.symm
      rfl
  | cons q qs ih =>
      match ps, ps', hps, hps' with
      | p :: ps, p' :: ps', hps, hps' =>
          obtain ⟨hp, hps⟩ := List.cons.inj hps
          obtain ⟨hp', hps'⟩ := List.cons.inj hps'
          rw [List.map_cons, List.map_cons, h q (by simp) p (by simp) p' (by simp) hp hp']
          refine congrArg _ (ih hps hps' fun q hq p hp p' hp' => ?_)
          exact h q (by simp [hq]) p (by simp [hp]) p' (by simp [hp'])

/-- What is kept of two collections with their nulls at the same places is at the same places. -/
theorem Scope.kept_both {ι α : Type} (s : Scope) (S : SchemaRef) (isNull : α → Bool)
    (left right : ι → α) {items : List ι}
    (hnull : ∀ i ∈ items, isNull (left i) = isNull (right i)) :
    ∃ kept : List (Result ι), s.kept S isNull (items.map left) = kept.map (Except.map left) ∧
      s.kept S isNull (items.map right) = kept.map (Except.map right) ∧
      ∀ i, .ok i ∈ kept → i ∈ items := by
  refine ⟨s.kept S (fun i => isNull (left i)) items, s.kept_map (fun _ => rfl) S items, ?_,
    fun i hi => (s.mem_of_mem_kept hi).1⟩
  have hcongr : s.kept S (fun i => isNull (left i)) items =
      s.kept S (fun i => isNull (right i)) items := by
    unfold Scope.kept
    exact List.filterMap_congr fun i hi => by simp only [hnull i hi]
  rw [hcongr]
  exact s.kept_map (fun _ => rfl) S items

/-- The members that are present in two structures, place by place, are the same. -/
theorem Source.presentMembers_both (src : Source Label Leaf) (S : SchemaRef)
    {parts : List (String × Tree Label Leaf × Tree Label Leaf)}
    (hnull : ∀ p ∈ parts, p.2.1.isNull = p.2.2.isNull) :
    ∃ qs : List (SchemaRef × Tree Label Leaf × Tree Label Leaf),
      src.presentMembers S Tree.isNull (parts.map fun p => (p.1, p.2.1)) =
        qs.map (fun q => (q.1, q.2.1)) ∧
      src.presentMembers S Tree.isNull (parts.map fun p => (p.1, p.2.2)) =
        qs.map (fun q => (q.1, q.2.2)) ∧
      ∀ q ∈ qs, ∃ key, (key, q.2) ∈ parts ∧ src.member? S key = some q.1 := by
  induction parts with
  | nil => exact ⟨[], rfl, rfl, by simp⟩
  | cons p parts ih =>
      obtain ⟨key, t, u⟩ := p
      obtain ⟨hp, hnull⟩ := List.forall_mem_cons.mp hnull
      obtain ⟨qs, hleft, hright, hqs⟩ := ih hnull
      have hqs' : ∀ q ∈ qs, ∃ k, (k, q.2) ∈ (key, t, u) :: parts ∧ src.member? S k = some q.1 :=
        fun q hq => (hqs q hq).imp fun _ h => ⟨List.mem_cons_of_mem _ h.1, h.2⟩
      unfold Source.presentMembers at hleft hright ⊢
      cases hm : src.member? S key with
      | none => exact ⟨qs, by simpa [hm] using hleft, by simpa [hm] using hright, hqs'⟩
      | some member =>
          cases hn : t.isNull with
          | true =>
              have hn' : u.isNull = true := hp.symm.trans hn
              exact ⟨qs, by simpa [hm, hn] using hleft, by simpa [hm, hn'] using hright, hqs'⟩
          | false =>
              have hn' : u.isNull = false := hp.symm.trans hn
              refine ⟨(member, t, u) :: qs, by simpa [hm, hn] using hleft,
                by simpa [hm, hn'] using hright, ?_⟩
              exact List.forall_mem_cons.mpr ⟨⟨key, List.mem_cons_self .., hm⟩, hqs'⟩

namespace Reader

variable {src : Source Label Leaf} {s : Scope}

theorem Reads.unique {depth : Nat} {schema : SchemaRef} {t : Tree Label Leaf} {d e : Document}
    (hd : Reads src s depth schema t d) (he : Reads src s depth schema t e) : d = e :=
  Except.ok.inj (hd.run.symm.trans he.run)

/-- What is read carries its schema, unless it was kept as it was. -/
theorem Reads.schema_eq {depth : Nat} {schema : SchemaRef} {t : Tree Label Leaf} {d : Document}
    (h : Reads src s depth schema t d) (hf : (s.model.typeOf schema).form ≠ .document) :
    d.schema = schema := by
  cases h with
  | document hf' => exact absurd hf' hf
  | null | scalar | members | known | unknown | list | map => rfl

/-- Whatever two values are read as under a schema shows the same. -/
def ShowAlike (src : Source Label Leaf) (s : Scope) (S : SchemaRef) (t u : Tree Label Leaf) :
    Prop :=
  ∀ ⦃depth d e⦄, Reads src s depth S t d → Reads src s depth S u e →
    d.inspect s.model = e.inspect s.model

theorem showAlike_of_hidden {S : SchemaRef} (hS : s.model.isSensitive S = true)
    (hf : (s.model.typeOf S).form ≠ .document) (t u : Tree Label Leaf) :
    ShowAlike src s S t u := by
  intro depth d e hd he
  rw [Document.inspect_of_sensitive (hd.schema_eq hf ▸ hS),
    Document.inspect_of_sensitive (he.schema_eq hf ▸ hS)]

/-! ### Containers -/

theorem inspect_ofList (m : Model) (S : SchemaRef) (pairs : List (String × Document)) :
    Document.inspect m (.map { schema := S } (Entries.ofList pairs)) =
      Document.inspectWalk.guarded m { schema := S }
        (Document.braced (Entries.ofList (pairs.map fun e => (e.1, e.2.inspect m)))) := by
  rw [Document.inspect_map, Entries.map_ofList]

theorem showAlike_of_structure {S : SchemaRef} {l l' : Label}
    {parts : List (String × Tree Label Leaf × Tree Label Leaf)}
    (hf : (s.model.typeOf S).form = .structure)
    (hnull : ∀ p ∈ parts, p.2.1.isNull = p.2.2.isNull)
    (h : ∀ p ∈ parts, ∀ member, src.member? S p.1 = some member →
      ShowAlike src s member p.2.1 p.2.2) :
    ShowAlike src s S (.map l (parts.map fun p => (p.1, p.2.1)))
      (.map l' (parts.map fun p => (p.1, p.2.2))) := by
  intro depth d e hd he
  obtain ⟨ps, hps, hreads, rfl⟩ := hd.of_structure hf
  obtain ⟨ps', hps', hreads', rfl⟩ := he.of_structure hf
  obtain ⟨qs, hleft, hright, hqs⟩ := src.presentMembers_both S hnull
  have htexts : (memberEntries s ps).map (fun e => (e.1, e.2.inspect s.model)) =
      (memberEntries s ps').map fun e => (e.1, e.2.inspect s.model) := by
    simp only [memberEntries, List.map_map]
    refine map_eq_of_common (hleft.symm.trans hps) (hright.symm.trans hps') ?_
    rintro ⟨member, t, u⟩ hq ⟨_, _, d⟩ hp ⟨_, _, e⟩ hp' ⟨⟩ ⟨⟩
    obtain ⟨key, hpart, hmember⟩ := hqs _ hq
    have htext := h _ hpart _ hmember (hreads _ hp) (hreads' _ hp')
    simp only [Function.comp_apply, htext]
  rw [inspect_ofList, inspect_ofList, htexts]

theorem showAlike_of_union {S : SchemaRef} {l l' : Label}
    {parts : List (String × Tree Label Leaf × Tree Label Leaf)}
    (hf : (s.model.typeOf S).form = .union)
    (hnull : ∀ p ∈ parts, p.2.1.isNull = p.2.2.isNull)
    (h : ∀ p ∈ parts, ∀ member, src.member? S p.1 = some member →
      ShowAlike src s member p.2.1 p.2.2)
    (hunknown : ∀ p ∈ parts, src.member? S p.1 = none → p.2.1 = p.2.2) :
    ShowAlike src s S (.map l (parts.map fun p => (p.1, p.2.1)))
      (.map l' (parts.map fun p => (p.1, p.2.2))) := by
  intro depth d e hd he
  obtain ⟨key, t, ht, hd⟩ := hd.of_union hf
  obtain ⟨key', u, hu, he⟩ := he.of_union hf
  have hsame : ∀ p ∈ parts, (!p.2.2.isNull && !src.ignoresKey p.1) =
      (!p.2.1.isNull && !src.ignoresKey p.1) := fun p hp => by rw [hnull p hp]
  simp only [Source.candidates, List.filter_map, Function.comp_def] at ht hu
  rw [List.filter_congr hsame] at hu
  -- the same part is the one member of both
  obtain ⟨p, hp, hpt⟩ := List.map_eq_singleton_iff.mp ht
  rw [hp] at hu
  obtain ⟨rfl, rfl⟩ := Prod.mk.inj hpt
  obtain ⟨rfl, rfl⟩ := Prod.mk.inj (List.cons.inj hu).1
  have hpart : p ∈ parts := List.mem_of_mem_filter (hp ▸ List.mem_singleton_self p)
  rcases hd with ⟨member, d', hm, hd', rfl⟩ | ⟨hm, rfl⟩
  · rcases he with ⟨member', e', hm', he', rfl⟩ | ⟨hm', rfl⟩
    · obtain rfl : member = member' := Option.some.inj (hm.symm.trans hm')
      simp only [Document.inspect_map, List.map_cons, List.map_nil, h p hpart member hm hd' he']
    · cases hm.symm.trans hm'
  · rcases he with ⟨member', e', hm', he', rfl⟩ | ⟨-, rfl⟩
    · cases hm.symm.trans hm'
    · rw [hunknown p hpart hm]

theorem showAlike_of_list {S member : SchemaRef} {l l' : Label}
    {parts : List (Tree Label Leaf × Tree Label Leaf)} (hm : s.model.listMember S = .ok member)
    (hnull : ∀ p ∈ parts, p.1.isNull = p.2.isNull)
    (h : ∀ p ∈ parts, ShowAlike src s member p.1 p.2) :
    ShowAlike src s S (.list l (parts.map Prod.fst)) (.list l' (parts.map Prod.snd)) := by
  intro depth d e hd he
  obtain ⟨ps, hps, hreads, rfl⟩ := hd.of_list hm
  obtain ⟨ps', hps', hreads', rfl⟩ := he.of_list hm
  obtain ⟨kept, hleft, hright, hkept⟩ := s.kept_both S Tree.isNull Prod.fst Prod.snd hnull
  have htexts : (ps.map Prod.snd).map (Document.inspect s.model) =
      (ps'.map Prod.snd).map (Document.inspect s.model) := by
    simp only [List.map_map]
    refine map_eq_of_common (hleft.symm.trans hps) (hright.symm.trans hps') ?_
    rintro (e | ⟨t, u⟩) hq ⟨_, d⟩ hp ⟨_, e⟩ hp' ⟨⟩ ⟨⟩
    exact h _ (hkept _ hq) (hreads _ hp) (hreads' _ hp')
  rw [Document.inspect_list, Document.inspect_list, htexts]

theorem showAlike_of_map {S member : SchemaRef} {l l' : Label}
    {parts : List (String × Tree Label Leaf × Tree Label Leaf)}
    (hm : s.model.mapValue S = .ok member)
    (hnull : ∀ p ∈ parts, p.2.1.isNull = p.2.2.isNull)
    (h : ∀ p ∈ parts, ShowAlike src s member p.2.1 p.2.2) :
    ShowAlike src s S (.map l (parts.map fun p => (p.1, p.2.1)))
      (.map l' (parts.map fun p => (p.1, p.2.2))) := by
  intro depth d e hd he
  obtain ⟨ps, hps, hreads, rfl⟩ := hd.of_map hm
  obtain ⟨ps', hps', hreads', rfl⟩ := he.of_map hm
  let left (p : String × Tree Label Leaf × Tree Label Leaf) := (p.1, p.2.1)
  let right (p : String × Tree Label Leaf × Tree Label Leaf) := (p.1, p.2.2)
  obtain ⟨kept, hleft, hright, hkept⟩ :=
    s.kept_both S (fun e => e.2.isNull) left right hnull
  have htexts : (ps.map fun p => (p.1, p.2.2)).map (fun e => (e.1, e.2.inspect s.model)) =
      (ps'.map fun p => (p.1, p.2.2)).map fun e => (e.1, e.2.inspect s.model) := by
    simp only [List.map_map]
    refine map_eq_of_common (hleft.symm.trans hps) (hright.symm.trans hps') ?_
    rintro (e | ⟨key, t, u⟩) hq ⟨_, _, d⟩ hp ⟨_, _, e⟩ hp' ⟨⟩ ⟨⟩
    have htext := h _ (hkept _ hq) (hreads _ hp) (hreads' _ hp')
    simp only [Function.comp_apply, htext]
  rw [inspect_ofList, inspect_ofList, htexts]

/-- Input that is told apart by nothing shown is read as documents that show the same. -/
theorem showAlike_of_alike {S : SchemaRef} {t u : Tree Label Leaf} (h : src.Alike s.model S t u) :
    ShowAlike src s S t u := by
  induction h with
  | same t => exact fun _ _ _ hd he => congrArg _ (hd.unique he)
  | hidden hS hf => exact showAlike_of_hidden hS hf _ _
  | kept hf ht hu htext =>
      intro depth d e hd he
      have hd' : Reads src s depth _ _ (src.untyped _) := .document hf ht
      have he' : Reads src s depth _ _ (src.untyped _) := .document hf hu
      rw [hd.unique hd', he.unique he', htext]
  | members hf hknown hunknown ih =>
      rename_i S l l' parts
      have hnull : ∀ p ∈ parts, p.2.1.isNull = p.2.2.isNull := by
        intro p hp
        cases hm : src.member? S p.1 with
        | some member => exact (hknown p hp member hm).isNull_eq
        | none => rw [hunknown p hp hm]
      rcases hf with hf | hf
      · exact showAlike_of_structure hf hnull ih
      · exact showAlike_of_union hf hnull ih hunknown
  | items hm hall ih => exact showAlike_of_list hm (fun p hp => (hall p hp).isNull_eq) ih
  | entries hm hall ih => exact showAlike_of_map hm (fun p hp => (hall p hp).isNull_eq) ih

/-- Documents that are read from input alike show the same. -/
theorem inspect_document_eq {S : SchemaRef} {t u : Tree Label Leaf} {d e : Document}
    (h : src.Alike s.model S t u) (hd : document src s S t = .ok d)
    (he : document src s S u = .ok e) : d.inspect s.model = e.inspect s.model :=
  showAlike_of_alike h (documentAt_eq_ok_iff.mp hd) (documentAt_eq_ok_iff.mp he)

end Reader
end ShapeCodec
