import ShapeCodec.Proofs.Medium
import ShapeCodec.Proofs.UnionTags

/-!
# Reading what has been read

A document that has been read hands on, part by part, just what it was made of: the same members in
the same order, and nulls only where they are kept. So it reads back as itself. Unions need some
care: documents go by names, so a wire key that is no name could come to mean a member.
-/

namespace ShapeCodec

variable {Label Leaf : Type} {m : Model} {c : Codec} {S : SchemaRef}

/-! ### Members that go by names -/

/-- Wherever a schema leads, a member that is found by a key is found by its name in a document. -/
def Source.LeadsBack (src : Source Label Leaf) (m : Model) : SchemaRef → Prop :=
  m.Everywhere fun t => (m.typeOf t).isStructureLike = true → ∀ key member,
    src.member? t key = some member → m.member? t ((m.memberName? member).getD "") = some member

theorem Document.source_leadsBack (m : Model) (S : SchemaRef) :
    (Document.source m).LeadsBack m S := by
  intro t _ _ key member h
  rw [(Model.mem_of_member? h).2]
  exact h

/-- With distinct names, wire keys lead to members that their names lead back to. -/
theorem Codec.source_leadsBack (h : c.wireNames = true → m.DistinctNames S) :
    (c.source m).LeadsBack m S := by
  intro t ht hlike key member hfound
  cases hw : c.wireNames with
  | true =>
      exact Model.member?_memberName? ((h hw).reached ht |>.here hlike)
        (Model.mem_of_memberByKey? hfound).1
  | false =>
      have hname : m.member? t key = some member := by
        simpa [Codec.source, Json.source, Model.memberByKey?, hw] using hfound
      exact Document.source_leadsBack m S t ht hlike key member hname

/-- The members of unions that a schema reaches are found by their names, and by nothing else. -/
def Source.UnionsByName (src : Source Label Leaf) (m : Model) : SchemaRef → Prop :=
  m.Everywhere fun t => (m.typeOf t).form = .union → ∀ key, src.member? t key = m.member? t key

theorem Document.source_unionsByName (m : Model) (S : SchemaRef) :
    (Document.source m).UnionsByName m S :=
  fun _ _ _ _ => rfl

theorem Model.lastIndex?_congr {α : Type} {p q : α → Bool} {xs : List α}
    (h : ∀ x ∈ xs, p x = q x) : lastIndex? p xs = lastIndex? q xs := by
  induction xs with
  | nil => rfl
  | cons x xs ih =>
      obtain ⟨hx, h⟩ := List.forall_mem_cons.mp h
      rw [lastIndex?, lastIndex?, hx, ih h]

/-- No member of a union that a schema reaches has a wire key of its own that the codec uses. -/
def Codec.UnionsByName (c : Codec) (m : Model) : SchemaRef → Prop :=
  m.Everywhere fun t => (m.typeOf t).form = .union → c.wireNames = true →
    ∀ d ∈ m.declarations t, d.traits.jsonName = none

/-- The members of such a union are found by their names. -/
theorem Codec.UnionsByName.member? (h : c.UnionsByName m S) (hf : (m.typeOf S).form = .union)
    (key : String) : (c.source m).member? S key = m.member? S key := by
  show m.memberByKey? c.wireNames S key = m.memberByKey? false S key
  rw [Model.memberByKey?_eq, Model.memberByKey?_eq]
  refine congrArg (Option.bind · _) (Model.lastIndex?_congr fun d hd => ?_)
  cases hw : c.wireNames with
  | false => rfl
  | true => simp [Member.key, Member.wireName, h.here hf hw d hd]

theorem Codec.UnionsByName.source (h : c.UnionsByName m S) : (c.source m).UnionsByName m S :=
  fun _ ht hf key => Codec.UnionsByName.member? (h.reached ht) hf key

/-- Where the members of unions go by their names, no tag strays. -/
theorem Source.UnionsByName.not_strays {src : Source Label Leaf} (hl : src.Lawful m)
    {t : Tree Label Leaf} (h : src.UnionsByName m S) : ¬ src.Strays m S t := by
  intro hs
  induction hs with
  | tag hf _ hn hm =>
      rw [h.here hf, hm] at hn
      nomatch hn
  | @member S member l entries u hf hu _ ih =>
      obtain ⟨key, -, hkey, -⟩ := src.mem_presentMembers.mp hu
      exact ih (h.member (hl.mem_members hkey))
  | known _ _ hm _ ih => exact ih (h.member (hl.mem_members hm))
  | item hm _ _ ih => exact ih (h.member (Model.mem_of_listMember hm))
  | entry hm _ _ ih => exact ih (h.member (Model.mem_of_mapValue hm))

namespace Reader

variable {config : Config} {depth : Nat} {src : Source Label Leaf} {s : Scope} {member : SchemaRef}

/-! ### What a document that has been read hands on -/

/-- The members of a structure that has been read are the ones it was read from. -/
theorem presentMembers_read (hl : src.Lawful s.model)
    {entries : List (String × Tree Label Leaf)}
    {parts : List (SchemaRef × Tree Label Leaf × Document)}
    (hback : ∀ key member, src.member? S key = some member →
      s.model.member? S ((s.model.memberName? member).getD "") = some member)
    (hkeys : (Entries.keys entries).Nodup)
    (hp : src.presentMembers S Tree.isNull entries = parts.map fun p => (p.1, p.2.1))
    (hr : ∀ p ∈ parts, Reads src s depth p.1 p.2.1 p.2.2) :
    (Document.source s.model).presentMembers S Tree.isNull
        (Entries.ofList (memberEntries s parts)) = parts.map fun p => (p.1, p.2.2) := by
  let found := parts.map fun p => (p.1, (s.model.memberName? p.1).getD "", p.2.2)
  have hfound : ∀ p ∈ found, (Document.source s.model).member? S p.2.1 = some p.1 := by
    refine List.forall_mem_map.mpr fun p hp' => ?_
    obtain ⟨key, -, hkey, -⟩ := src.exists_entry_of_presentMembers_eq hp hp'
    exact hback key p.1 hkey
  have hpresent : ∀ p ∈ found, p.2.2.isNull = false := by
    refine List.forall_mem_map.mpr fun p hp' => ?_
    obtain ⟨key, -, -, hnull⟩ := src.exists_entry_of_presentMembers_eq hp hp'
    exact ((hr p hp').isNull hl).trans hnull
  have hnodup : (found.map Prod.fst).Nodup := by
    have hmembers : ((src.presentMembers S Tree.isNull entries).map Prod.fst).Nodup :=
      src.nodup_presentMembers hl.key_unique hkeys
    rw [hp, List.map_map] at hmembers
    rw [List.map_map]
    exact hmembers
  have hentries : memberEntries s parts = found.map fun p => p.2 := by
    rw [memberEntries, List.map_map]
    rfl
  rw [hentries, Entries.ofList_of_nodup (Model.nodup_keys_of_found hfound hnodup),
    Medium.presentMembers_of_found hfound hpresent, List.map_map]
  rfl

/-- The elements of a list that has been read are all kept. -/
theorem kept_items_read (s : Scope) (hl : src.Lawful s.model)
    {items : List (Tree Label Leaf)} {parts : List (Tree Label Leaf × Document)}
    (hk : s.kept S Tree.isNull items = parts.map fun p => .ok p.1)
    (hr : ∀ p ∈ parts, Reads src s depth member p.1 p.2) :
    Scope.kept { s with config } S Tree.isNull (parts.map Prod.snd) =
      parts.map fun p => .ok p.2 := by
  rw [Scope.kept_of_forall, List.map_map]
  · rfl
  · refine List.forall_mem_map.mpr fun p hp hnull => ?_
    rw [(hr p hp).isNull hl] at hnull
    exact (s.mem_of_kept_eq hk hp).2 hnull

/-- The entries of a map that has been read are all kept. -/
theorem kept_entries_read (s : Scope) (hl : src.Lawful s.model)
    {entries : List (String × Tree Label Leaf)}
    {parts : List (String × Tree Label Leaf × Document)} (hkeys : (Entries.keys entries).Nodup)
    (hk : s.kept S (fun e => e.2.isNull) entries = parts.map fun p => .ok (p.1, p.2.1))
    (hr : ∀ p ∈ parts, Reads src s depth member p.2.1 p.2.2) :
    Scope.kept { s with config } S (fun e => e.2.isNull)
        (Entries.ofList (parts.map fun p => (p.1, p.2.2))) =
      parts.map fun p => .ok (p.1, p.2.2) := by
  have hnodup : (Entries.keys (parts.map fun p => (p.1, p.2.2))).Nodup := by
    simpa [Entries.keys, Function.comp_def] using s.nodup_of_kept hkeys hk
  rw [Entries.ofList_of_nodup hnodup, Scope.kept_of_forall, List.map_map]
  · rfl
  · refine List.forall_mem_map.mpr fun p hp hnull => ?_
    rw [(hr p hp).isNull hl] at hnull
    exact (s.mem_of_kept_eq hk hp).2 hnull

/-- A document that has been read reads back as itself. -/
theorem Reads.reread {t : Tree Label Leaf} {d : Document} (h : Reads src s depth S t d)
    (hl : src.Lawful s.model) (ht : t.DistinctKeys) (hback : src.LeadsBack s.model S)
    (hu : src.UnionsByName s.model S) (hd : s.config.maxDepth ≤ config.maxDepth) :
    Reads (Document.source s.model) { model := s.model, config } depth S d d := by
  induction h with
  | null l => exact .null _
  | @document depth S t hf hnull => exact .document hf ((hl.isNull_untyped t).trans hnull)
  | @scalar depth S t type v hf hnull hv =>
      refine .scalar hf rfl ?_
      rw [← hl.scalar_type hv]
      exact Document.readScalar_leaf s.model _ v
  | @members depth S l entries parts hf hdepth hp hr hc ih =>
      obtain ⟨hkeys, hvalues⟩ := ht.of_map
      have hpresent := presentMembers_read hl
        (hback.here (ShapeType.isStructureLike_iff.mpr (.inl hf))) hkeys hp hr
      let parts' := parts.map fun p => (p.1, p.2.2, p.2.2)
      have hentries : memberEntries { model := s.model, config } parts' =
          memberEntries s parts := by
        rw [memberEntries, List.map_map]
        rfl
      rw [← hentries] at hc hpresent ⊢
      refine .members hf (Nat.lt_of_lt_of_le hdepth hd) ?_ ?_ hc
      · rw [hpresent, List.map_map]
        rfl
      · refine List.forall_mem_map.mpr fun p hp' => ?_
        obtain ⟨key, he, hkey, -⟩ := src.exists_entry_of_presentMembers_eq hp hp'
        have hmember := hl.mem_members hkey
        exact ih p hp' (hvalues _ he) (hback.member hmember) (hu.member hmember)
  | @known depth S member l entries key u d hf hdepth hc hm hr ih =>
      have hmember := hl.mem_members hm
      obtain ⟨he, hnull, -⟩ := src.mem_of_candidates hc
      exact .known hf (Nat.lt_of_lt_of_le hdepth hd)
        (Document.candidates_singleton _ ((hr.isNull hl).trans hnull))
        (hback.here (ShapeType.isStructureLike_iff.mpr (.inr hf)) key member hm)
        (ih (ht.of_map.2 _ he) (hback.member hmember) (hu.member hmember))
  | @unknown depth S l entries tag u hf hdepth hc hm =>
      obtain ⟨-, hnull, -⟩ := src.mem_of_candidates hc
      exact .unknown hf (Nat.lt_of_lt_of_le hdepth hd)
        (Document.candidates_singleton tag ((hl.isNull_untyped u).trans hnull))
        ((hu.here hf tag).symm.trans hm)
  | @list depth S member l items parts hm hdepth hk hr ih =>
      have hmember := Model.mem_of_listMember hm
      let parts' := parts.map fun p => (p.2, p.2)
      have hdocs : parts.map Prod.snd = parts'.map Prod.snd := by
        rw [List.map_map]
        rfl
      have hkept : Scope.kept { model := s.model, config } S Tree.isNull (parts.map Prod.snd) =
          parts.map fun p => .ok p.2 :=
        kept_items_read s hl hk hr
      rw [hdocs] at hkept ⊢
      refine .list hm (Nat.lt_of_lt_of_le hdepth hd) ?_ (List.forall_mem_map.mpr fun p hp => ?_)
      · rw [hkept, List.map_map]
        rfl
      · have hin := s.mem_of_kept_eq hk hp
        exact ih p hp (ht.of_list _ hin.1) (hback.member hmember) (hu.member hmember)
  | @map depth S member l entries parts hm hdepth hk hr ih =>
      have hmember := Model.mem_of_mapValue hm
      obtain ⟨hkeys, hvalues⟩ := ht.of_map
      let parts' := parts.map fun p => (p.1, p.2.2, p.2.2)
      have hdocs : (parts.map fun p => (p.1, p.2.2)) = parts'.map fun p => (p.1, p.2.2) := by
        rw [List.map_map]
        rfl
      have hkept : Scope.kept { model := s.model, config } S (fun e => e.2.isNull)
          (Entries.ofList (parts.map fun p => (p.1, p.2.2))) =
            parts.map fun p => .ok (p.1, p.2.2) :=
        kept_entries_read s hl hkeys hk hr
      rw [hdocs] at hkept ⊢
      refine .map hm (Nat.lt_of_lt_of_le hdepth hd) ?_ (List.forall_mem_map.mpr fun p hp => ?_)
      · rw [hkept, List.map_map]
        rfl
      · have hin := s.mem_of_kept_eq hk hp
        exact ih p hp (hvalues _ hin.1) (hback.member hmember) (hu.member hmember)

end Reader
end ShapeCodec
