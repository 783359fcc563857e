import ShapeCodec.Proofs.Idempotence

/-!
# Tolerant reading

Structures may hold what their schema does not know, nulls count as absent, and the order of members
means nothing. So a value can be edited in such ways wherever a schema leads to a structure or union
of it, and is still read as the same document up to order, or still not read at all.
-/

namespace ShapeCodec

variable {Label Leaf α : Type}

/-! ### Edits -/

/-- One edit of a value that reading tolerates, at a structure or union that a schema leads to. -/
inductive Source.Edit (src : Source Label Leaf) (m : Model) :
    SchemaRef → Tree Label Leaf → Tree Label Leaf → Prop
  /-- A structure gets a value under a key that no member goes by. -/
  | unknown {schema : SchemaRef} {l : Label} {entries : List (String × Tree Label Leaf)}
      (key : String) (value : Tree Label Leaf) :
      (m.typeOf schema).form = .structure → src.member? schema key = none → value.DistinctKeys →
      src.Edit m schema (.map l entries) (.map l (Entries.insert key value entries))
  /-- A structure or union gets a null under a key that is absent. -/
  | null {schema : SchemaRef} {l : Label} {entries : List (String × Tree Label Leaf)}
      (key : String) (l' : Label) :
      (m.typeOf schema).isStructureLike = true → key ∉ Entries.keys entries →
      src.Edit m schema (.map l entries) (.map l (Entries.insert key (.null l') entries))
  /-- A union gets a value under a key that does not count and is absent. -/
  | ignored {schema : SchemaRef} {l : Label} {entries : List (String × Tree Label Leaf)}
      (key : String) (value : Tree Label Leaf) :
      (m.typeOf schema).form = .union → src.ignoresKey key = true → key ∉ Entries.keys entries →
      value.DistinctKeys →
      src.Edit m schema (.map l entries) (.map l (Entries.insert key value entries))
  /-- The keys of a structure or union are put in another order. -/
  | order {schema : SchemaRef} {l : Label} {entries entries' : List (String × Tree Label Leaf)} :
      (m.typeOf schema).isStructureLike = true → entries.Perm entries' →
      src.Edit m schema (.map l entries) (.map l entries')
  /-- The value of a member is edited. -/
  | member {schema member : SchemaRef} {l : Label} (before after : List (String × Tree Label Leaf))
      {key : String} {t t' : Tree Label Leaf} :
      (m.typeOf schema).isStructureLike = true → src.member? schema key = some member →
      src.Edit m member t t' →
      src.Edit m schema (.map l (before ++ (key, t) :: after))
        (.map l (before ++ (key, t') :: after))
  /-- An element of a list is edited. -/
  | item {schema member : SchemaRef} {l : Label} (before after : List (Tree Label Leaf))
      {t t' : Tree Label Leaf} :
      m.listMember schema = .ok member → src.Edit m member t t' →
      src.Edit m schema (.list l (before ++ t :: after)) (.list l (before ++ t' :: after))
  /-- A value of a map is edited. -/
  | entry {schema member : SchemaRef} {l : Label} (before after : List (String × Tree Label Leaf))
      {key : String} {t t' : Tree Label Leaf} :
      m.mapValue schema = .ok member → src.Edit m member t t' →
      src.Edit m schema (.map l (before ++ (key, t) :: after))
        (.map l (before ++ (key, t') :: after))

/-- Any number of such edits, one after the other. -/
def Source.Edits (src : Source Label Leaf) (m : Model) (schema : SchemaRef) :
    Tree Label Leaf → Tree Label Leaf → Prop :=
  Relation.ReflTransGen (src.Edit m schema)

/-! ### What edits leave alone -/

namespace Source

variable {src : Source Label Leaf} {m : Model} {schema member : SchemaRef} {isNull : α → Bool}
  {entries before after : Entries α} {key : String} {a : α}

theorem presentMembers_insert_unknown (h : src.member? schema key = none) :
    src.presentMembers schema isNull (Entries.insert key a entries) =
      src.presentMembers schema isNull entries := by
  induction entries with
  | nil => simp [Entries.insert, presentMembers, h]
  | cons e entries ih =>
      by_cases hk : e.1 = key
      · subst hk
        simp [Entries.insert, presentMembers, h]
      · simp only [presentMembers] at ih
        simp only [Entries.insert, hk, if_false, presentMembers, List.filterMap_cons, ih]

theorem presentMembers_insert_null (hk : key ∉ Entries.keys entries) (hn : isNull a = true) :
    src.presentMembers schema isNull (Entries.insert key a entries) =
      src.presentMembers schema isNull entries := by
  rw [Entries.insert_of_notMem a hk, presentMembers, List.filterMap_append]
  cases hm : src.member? schema key <;> simp [presentMembers, hm, hn]

theorem candidates_insert (hk : key ∉ Entries.keys entries)
    (h : isNull a = true ∨ src.ignoresKey key = true) :
    src.candidates isNull (Entries.insert key a entries) = src.candidates isNull entries := by
  have hskipped : (!isNull a && !src.ignoresKey key) = false := by
    rcases h with h | h <;> simp [h]
  rw [Entries.insert_of_notMem a hk, candidates, List.filter_append]
  simp [candidates, hskipped]

theorem candidates_at (hn : isNull a = false) :
    src.candidates isNull (before ++ (key, a) :: after) =
      src.candidates isNull before ++
        ((if src.ignoresKey key then [] else [(key, a)]) ++ src.candidates isNull after) := by
  cases hi : src.ignoresKey key <;> simp [candidates, hn, hi]

end Source

/-- What stands in a collection that is not null is handed on at its place. -/
theorem Scope.exists_kept_at {β : Type} {s : Scope} {collection : SchemaRef} {isNull : α → Bool}
    {before after : List α} {a : α} (ha : isNull a = false) {parts : List β} {part : β → α}
    (h : s.kept collection isNull (before ++ a :: after) = parts.map fun p => .ok (part p)) :
    ∃ front p back, parts = front ++ p :: back ∧ part p = a ∧
      ∀ q, isNull (part q) = false → s.kept collection isNull (before ++ part q :: after) =
        (front ++ q :: back).map fun p => .ok (part p) := by
  have hkept : ∀ b, isNull b = false → s.kept collection isNull (before ++ b :: after) =
      s.kept collection isNull before ++ .ok b :: s.kept collection isNull after := fun b hb => by
    simp [Scope.kept, hb]
  rw [hkept a ha] at h
  obtain ⟨front, rest, rfl, hfront, hrest⟩ := List.append_eq_map_iff.mp h
  obtain ⟨p, back, rfl, hp, hback⟩ := List.map_eq_cons_iff.mp hrest
  refine ⟨front, p, back, rfl, Except.ok.inj hp, fun q hq => ?_⟩
  rw [hkept _ hq, List.map_append, hfront, List.map_cons, hback]

namespace Reader

variable {src : Source Label Leaf} {s : Scope} {S member : SchemaRef} {t t' t'' : Tree Label Leaf}
  {l l' : Label}

/-! ### Values that are read alike -/

/-- Whatever a value is read as, another one is read as too, up to order. -/
def Covers (src : Source Label Leaf) (s : Scope) (S : SchemaRef) (t t' : Tree Label Leaf) : Prop :=
  ∀ depth d, Reads src s depth S t d → ∃ d', Reads src s depth S t' d' ∧ d.Reordered s.model d'

theorem Covers.refl : Covers src s S t t :=
  fun _ d h => ⟨d, h, .refl d⟩

theorem Covers.trans (h : Covers src s S t t') (h' : Covers src s S t' t'') :
    Covers src s S t t'' := by
  intro depth d hd
  obtain ⟨d', hd', hsame⟩ := h depth d hd
  obtain ⟨d'', hd'', hsame'⟩ := h' depth d' hd'
  exact ⟨d'', hd'', hsame.trans hsame'⟩

/-- Two values are read as the same documents up to order, and one is read only if the other is. -/
def Alike (src : Source Label Leaf) (s : Scope) (S : SchemaRef) (t t' : Tree Label Leaf) : Prop :=
  Covers src s S t t' ∧ Covers src s S t' t

theorem Alike.refl : Alike src s S t t :=
  ⟨.refl, .refl⟩

theorem Alike.trans (h : Alike src s S t t') (h' : Alike src s S t' t'') :
    Alike src s S t t'' :=
  ⟨h.1.trans h'.1, h'.2.trans h.2⟩

/-! ### Structures -/

section
variable {parts parts' : List (SchemaRef × Tree Label Leaf × Document)}

/-- The same members go by the same names. -/
theorem keys_perm_of_members (hS : s.model.LaidOut S) (hm : ∀ p ∈ parts, p.1 ∈ s.model.members S)
    (hn : (parts.map Prod.fst).Nodup) (hperm : (parts.map Prod.fst).Perm (parts'.map Prod.fst)) :
    (Entries.keys (Entries.ofList (memberEntries s parts))).Perm
      (Entries.keys (Entries.ofList (memberEntries s parts'))) := by
  have hm' : ∀ p ∈ parts', p.1 ∈ s.model.members S := by
    have hall : ∀ member ∈ parts.map Prod.fst, member ∈ s.model.members S :=
      List.forall_mem_map.mpr hm
    exact fun p hp => hall p.1 (hperm.mem_iff.mpr (List.mem_map_of_mem hp))
  rw [Entries.ofList_of_nodup (nodup_memberEntries hS.names_nodup hm hn),
    Entries.ofList_of_nodup (nodup_memberEntries hS.names_nodup hm' (hperm.nodup hn)),
    keys_memberEntries, keys_memberEntries]
  exact hperm.map _

/-- Structures are the same up to order if the same members are. -/
theorem reordered_of_members (hS : s.model.LaidOut S)
    (hf : (s.model.typeOf S).form = .structure) (hm : ∀ p ∈ parts, p.1 ∈ s.model.members S)
    (hn : (parts.map Prod.fst).Nodup) (hperm : (parts.map Prod.fst).Perm (parts'.map Prod.fst))
    (h : ∀ p' ∈ parts', ∃ p ∈ parts, p.1 = p'.1 ∧ p.2.2.Reordered s.model p'.2.2) :
    Document.Reordered s.model (.map { schema := S } (Entries.ofList (memberEntries s parts)))
      (.map { schema := S } (Entries.ofList (memberEntries s parts'))) := by
  refine .map (.inr ⟨hf, keys_perm_of_members hS hm hn hperm⟩) fun e he e' he' hkey => ?_
  obtain ⟨q, hq, rfl⟩ := exists_part_of_mem he
  obtain ⟨p', hp', rfl⟩ := exists_part_of_mem he'
  obtain ⟨p, hp, hmember, hsame⟩ := h p' hp'
  -- under one name stands one member, and it was read once
  have hname : q.1 = p.1 :=
    Model.eq_of_memberName? hS.names_nodup (hm q hq) (hm p hp) (hmember ▸ hkey)
  obtain rfl : q = p := List.inj_on_of_nodup_map hn hq hp hname
  exact hsame

end

section
variable {entries entries' : List (String × Tree Label Leaf)}

/-- A structure covers another one if they hold the same members and it covers these. -/
theorem covers_structure (hl : src.Lawful s.model) (hS : s.model.LaidOut S)
    (hf : (s.model.typeOf S).form = .structure) (hkeys : (Entries.keys entries).Nodup)
    (hperm : ((src.presentMembers S Tree.isNull entries).map Prod.fst).Perm
      ((src.presentMembers S Tree.isNull entries').map Prod.fst))
    (h : ∀ p ∈ src.presentMembers S Tree.isNull entries,
      ∀ p' ∈ src.presentMembers S Tree.isNull entries', p.1 = p'.1 → Covers src s p.1 p.2 p'.2) :
    Covers src s S (.map l entries) (.map l' entries') := by
  intro depth d hd
  have hroom := hd.room rfl (by simp [hf]) (by simp [hf])
  obtain ⟨parts, hp, hr, rfl⟩ := hd.of_structure hf
  have hmembers : ∀ p ∈ parts, p.1 ∈ s.model.members S := by
    intro p hpart
    obtain ⟨key, -, hkey, -⟩ := src.exists_entry_of_presentMembers_eq hp hpart
    exact hl.mem_members hkey
  have hnodup : (parts.map Prod.fst).Nodup := by
    have hpresent : ((src.presentMembers S Tree.isNull entries).map Prod.fst).Nodup :=
      src.nodup_presentMembers hl.key_unique hkeys
    rw [hp, List.map_map] at hpresent
    exact hpresent
  rw [hp, List.map_map] at hperm
  -- each member is read from the value that stands for it in the other structure
  let Stands (member : SchemaRef) (u : Tree Label Leaf) (d' : Document) : Prop :=
    Reads src s (depth + 1) member u d' ∧
      ∃ p ∈ parts, p.1 = member ∧ p.2.2.Reordered s.model d'
  have hread : ∀ p' ∈ src.presentMembers S Tree.isNull entries', ∃ d', Stands p'.1 p'.2 d' := by
    intro p' hp'
    obtain ⟨p, hpart, hmember⟩ := List.mem_map.mp (hperm.mem_iff.mpr (List.mem_map_of_mem hp'))
    have hpresent : (p.1, p.2.1) ∈ src.presentMembers S Tree.isNull entries :=
      hp ▸ List.mem_map_of_mem hpart
    obtain ⟨d', hd', hsame⟩ := h _ hpresent p' hp' hmember _ _ (hr p hpart)
    have hmember : p.1 = p'.1 := hmember
    exact ⟨d', hmember ▸ hd', p, hpart, hmember, hsame⟩
  obtain ⟨parts', hp', hstands⟩ := exists_parts_beside (P := Stands) hread
  rw [← hp', List.map_map] at hperm
  have hperm : (parts.map Prod.fst).Perm (parts'.map Prod.fst) := hperm
  have hrequired : s.model.checkRequired S
      (fun name => Entries.contains name (Entries.ofList (memberEntries s parts'))) = .ok () := by
    have hhas := Document.checkRequired_eq_ok.mp (hd.required hf)
    exact Document.checkRequired_eq_ok.mpr fun member hm hmust name hname =>
      (keys_perm_of_members hS hmembers hnodup hperm).mem_iff.mp (hhas member hm hmust name hname)
  exact ⟨_, .members hf hroom hp'.symm (fun p hpart => (hstands p hpart).1) hrequired,
    reordered_of_members hS hf hmembers hnodup hperm fun p hpart => (hstands p hpart).2⟩

/-- Structures are read alike if they hold the same members and these are. -/
theorem alike_structure (hl : src.Lawful s.model) (hS : s.model.LaidOut S)
    (hf : (s.model.typeOf S).form = .structure) (hkeys : (Entries.keys entries).Nodup)
    (hkeys' : (Entries.keys entries').Nodup)
    (hperm : ((src.presentMembers S Tree.isNull entries).map Prod.fst).Perm
      ((src.presentMembers S Tree.isNull entries').map Prod.fst))
    (h : ∀ p ∈ src.presentMembers S Tree.isNull entries,
      ∀ p' ∈ src.presentMembers S Tree.isNull entries', p.1 = p'.1 → Alike src s p.1 p.2 p'.2) :
    Alike src s S (.map l entries) (.map l' entries') :=
  ⟨covers_structure hl hS hf hkeys hperm fun p hp p' hp' hmember => (h p hp p' hp' hmember).1,
    covers_structure hl hS hf hkeys' hperm.symm fun p' hp' p hp hmember =>
      hmember ▸ (h p hp p' hp' hmember.symm).2⟩

/-- The order of members does not matter. -/
theorem alike_structure_of_perm (hl : src.Lawful s.model) (hS : s.model.LaidOut S)
    (hf : (s.model.typeOf S).form = .structure) (hkeys : (Entries.keys entries).Nodup)
    (hkeys' : (Entries.keys entries').Nodup)
    (hperm : (src.presentMembers S Tree.isNull entries).Perm
      (src.presentMembers S Tree.isNull entries')) :
    Alike src s S (.map l entries) (.map l' entries') := by
  refine alike_structure hl hS hf hkeys hkeys' (hperm.map _) fun p hp p' hp' hmember => ?_
  obtain rfl : p = p' := List.inj_on_of_nodup_map
    (src.nodup_presentMembers hl.key_unique hkeys) hp (hperm.mem_iff.mpr hp') hmember
  exact .refl

/-- Nothing but one member differs. -/
theorem alike_structure_at (hl : src.Lawful s.model) (hS : s.model.LaidOut S)
    (hf : (s.model.typeOf S).form = .structure) {before after : List (String × Tree Label Leaf)}
    {key : String} (hkeys : (Entries.keys (before ++ (key, t) :: after)).Nodup)
    (hm : src.member? S key = some member) (hn : t.isNull = false) (hn' : t'.isNull = false)
    (h : Alike src s member t t') :
    Alike src s S (.map l (before ++ (key, t) :: after))
      (.map l (before ++ (key, t') :: after)) := by
  have hsame : Entries.keys (before ++ (key, t') :: after) =
      Entries.keys (before ++ (key, t) :: after) := by simp
  refine alike_structure hl hS hf hkeys (hsame ▸ hkeys) ?_ fun p hp p' hp' hmember => ?_
  · rw [src.presentMembers_at hm hn, src.presentMembers_at hm hn', List.map_append,
      List.map_append]
    exact .refl _
  · have hin : (member, t) ∈
        src.presentMembers S Tree.isNull (before ++ (key, t) :: after) := by
      rw [src.presentMembers_at hm hn]
      exact List.mem_append_right _ (List.mem_cons_self ..)
    have hone : ∀ q ∈ src.presentMembers S Tree.isNull (before ++ (key, t) :: after),
        p.1 = q.1 → p = q := fun q hq =>
      List.inj_on_of_nodup_map (src.nodup_presentMembers hl.key_unique hkeys) hp hq
    -- what stands for the member now is either the new value or one that was there
    have hcases : p' = (member, t') ∨
        p' ∈ src.presentMembers S Tree.isNull (before ++ (key, t) :: after) := by
      rw [src.presentMembers_at hm hn', List.mem_append, List.mem_cons] at hp'
      rw [src.presentMembers_at hm hn, List.mem_append, List.mem_cons]
      rcases hp' with hp' | hp' | hp'
      · exact .inr (.inl hp')
      · exact .inl hp'
      · exact .inr (.inr (.inr hp'))
    rcases hcases with rfl | hp'
    · obtain rfl := hone _ hin hmember
      exact h
    · obtain rfl := hone p' hp' hmember
      exact .refl

/-! ### Unions -/

/-- A union covers another one if the one entry that counts has the same key there. -/
theorem covers_union (hf : (s.model.typeOf S).form = .union)
    (h : ∀ key u, src.candidates Tree.isNull entries = [(key, u)] →
      ∃ u', src.candidates Tree.isNull entries' = [(key, u')] ∧
        (u' = u ∨ ∃ member, src.member? S key = some member ∧ Covers src s member u u')) :
    Covers src s S (.map l entries) (.map l' entries') := by
  intro depth d hd
  have hroom := hd.room rfl (by simp [hf]) (by simp [hf])
  obtain ⟨key, u, hc, hread⟩ := hd.of_union hf
  obtain ⟨u', hc', hvalue⟩ := h key u hc
  rcases hread with ⟨member, e, hm, hr, rfl⟩ | ⟨hm, rfl⟩
  · have hcovers : Covers src s member u u' := by
      rcases hvalue with rfl | ⟨found, hfound, hcovers⟩
      · exact .refl
      · obtain rfl : member = found := Option.some.inj (hm.symm.trans hfound)
        exact hcovers
    obtain ⟨e', hr', hsame⟩ := hcovers _ _ hr
    refine ⟨_, .known hf hroom hc' hm hr', ?_⟩
    have hparts : ∀ p ∈ [((s.model.memberName? member).getD "", e, e')],
        Document.Reordered s.model p.2.1 p.2.2 := List.forall_mem_singleton.mpr hsame
    exact .map_parts (by simp) hparts
  · obtain rfl : u' = u := by
      rcases hvalue with rfl | ⟨found, hfound, -⟩
      · rfl
      · simp [hm] at hfound
    exact ⟨_, .unknown hf hroom hc' hm, .refl _⟩

/-- Only the entries that count matter, and not their order. -/
theorem alike_union_of_perm (hf : (s.model.typeOf S).form = .union)
    (hperm : (src.candidates Tree.isNull entries).Perm (src.candidates Tree.isNull entries')) :
    Alike src s S (.map l entries) (.map l' entries') := by
  constructor
  · refine covers_union hf fun key u hc => ⟨u, ?_, .inl rfl⟩
    rw [hc] at hperm
    exact List.singleton_perm.mp hperm |>.symm
  · refine covers_union hf fun key u hc => ⟨u, ?_, .inl rfl⟩
    rw [hc] at hperm
    exact List.perm_singleton.mp hperm

theorem covers_union_at (hf : (s.model.typeOf S).form = .union)
    {before after : List (String × Tree Label Leaf)} {key : String}
    (hm : src.member? S key = some member) (hn : t.isNull = false) (hn' : t'.isNull = false)
    (h : Covers src s member t t') :
    Covers src s S (.map l (before ++ (key, t) :: after))
      (.map l' (before ++ (key, t') :: after)) := by
  refine covers_union hf fun key' u hc => ?_
  rw [Source.candidates_at hn] at hc
  rw [Source.candidates_at hn']
  cases hi : src.ignoresKey key with
  | true =>
      simp only [hi, if_true] at hc ⊢
      exact ⟨u, hc, .inl rfl⟩
  | false =>
      simp only [hi] at hc ⊢
      -- then it is the only one that does
      rcases List.append_eq_singleton_iff.mp hc with ⟨hbefore, hone⟩ | ⟨-, hnil⟩
      · obtain ⟨hentry, hafter⟩ := List.cons.inj hone
        obtain ⟨rfl, rfl⟩ := Prod.mk.inj hentry
        have hafter : src.candidates Tree.isNull after = [] := hafter
        exact ⟨t', by simp [hbefore, hafter], .inr ⟨member, hm, h⟩⟩
      · simp at hnil

/-! ### Lists and maps -/

theorem covers_list_at (hm : s.model.listMember S = .ok member)
    {before after : List (Tree Label Leaf)} (hn : t.isNull = false) (hn' : t'.isNull = false)
    (h : Covers src s member t t') :
    Covers src s S (.list l (before ++ t :: after)) (.list l' (before ++ t' :: after)) := by
  intro depth d hd
  have hf := Model.form_of_listMember hm
  have hroom := hd.room rfl (by simp [hf]) (by simp [hf])
  obtain ⟨parts, hk, hr, rfl⟩ := hd.of_list hm
  obtain ⟨front, ⟨u, e⟩, back, rfl, rfl, hkept⟩ := Scope.exists_kept_at hn hk
  obtain ⟨hfront, he, hback⟩ := List.forall_mem_append.mp hr |>.imp_right List.forall_mem_cons.mp
  obtain ⟨e', he', hsame⟩ := h _ _ he
  refine ⟨_, .list hm hroom (hkept (t', e') hn') ?_, ?_⟩
  · exact List.forall_mem_append.mpr ⟨hfront, List.forall_mem_cons.mpr ⟨he', hback⟩⟩
  · rw [List.map_append, List.map_append]
    exact .list_at _ _ hsame

theorem covers_map_at (hm : s.model.mapValue S = .ok member)
    {before after : List (String × Tree Label Leaf)} {key : String}
    (hkeys : (Entries.keys (before ++ (key, t) :: after)).Nodup) (hn : t.isNull = false)
    (hn' : t'.isNull = false) (h : Covers src s member t t') :
    Covers src s S (.map l (before ++ (key, t) :: after))
      (.map l' (before ++ (key, t') :: after)) := by
  intro depth d hd
  have hf := Model.form_of_mapValue hm
  have hroom := hd.room rfl (by simp [hf]) (by simp [hf])
  obtain ⟨parts, hk, hr, rfl⟩ := hd.of_map hm
  have hnodup := s.nodup_of_kept hkeys hk
  obtain ⟨front, ⟨name, u, e⟩, back, rfl, hpart, hkept⟩ :=
    Scope.exists_kept_at (a := (key, t)) hn hk
  obtain ⟨rfl, rfl⟩ : key = name ∧ t = u := (Prod.mk.inj hpart).imp Eq.symm Eq.symm
  obtain ⟨hfront, he, hback⟩ := List.forall_mem_append.mp hr |>.imp_right List.forall_mem_cons.mp
  obtain ⟨e', he', hsame⟩ := h _ _ he
  refine ⟨_, .map hm hroom (hkept (key, t', e') hn') ?_, ?_⟩
  · exact List.forall_mem_append.mpr ⟨hfront, List.forall_mem_cons.mpr ⟨he', hback⟩⟩
  · have hread : (Entries.keys
        ((front ++ (key, t, e) :: back).map fun p => (p.1, p.2.2))).Nodup := by
      simpa [Entries.keys, Function.comp_def] using hnodup
    have hread' : (Entries.keys
        ((front ++ (key, t', e') :: back).map fun p => (p.1, p.2.2))).Nodup := by
      simpa [Entries.keys, Function.comp_def] using hnodup
    rw [Entries.ofList_of_nodup hread, Entries.ofList_of_nodup hread', List.map_append,
      List.map_append]
    rw [List.map_append] at hread
    exact .map_at _ _ hread hsame

end

end Reader

/-! ### Edited values -/

namespace Source

variable {src : Source Label Leaf} {s : Scope} {m : Model} {S : SchemaRef}
  {t t' : Tree Label Leaf}

/-- Nulls are not edited, and no edit makes one. -/
theorem Edit.isNull (h : src.Edit m S t t') : t.isNull = false ∧ t'.isNull = false := by
  cases h <;> exact ⟨rfl, rfl⟩

theorem distinctKeys_insert {l : Label} {entries : List (String × Tree Label Leaf)} {key : String}
    {value : Tree Label Leaf} (h : (Tree.map l entries).DistinctKeys) (hv : value.DistinctKeys) :
    (Tree.map l (Entries.insert key value entries)).DistinctKeys := by
  obtain ⟨hkeys, hvalues⟩ := h.of_map
  refine .map (Entries.nodup_keys_insert hkeys) fun e he => ?_
  rcases Entries.mem_insert he with rfl | he
  · exact hv
  · exact hvalues e he

theorem distinctKeys_at {l : Label} {before after : List (String × Tree Label Leaf)}
    {key : String} (h : (Tree.map l (before ++ (key, t) :: after)).DistinctKeys)
    (ht : t.DistinctKeys → t'.DistinctKeys) :
    (Tree.map l (before ++ (key, t') :: after)).DistinctKeys := by
  obtain ⟨hkeys, hvalues⟩ := h.of_map
  obtain ⟨hbefore, hvalue, hafter⟩ :=
    List.forall_mem_append.mp hvalues |>.imp_right List.forall_mem_cons.mp
  refine .map (by simpa using hkeys) ?_
  exact List.forall_mem_append.mpr ⟨hbefore, List.forall_mem_cons.mpr ⟨ht hvalue, hafter⟩⟩

/-- Edits leave keys distinct. -/
theorem Edit.distinctKeys (h : src.Edit m S t t') : t.DistinctKeys → t'.DistinctKeys := by
  induction h with
  | unknown key value _ _ hv => exact fun ht => distinctKeys_insert ht hv
  | null key l' => exact fun ht => distinctKeys_insert ht (.null l')
  | ignored key value _ _ _ hv => exact fun ht => distinctKeys_insert ht hv
  | order _ hperm =>
      intro ht
      obtain ⟨hkeys, hvalues⟩ := ht.of_map
      exact .map ((hperm.map Prod.fst).nodup hkeys) fun e he => hvalues e (hperm.mem_iff.mpr he)
  | member before after _ _ _ ih => exact fun ht => distinctKeys_at ht ih
  | item before after _ _ ih =>
      intro ht
      obtain ⟨hbefore, hitem, hafter⟩ :=
        List.forall_mem_append.mp ht.of_list |>.imp_right List.forall_mem_cons.mp
      exact .list (List.forall_mem_append.mpr
        ⟨hbefore, List.forall_mem_cons.mpr ⟨ih hitem, hafter⟩⟩)
  | entry before after _ _ ih => exact fun ht => distinctKeys_at ht ih

/-- A value is read alike before and after an edit. -/
theorem Edit.alike (hl : src.Lawful s.model) (h : src.Edit s.model S t t') :
    s.model.LaidOut S → t.DistinctKeys → Reader.Alike src s S t t' := by
  induction h with
  | unknown key value hf hm hv =>
      intro hS ht
      exact Reader.alike_structure_of_perm hl hS hf ht.of_map.1
        (Entries.nodup_keys_insert ht.of_map.1) (by rw [presentMembers_insert_unknown hm])
  | null key l' hlike hk =>
      intro hS ht
      rcases ShapeType.isStructureLike_iff.mp hlike with hf | hf
      · exact Reader.alike_structure_of_perm hl hS hf ht.of_map.1
          (Entries.nodup_keys_insert ht.of_map.1) (by rw [presentMembers_insert_null hk rfl])
      · exact Reader.alike_union_of_perm hf (by rw [candidates_insert hk (.inl rfl)])
  | ignored key value hf hi hk _ =>
      exact fun _ _ => Reader.alike_union_of_perm hf (by rw [candidates_insert hk (.inr hi)])
  | order hlike hperm =>
      intro hS ht
      rcases ShapeType.isStructureLike_iff.mp hlike with hf | hf
      · exact Reader.alike_structure_of_perm hl hS hf ht.of_map.1
          ((hperm.map Prod.fst).nodup ht.of_map.1) (hperm.filterMap _)
      · exact Reader.alike_union_of_perm hf (hperm.filter _)
  | @member S member l before after key t t' hlike hm he ih =>
      intro hS ht
      obtain ⟨hkeys, hvalues⟩ := ht.of_map
      have hpart : Reader.Alike src s member t t' :=
        ih (hS.member (hl.mem_members hm)) (hvalues (key, t) (by simp))
      obtain ⟨hn, hn'⟩ := he.isNull
      rcases ShapeType.isStructureLike_iff.mp hlike with hf | hf
      · exact Reader.alike_structure_at hl hS hf hkeys hm hn hn' hpart
      · exact ⟨Reader.covers_union_at hf hm hn hn' hpart.1,
          Reader.covers_union_at hf hm hn' hn hpart.2⟩
  | @item S member l before after t t' hm he ih =>
      intro hS ht
      have hpart : Reader.Alike src s member t t' :=
        ih (hS.member (Model.mem_of_listMember hm)) (ht.of_list t (by simp))
      obtain ⟨hn, hn'⟩ := he.isNull
      exact ⟨Reader.covers_list_at hm hn hn' hpart.1, Reader.covers_list_at hm hn' hn hpart.2⟩
  | @entry S member l before after key t t' hm he ih =>
      intro hS ht
      obtain ⟨hkeys, hvalues⟩ := ht.of_map
      have hpart : Reader.Alike src s member t t' :=
        ih (hS.member (Model.mem_of_mapValue hm)) (hvalues (key, t) (by simp))
      obtain ⟨hn, hn'⟩ := he.isNull
      have hkeys' : (Entries.keys (before ++ (key, t') :: after)).Nodup := by simpa using hkeys
      exact ⟨Reader.covers_map_at hm hkeys hn hn' hpart.1,
        Reader.covers_map_at hm hkeys' hn' hn hpart.2⟩

/-- So it is before and after any number of edits. -/
theorem Edits.alike (hl : src.Lawful s.model) (hS : s.model.LaidOut S) (ht : t.DistinctKeys)
    (h : src.Edits s.model S t t') : Reader.Alike src s S t t' ∧ t'.DistinctKeys := by
  induction h with
  | refl => exact ⟨.refl, ht⟩
  | tail _ hedit ih =>
      obtain ⟨halike, hkeys⟩ := ih
      exact ⟨halike.trans (hedit.alike hl hS hkeys), hedit.distinctKeys hkeys⟩

end Source

/-! ### Codecs and documents -/

/-- Edits of JSON that reading tolerates, by the keys that a codec goes by. -/
def Codec.Edits (c : Codec) (m : Model) (S : SchemaRef) : Json → Json → Prop :=
  (c.source m).Edits m S

/-- Edits of documents that reading tolerates, by the names of members. -/
def Document.Edits (m : Model) (S : SchemaRef) : Document → Document → Prop :=
  (Document.source m).Edits m S

/-- Two values are read as the same document up to order, or both are not read. -/
structure ReadAlike (m : Model) (read : Tree Label Leaf → Result Document)
    (t t' : Tree Label Leaf) : Prop where
  edited : ∀ d, read t = .ok d → ∃ d', read t' = .ok d' ∧ d.Reordered m d'
  unedited : ∀ d', read t' = .ok d' → ∃ d, read t = .ok d ∧ d.Reordered m d'

theorem Reader.Alike.readAlike {src : Source Label Leaf} {s : Scope} {S : SchemaRef}
    {t t' : Tree Label Leaf} (h : Alike src s S t t') :
    ReadAlike s.model (document src s S) t t' where
  edited d hd := by
    obtain ⟨d', hr, hsame⟩ := h.1 0 d (documentAt_eq_ok_iff.mp hd)
    exact ⟨d', hr.run, hsame⟩
  unedited d' hd' := by
    obtain ⟨d, hr, hsame⟩ := h.2 0 d' (documentAt_eq_ok_iff.mp hd')
    exact ⟨d, hr.run, hsame.symm⟩

/--
Reading is tolerant. JSON and what it is edited to are read alike under a schema whose shapes are
laid out, whatever the settings and whatever keys the codec goes by; and so are documents.
-/
theorem tolerant_reading {m : Model} {S : SchemaRef} (hS : m.LaidOut S) :
    (∀ (c : Codec) (j j' : Json), j.DistinctKeys → c.Edits m S j j' →
      ReadAlike m (c.ofJson m S) j j') ∧
    ∀ (config : Config) (t t' : Document), t.DistinctKeys → Document.Edits m S t t' →
      ReadAlike m (Document.readAs m config S) t t' := by
  constructor
  · intro c j j' hj h
    exact (Source.Edits.alike (s := { model := m, config := c.config }) (Json.source_lawful m _ _)
      hS hj h).1.readAlike
  · intro config t t' ht h
    exact (Source.Edits.alike (s := { model := m, config }) (Document.source_lawful m)
      hS ht h).1.readAlike

namespace Gallery

/-- The same part with its name first, a key too many, a mark of its type and a null beside it. -/
def tolerablePart : Json :=
  .object
    [ ("gadget", .null)
    , ("widget", .object
        [ ("widgetName", .string "gear")
        , ("count", .number (.ofInt 3))
        , ("extra", .array [.boolean true]) ])
    , (Json.typeKey, .string "t#Part") ]

/-- It comes about by edits in the widget and around it. -/
theorem edits_tolerablePart : ({} : Codec).Edits model part widgetPart tolerablePart := by
  have hwidget : (model.typeOf (.member (.declared 23) 0)).form = .structure := by decide
  have hpart : (model.typeOf part).form = .union := by decide
  have hfound : (({} : Codec).source model).member? part "widget" =
      some (.member (.declared 23) 0) := by decide
  have hlike : ∀ {S : SchemaRef}, (model.typeOf S).form = .structure ∨
      (model.typeOf S).form = .union → (model.typeOf S).isStructureLike = true :=
    ShapeType.isStructureLike_iff.mpr
  refine .head (.member [] [] (hlike (.inr hpart)) hfound
    (.unknown "extra" (Json.array [.boolean true]) hwidget (by decide)
      (.list (List.forall_mem_singleton.mpr (.leaf _ _))))) ?_
  refine .head (.member [] [] (hlike (.inr hpart)) hfound
    (.order (hlike (.inl hwidget)) (.swap ..))) ?_
  refine .head (.null "gadget" () (hlike (.inr hpart)) (by decide)) ?_
  refine .head (.order (hlike (.inr hpart)) (.swap ..)) ?_
  exact .single (.ignored Json.typeKey (Json.string "t#Part") hpart rfl (by decide) (.leaf _ _))

/-- The edited part is read as the same document up to order. -/
theorem tolerant_reading_part : ∃ d d', ({} : Codec).ofJson model part widgetPart = .ok d ∧
    ({} : Codec).ofJson model part tolerablePart = .ok d' ∧ d.Reordered model d' := by
  obtain ⟨d, hd⟩ : ∃ d, ({} : Codec).ofJson model part widgetPart = .ok d := ⟨_, rfl⟩
  obtain ⟨d', hd', hsame⟩ := ((tolerant_reading (allLaidOut.laidOut part)).1 {} widgetPart
    tolerablePart distinctKeys_widgetPart edits_tolerablePart).edited d hd
  exact ⟨d, d', hd, hd', hsame⟩

end Gallery
end ShapeCodec
