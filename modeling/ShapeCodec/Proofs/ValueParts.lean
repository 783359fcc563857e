import ShapeCodec.Proofs.ValueReading

/-!
# What typed values were read from

Where a value of a type comes out, there was a container with parts that were read, among them all
the members that have to be present.
-/

namespace ShapeCodec.Typed

variable {Label Leaf : Type} {src : Source Label Leaf} {s : Scope} {standin : Standin}
  {depth : Nat} {S : SchemaRef}

/-! ### Back to the parts -/

theorem exists_of_readItems {f : Tree Label Leaf → ValueReader} {type : ValueType}
    {member : SchemaRef} {kept : List (Result (Tree Label Leaf))} {vs : List Value}
    (h : readItems type depth member (kept.map (Except.map fun u => u.visit f)) = .ok vs) :
    ∃ us : List (Tree Label Leaf), kept = us.map .ok ∧
      ∀ u ∈ us, ∃ v, f u type depth member = .ok v := by
  induction kept generalizing vs with
  | nil => exact ⟨[], rfl, nofun⟩
  | cons r kept ih =>
      rw [List.map_cons, readItems] at h
      obtain ⟨_, hr, h⟩ := Result.bind_eq_ok.mp h
      obtain ⟨u, rfl, rfl⟩ := Result.map_eq_ok.mp hr
      obtain ⟨v, hv, h⟩ := Result.bind_eq_ok.mp h
      obtain ⟨_, hrest, -⟩ := Result.bind_eq_ok.mp h
      obtain ⟨us, rfl, hus⟩ := ih hrest
      exact ⟨u :: us, rfl, List.forall_mem_cons.mpr ⟨⟨v, hv⟩, hus⟩⟩

theorem exists_of_readEntries {f : Tree Label Leaf → ValueReader} {sorted : Bool}
    {type : ValueType} {member : SchemaRef} {kept : List (Result (String × Tree Label Leaf))}
    {read es : Entries Value}
    (h : readEntries sorted type depth member read
      (kept.map (Except.map fun e => (e.1, e.2.visit f))) = .ok es) :
    ∃ us : List (String × Tree Label Leaf), kept = us.map .ok ∧
      ∀ u ∈ us, ∃ v, f u.2 type depth member = .ok v := by
  induction kept generalizing read with
  | nil => exact ⟨[], rfl, nofun⟩
  | cons r kept ih =>
      rw [List.map_cons, readEntries] at h
      obtain ⟨_, hr, h⟩ := Result.bind_eq_ok.mp h
      obtain ⟨u, rfl, rfl⟩ := Result.map_eq_ok.mp hr
      obtain ⟨v, hv, h⟩ := Result.bind_eq_ok.mp h
      obtain ⟨us, rfl, hus⟩ := ih h
      exact ⟨u :: us, rfl, List.forall_mem_cons.mpr ⟨⟨v, hv⟩, hus⟩⟩

/-- The members that belong to fields are all read, and every slot belongs to one of them. -/
theorem of_readSlots {fields : List (Field ValueType)} {f : Tree Label Leaf → ValueReader}
    {present : List (SchemaRef × Tree Label Leaf)} {slots : List (Nat × Value)}
    (h : readSlots s fields depth (present.map fun p => (p.1, p.2.visit f)) = .ok slots) :
    (∀ p ∈ present, ∀ i field, s.model.expectMemberIndex p.1 = .ok i → fields[i]? = some field →
      ∃ v, f p.2 field.type.present depth p.1 = .ok v) ∧
    ∀ slot ∈ slots, ∃ p ∈ present, s.model.expectMemberIndex p.1 = .ok slot.1 := by
  induction present generalizing slots with
  | nil =>
      obtain rfl := Except.ok.inj h
      exact ⟨nofun, nofun⟩
  | cons p present ih =>
      rw [List.map_cons, readSlots] at h
      obtain ⟨i, hi, h⟩ := Result.bind_eq_ok.mp h
      have hindex : ∀ j, s.model.expectMemberIndex p.1 = .ok j → j = i := fun j hj =>
        Except.ok.inj (hj.symm.trans hi)
      split at h
      · rename_i hnone
        obtain ⟨hread, hslots⟩ := ih h
        refine ⟨List.forall_mem_cons.mpr ⟨fun j field hj hfield => ?_, hread⟩, fun slot hs => ?_⟩
        · rw [hindex j hj, hnone] at hfield
          cases hfield
        · obtain ⟨q, hq, hqi⟩ := hslots slot hs
          exact ⟨q, List.mem_cons_of_mem _ hq, hqi⟩
      · rename_i field hfield
        obtain ⟨v, hv, h⟩ := Result.bind_eq_ok.mp h
        obtain ⟨rest, hrest, h⟩ := Result.bind_eq_ok.mp h
        obtain rfl := Except.ok.inj h
        obtain ⟨hread, hslots⟩ := ih hrest
        refine ⟨List.forall_mem_cons.mpr ⟨fun j field' hj hfield' => ?_, hread⟩, ?_⟩
        · rw [hindex j hj, hfield] at hfield'
          exact ⟨v, Option.some.inj hfield' ▸ hv⟩
        · refine List.forall_mem_cons.mpr ⟨⟨p, List.mem_cons_self .., hi⟩, fun slot hs => ?_⟩
          obtain ⟨q, hq, hqi⟩ := hslots slot hs
          exact ⟨q, List.mem_cons_of_mem _ hq, hqi⟩

/-- Nothing stands in for a member that has to be present. -/
theorem buildField_absent {member : SchemaRef} (hp : (s.model.traits member).mustBePresent = true)
    (field : Field ValueType) (v : Value) : buildField s standin S member field none ≠ .ok v := by
  obtain ⟨hrequired, hdefault⟩ : (s.model.traits member).required = true ∧
      (s.model.traits member).default.all Default.isNull = true := by
    simpa [Traits.mustBePresent] using hp
  have hresolve (type : ValueType) :
      resolveDefault s.model standin type member none = .ok none := by
    unfold resolveDefault
    cases hd : (s.model.traits member).default with
    | none => rfl
    | some d =>
        rw [hd] at hdefault
        exact if_pos hdefault
  have hnone (type : ValueType) (w : Value) :
      requiredOrDefault s.model standin type member S none ≠ .ok w := by
    rw [requiredOrDefault, hresolve]
    nofun
  intro h
  unfold buildField at h
  split at h
  · obtain ⟨w, hw, -⟩ := Result.map_eq_ok.mp h
    simp only [optionalOrDefault, hrequired] at hw
    obtain ⟨w, hw, -⟩ := Result.map_eq_ok.mp hw
    exact hnone _ w hw
  · exact hnone _ v h

/-- Every field of a record is built from its slot. -/
theorem of_buildFields {slots : List (Nat × Value)} {index : Nat} {fields : List (Field ValueType)}
    {vs : List Value} (h : buildFields s standin S slots index fields = .ok vs) {i : Nat}
    {field : Field ValueType} (hi : fields[i]? = some field) {member : SchemaRef}
    (hm : s.model.memberAt? S (index + i) = some member) :
    ∃ v, buildField s standin S member field (slot? (index + i) slots) = .ok v := by
  induction fields generalizing index i vs with
  | nil => simp at hi
  | cons first fields ih =>
      rw [buildFields] at h
      obtain ⟨found, hfound, h⟩ := Result.bind_eq_ok.mp h
      obtain ⟨v, hv, h⟩ := Result.bind_eq_ok.mp h
      obtain ⟨rest, hrest, -⟩ := Result.bind_eq_ok.mp h
      cases i with
      | zero =>
          obtain rfl : member = found :=
            Option.some.inj (hm.symm.trans (Model.memberAt_eq_ok_iff.mp hfound))
          obtain rfl : first = field := Option.some.inj hi
          exact ⟨v, hv⟩
      | succ i =>
          rw [show index + (i + 1) = index + 1 + i by omega] at hm ⊢
          exact ih hrest hi hm

/-- A member that has to be present fills the slot of its field. -/
theorem exists_slot_of_buildFields {slots : List (Nat × Value)} {index : Nat}
    {fields : List (Field ValueType)} {vs : List Value}
    (h : buildFields s standin S slots index fields = .ok vs) {i : Nat} (hi : i < fields.length)
    {member : SchemaRef} (hm : s.model.memberAt? S (index + i) = some member)
    (hp : (s.model.traits member).mustBePresent = true) : ∃ slot ∈ slots, slot.1 = index + i := by
  obtain ⟨v, hv⟩ := of_buildFields h (List.getElem?_eq_getElem hi) hm
  by_contra hnone
  have hunfilled : slot? (index + i) slots = none := by
    refine slot?_of_notMem fun hin => hnone ?_
    obtain ⟨slot, hslot, hindex⟩ := List.mem_map.mp hin
    exact ⟨slot, hslot, hindex⟩
  rw [hunfilled] at hv
  exact buildField_absent hp _ v hv

/-! ### Values that come out -/

variable {t : Tree Label Leaf} {v : Value}

/-- A list that is read has elements that are. -/
theorem of_valueWith_list {element : ValueType}
    (h : valueWith src s standin t (.list element) depth S = .ok v) :
    ∃ member l items, ∃ us : List (Tree Label Leaf), s.model.listMember S = .ok member ∧
      depth < s.config.maxDepth ∧ t = .list l items ∧ s.kept S Tree.isNull items = us.map .ok ∧
      ∀ u ∈ us, ∃ w, valueWith src s standin u element (depth + 1) member = .ok w := by
  rw [valueWith_eq, readNode] at h
  obtain ⟨member, hm, h⟩ := Result.bind_eq_ok.mp h
  obtain ⟨kept, hopen, h⟩ := Result.bind_eq_ok.mp h
  obtain ⟨vs, hvs, -⟩ := Result.bind_eq_ok.mp h
  obtain ⟨hd, l, items, rfl, rfl⟩ := (src.openList_eq_ok s.toScope).mp hopen
  obtain ⟨us, hk, hus⟩ := exists_of_readItems hvs
  exact ⟨member, l, items, us, hm, hd, rfl, hk, hus⟩

/-- No list is read under a schema that has no elements. -/
theorem valueWith_list_ne_ok {e : Error} (hm : s.model.listMember S = .error e)
    (t : Tree Label Leaf) {element : ValueType} (v : Value) :
    valueWith src s standin t (.list element) depth S ≠ .ok v := by
  intro hv
  obtain ⟨member, -, -, -, hmember, -⟩ := of_valueWith_list hv
  exact nomatch hm.symm.trans hmember

/-- A map that is read has entries that are. -/
theorem of_valueWith_map {sorted : Bool} {type : ValueType}
    (h : valueWith src s standin t (.map sorted type) depth S = .ok v) :
    ∃ member l entries, ∃ us : List (String × Tree Label Leaf),
      s.model.mapValue S = .ok member ∧ depth < s.config.maxDepth ∧ t = .map l entries ∧
      s.kept S (fun e => e.2.isNull) entries = us.map .ok ∧
      ∀ u ∈ us, ∃ w, valueWith src s standin u.2 type (depth + 1) member = .ok w := by
  rw [valueWith_eq, readNode] at h
  obtain ⟨member, hm, h⟩ := Result.bind_eq_ok.mp h
  obtain ⟨kept, hopen, h⟩ := Result.bind_eq_ok.mp h
  obtain ⟨vs, hvs, -⟩ := Result.bind_eq_ok.mp h
  obtain ⟨hd, l, entries, rfl, rfl⟩ := (src.openMap_eq_ok s.toScope).mp hopen
  obtain ⟨us, hk, hus⟩ := exists_of_readEntries hvs
  exact ⟨member, l, entries, us, hm, hd, rfl, hk, hus⟩

/-- No map is read under a schema that has no values. -/
theorem valueWith_map_ne_ok {e : Error} (hm : s.model.mapValue S = .error e)
    (t : Tree Label Leaf) {sorted : Bool} {type : ValueType} (v : Value) :
    valueWith src s standin t (.map sorted type) depth S ≠ .ok v := by
  intro hv
  obtain ⟨member, -, -, -, hmember, -⟩ := of_valueWith_map hv
  exact nomatch hm.symm.trans hmember

/-- A record that is read has members that are, among them all that have to be present. -/
theorem of_valueWith_record {type : Nat} {fields : List (Field ValueType)}
    (hb : (s.types.get type).body = .record fields)
    (h : valueWith src s standin t (.named type) depth S = .ok v) :
    ∃ l entries, depth < s.config.maxDepth ∧ t = .map l entries ∧
      (∀ p ∈ src.presentMembers S Tree.isNull entries, ∀ i field,
        s.model.expectMemberIndex p.1 = .ok i → fields[i]? = some field →
          ∃ w, valueWith src s standin p.2 field.type.present (depth + 1) p.1 = .ok w) ∧
      ∀ i member, i < fields.length → s.model.memberAt? S i = some member →
        (s.model.traits member).mustBePresent = true →
          ∃ p ∈ src.presentMembers S Tree.isNull entries,
            s.model.expectMemberIndex p.1 = .ok i := by
  rw [valueWith_eq, readNode_named, readDeclared, hb] at h
  obtain ⟨present, hopen, h⟩ := Result.bind_eq_ok.mp h
  obtain ⟨slots, hslots, h⟩ := Result.bind_eq_ok.mp h
  obtain ⟨values, hfields, -⟩ := Result.bind_eq_ok.mp h
  obtain ⟨hd, l, entries, rfl, rfl⟩ := (src.openStructure_eq_ok s.toScope).mp hopen
  obtain ⟨hread, hfilled⟩ := of_readSlots hslots
  refine ⟨l, entries, hd, rfl, hread, fun i member hi hm hp => ?_⟩
  have hat : s.model.memberAt? S (0 + i) = some member := by rwa [Nat.zero_add]
  obtain ⟨slot, hslot, hindex⟩ := exists_slot_of_buildFields hfields hi hat hp
  obtain ⟨p, hp', hpi⟩ := hfilled slot hslot
  rw [hindex, Nat.zero_add] at hpi
  exact ⟨p, hp', hpi⟩

/-- A union that is read has one member, which is read if it is known. -/
theorem of_valueWith_union {type : Nat} {variants : List (Field ValueType)}
    {unknown : Option String} (hb : (s.types.get type).body = .union variants unknown)
    (h : valueWith src s standin t (.named type) depth S = .ok v) :
    ∃ l entries key u, depth < s.config.maxDepth ∧ t = .map l entries ∧
      src.candidates Tree.isNull entries = [(key, u)] ∧
      ∀ member, src.member? S key = some member → ∃ i variant w,
        s.model.expectMemberIndex member = .ok i ∧ variants[i]? = some variant ∧
        valueWith src s standin u variant.type (depth + 1) member = .ok w := by
  rw [valueWith_eq, readNode_named, readDeclared, hb] at h
  unfold readUnion at h
  obtain ⟨chosen, hopen, h⟩ := Result.bind_eq_ok.mp h
  obtain ⟨hd, l, entries, key, u, rfl, hc, rfl⟩ := (src.openUnion_eq_ok s.toScope).mp hopen
  refine ⟨l, entries, key, u, hd, rfl, hc, fun member hm => ?_⟩
  rw [Source.chosen, hm] at h
  obtain ⟨i, hi, h⟩ := Result.bind_eq_ok.mp h
  split at h
  · rename_i variant hv
    obtain ⟨w, hw, -⟩ := Result.bind_eq_ok.mp h
    exact ⟨i, variant, w, hi, hv, hw⟩
  · cases h

/-- What is not kept as unknown is among the constants. -/
theorem known_of_readConstant {α : Type} {type : Nat} {constants : List (Constant α)} {keeps : Bool}
    {wire : α → Scalar} {w : Scalar}
    (h : readConstant s type constants keeps S (fun a => wire a == w) w = .ok v) :
    w ∈ constants.map (fun c => wire c.value) ∨ keeps = true := by
  unfold readConstant at h
  split at h
  · rename_i i hi
    obtain ⟨hlt, hvalue, -⟩ := List.findIdx?_eq_some_iff_getElem.mp hi
    exact .inl (List.mem_map.mpr ⟨constants[i], List.getElem_mem hlt, eq_of_beq hvalue⟩)
  · by_cases hk : keeps = true
    · exact .inr hk
    · rw [if_neg hk] at h
      cases h

/-- What is read as a value of an enumeration is a scalar that the type knows or keeps. -/
theorem of_valueWith_enumeration {type : Nat} {wire : ScalarType}
    (hw : wireType? (s.types.get type).body = some wire)
    (h : valueWith src s standin t (.named type) depth S = .ok v) :
    ∃ w, src.scalar wire S t = .ok w ∧
      (w ∈ wireValues (s.types.get type).body ∨
        keepsUnknown (s.types.get type).body = true) := by
  rw [valueWith_eq, readNode_named, readDeclared] at h
  cases hb : (s.types.get type).body with
  | record fields => simp [hb, wireType?] at hw
  | union variants unknown => simp [hb, wireType?] at hw
  | words constants unknown =>
      obtain rfl : ScalarType.string = wire := by simpa [hb, wireType?] using hw
      rw [hb] at h
      obtain ⟨w, hscalar, h⟩ := Result.bind_eq_ok.mp h
      exact ⟨w, by rwa [Tree.partsWith_tree] at hscalar, known_of_readConstant h⟩
  | numbers constants unknown =>
      obtain rfl : ScalarType.integer .integer = wire := by simpa [hb, wireType?] using hw
      rw [hb] at h
      obtain ⟨w, hscalar, h⟩ := Result.bind_eq_ok.mp h
      exact ⟨w, by rwa [Tree.partsWith_tree] at hscalar, known_of_readConstant h⟩

end ShapeCodec.Typed
