import Mathlib.Data.Finset.Prod
import Mathlib.Order.Monotone.Basic
import ShapeCodec.Proofs.Targets
import ShapeCodec.Proofs.ValueReading

/-!
# What stands in for absent members

A default is a scalar, an empty list or an empty map, so reading one leads on to other defaults only
where an empty map is read as a record. With every step more that defaults may take, no record loses
its value and some may gain one; a round in which none does is the last in which any could. There
are no more rounds than records under shapes, which is how many steps `standin` allows.
-/

namespace ShapeCodec.Typed

variable {m : Model} {types : Table}

/-! ### Ways of reading defaults -/

/-- The scope that defaults are read in. -/
def defaultScope (m : Model) (types : Table) : Scope :=
  { model := m, config := {}, types }

theorem defaultScope_room (m : Model) (types : Table) :
    0 < (defaultScope m types).config.maxDepth := by
  show 0 < 64
  omega

/-- What one way of reading makes of a default, the other one makes of it too. -/
def Standin.Within (a b : Standin) : Prop :=
  ∀ type S x v, a type S (.ofDefault x) = .ok v → b type S (.ofDefault x) = .ok v

/-- The fields of a record; other types have none. -/
def Table.fields (types : Table) (n : Nat) : List (Field ValueType) :=
  match (types.get n).body with
  | .record fields => fields
  | _ => []

/-- The fields of a record that nothing is there for. -/
def blank (m : Model) (types : Table) (standin : Standin) (n : Nat) (S : SchemaRef) :
    Result (List Value) :=
  buildFields (defaultScope m types) standin S [] 0 (types.fields n)

section
variable {a b : Standin} (h : a.Within b) {s : Scope} {S S' member : SchemaRef} {v : Value}
include h

theorem requiredOrDefault_of_within {type : ValueType} {value : Option Value}
    (hv : requiredOrDefault m a type member S value = .ok v) :
    requiredOrDefault m b type member S' value = .ok v := by
  unfold requiredOrDefault at hv ⊢
  obtain ⟨found, hfound, hv⟩ := Result.bind_eq_ok.mp hv
  have hfound' : resolveDefault m b type member value = .ok found := by
    unfold resolveDefault at hfound ⊢
    cases value with
    | some w => exact hfound
    | none =>
        cases hd : (m.traits member).default with
        | none =>
            rw [hd] at hfound
            exact hfound
        | some d =>
            rw [hd] at hfound
            by_cases hn : d.isNull = true
            · simpa only [hn, if_true] using hfound
            · simp only [hn] at hfound ⊢
              obtain ⟨w, hw, rfl⟩ := Result.map_eq_ok.mp hfound
              exact Result.map_eq_ok.mpr ⟨w, h _ _ _ _ hw, rfl⟩
  rw [hfound', Result.ok_bind]
  cases found with
  | some w => exact hv
  | none => cases hv

theorem buildField_of_within {field : Field ValueType} {value : Option Value}
    (hv : buildField s a S member field value = .ok v) :
    buildField s b S' member field value = .ok v := by
  unfold buildField at hv ⊢
  split at hv
  · obtain ⟨w, hw, rfl⟩ := Result.map_eq_ok.mp hv
    refine Result.map_eq_ok.mpr ⟨w, ?_, rfl⟩
    unfold optionalOrDefault at hw ⊢
    split at hw
    · exact hw
    · exact hw
    · obtain ⟨u, hu, rfl⟩ := Result.map_eq_ok.mp hw
      exact Result.map_eq_ok.mpr ⟨u, requiredOrDefault_of_within h hu, rfl⟩
  · exact requiredOrDefault_of_within h hv

/-- Fields keep their values under a schema that shows the same members. -/
theorem buildFields_of_within (ht : s.model.table? S = s.model.table? S')
    {slots : List (Nat × Value)} {index : Nat} {fields : List (Field ValueType)} {vs : List Value}
    (hv : buildFields s a S slots index fields = .ok vs) :
    buildFields s b S' slots index fields = .ok vs := by
  induction fields generalizing index vs with
  | nil => exact hv
  | cons field fields ih =>
      rw [buildFields] at hv ⊢
      obtain ⟨member, hm, hv⟩ := Result.bind_eq_ok.mp hv
      obtain ⟨w, hw, hv⟩ := Result.bind_eq_ok.mp hv
      obtain ⟨rest, hrest, hv⟩ := Result.bind_eq_ok.mp hv
      obtain rfl := Except.ok.inj hv
      have hm' : s.model.memberAt S' index = .ok member := by
        rw [Model.memberAt_eq_ok_iff] at hm ⊢
        rwa [Model.memberAt?, ← ht]
      rw [hm', Result.ok_bind, buildField_of_within h hw, Result.ok_bind, ih hrest]
      rfl

end

theorem blank_of_within {a b : Standin} (h : a.Within b) {n : Nat} {S S' : SchemaRef}
    (ht : m.table? S = m.table? S') {vs : List Value} (hvs : blank m types a n S = .ok vs) :
    blank m types b n S' = .ok vs := by
  rw [blank] at hvs ⊢
  exact buildFields_of_within (s := defaultScope m types) h ht hvs

/-! ### One default -/

/-- Nothing is inside of a default. -/
theorem partsWith_ofDefault {β : Type} (f g : Document → β) (x : Default) :
    (Document.ofDefault x).partsWith f = (Document.ofDefault x).partsWith g := by
  cases x <;> rfl

/-- Only an empty map can be gone into as a structure. -/
theorem openStructure_ofDefault {β : Type} (f : Document → β) {x : Default} (hx : x ≠ .emptyMap)
    (s : ShapeCodec.Scope) (S : SchemaRef) :
    ∃ e, (Document.source m).openStructure s 0 S ((Document.ofDefault x).partsWith f) =
      .error e := by
  rw [Source.openStructure]
  cases s.enter 0 with
  | error e => exact ⟨e, rfl⟩
  | ok =>
      cases x with
      | emptyMap => exact absurd rfl hx
      | _ => exact ⟨_, rfl⟩

/-- Since nothing is inside of a default, it does not matter what is made of its parts. -/
theorem standinWith_eq (f : Document → ValueReader) (a : Standin) (type : ValueType) (S : SchemaRef)
    (x : Default) : standinWith m types a type S (.ofDefault x) =
      readNode (Document.source m) (defaultScope m types) a ((Document.ofDefault x).partsWith f) type
        0 S := by
  rw [standinWith, valueWith_eq, partsWith_ofDefault _ f]
  rfl

/-- Only records ask for what stands in for members. -/
theorem readDeclared_of_not_record {Label Leaf : Type} {src : Source Label Leaf} {s : Scope}
    (a b : Standin) {n : Nat} (hb : ∀ fields, (s.types.get n).body ≠ .record fields) (depth : Nat)
    (S : SchemaRef) (node : Tree.Parts Label Leaf ValueReader) :
    readDeclared src s a n depth S node = readDeclared src s b n depth S node := by
  rw [readDeclared, readDeclared]
  cases hbody : (s.types.get n).body with
  | record fields => exact absurd hbody (hb fields)
  | _ => rfl

/-- As a record, a default is read like one that nothing is there for, or not at all. -/
theorem standinWith_record {n : Nat} {fields : List (Field ValueType)}
    (hb : (types.get n).body = .record fields) (S : SchemaRef) (x : Default) :
    (∀ a, standinWith m types a (.named n) S (.ofDefault x) =
        (blank m types a n S).map (.record n)) ∨
      ∃ e, ∀ a, standinWith m types a (.named n) S (.ofDefault x) = .error e := by
  by_cases hx : x = .emptyMap
  · refine .inl fun a => ?_
    have hread : standinWith m types a (.named n) S (.ofDefault .emptyMap) =
        (buildFields (defaultScope m types) a S [] 0 fields).map (.record n) :=
      valueWith_fields (defaultScope_room m types) hb _ []
    rw [hx, hread, blank, Table.fields, hb]
  · let unread : Document → ValueReader := fun _ _ _ _ => .error default
    obtain ⟨e, he⟩ := openStructure_ofDefault (m := m) unread hx (defaultScope m types).toScope S
    refine .inr ⟨e, fun a => ?_⟩
    have hbody : ((defaultScope m types).types.get n).body = .record fields := hb
    rw [standinWith_eq unread, readNode_named, readDeclared]
    simp only [hbody, readRecord, he]
    rfl

/-- A default is read without a look at others, or as a record that nothing is there for. -/
theorem standinWith_ofDefault (m : Model) (types : Table) (type : ValueType) (S : SchemaRef)
    (x : Default) :
    (∀ a b, standinWith m types a type S (.ofDefault x) =
        standinWith m types b type S (.ofDefault x)) ∨
      ∃ n, ∃ wrap : List Value → Value, ∀ a,
        standinWith m types a type S (.ofDefault x) = (blank m types a n S).map wrap := by
  have hnode := @standinWith_eq m types fun _ _ _ _ => .error default
  induction type with
  | scalar type => exact .inl fun a b => by rw [hnode, hnode, readNode, readNode]
  | document => exact .inl fun a b => by rw [hnode, hnode, readNode, readNode]
  | list element => exact .inl fun a b => by rw [hnode, hnode, readNode, readNode]
  | map sorted value => exact .inl fun a b => by rw [hnode, hnode, readNode, readNode]
  | option type ih =>
      cases hn : Tree.isNull (Document.ofDefault x) with
      | true =>
          obtain ⟨l, hl⟩ := Tree.isNull_eq_true hn
          have hnull (a : Standin) :
              standinWith m types a (.option type) S (.ofDefault x) = .ok .missing := by
            rw [hl]
            exact valueWith_null l type 0 S
          exact .inl fun a b => by rw [hnull, hnull]
      | false =>
          have hpresent (a : Standin) : standinWith m types a (.option type) S (.ofDefault x) =
              (standinWith m types a type S (.ofDefault x)).map .present :=
            valueWith_option hn type 0 S
          rcases ih with h | ⟨n, wrap, hwrap⟩
          · exact .inl fun a b => by rw [hpresent, hpresent, h a b]
          · refine .inr ⟨n, .present ∘ wrap, fun a => ?_⟩
            rw [hpresent, hwrap]
            cases blank m types a n S <;> rfl
  | named n =>
      by_cases hb : ∃ fields, (types.get n).body = .record fields
      · obtain ⟨fields, hb⟩ := hb
        rcases standinWith_record hb S x with hblank | ⟨e, hfails⟩
        · exact .inr ⟨n, .record n, hblank⟩
        · exact .inl fun a b => by rw [hfails, hfails]
      · refine .inl fun a b => ?_
        rw [hnode, hnode, readNode_named, readNode_named]
        exact readDeclared_of_not_record (s := defaultScope m types) a b (not_exists.mp hb) 0 S _

/-- With more records at hand, more defaults have values. -/
theorem standinWith_within {a b : Standin}
    (h : ∀ n S vs, blank m types a n S = .ok vs → blank m types b n S = .ok vs) :
    Standin.Within (standinWith m types a) (standinWith m types b) := by
  intro type S x v hv
  rcases standinWith_ofDefault m types type S x with hsame | ⟨n, wrap, hwrap⟩
  · exact hsame b a ▸ hv
  · rw [hwrap] at hv ⊢
    obtain ⟨vs, hvs, rfl⟩ := Result.map_eq_ok.mp hv
    exact Result.map_eq_ok.mpr ⟨vs, h n S vs hvs, rfl⟩

/-! ### Steps -/

/-- One step more takes nothing back. -/
theorem standinAt_within_succ (m : Model) (types : Table) (k : Nat) :
    Standin.Within (standinAt m types k) (standinAt m types (k + 1)) := by
  induction k with
  | zero => exact fun _ _ _ _ h => nomatch h
  | succ k ih => exact standinWith_within fun _ _ _ => blank_of_within ih rfl

/-! ### Records that do not depend on defaults -/

/-- Only the members of declared shapes have defaults. -/
theorem default_eq_none {S member : SchemaRef} {i : Nat} (hm : m.memberAt? S i = some member)
    (hS : ∀ j < m.shapes.size, m.table? S ≠ some (.declared j)) :
    (m.traits member).default = none := by
  obtain ⟨key, hkey, hi, rfl⟩ := Model.memberAt?_eq_some_iff.mp hm
  cases key with
  | declared j =>
      have hj : ¬j < m.shapes.size := fun hj => hS j hj hkey
      have hshape : m.shape (.declared j) = PreludeShape.document.shape := by
        simp [Model.shape, hj]
      rw [hshape] at hi
      exact absurd hi (Nat.not_lt_zero i)
  | prelude p =>
      have hplain : ∀ d ∈ p.members, d.traits = {} := by
        cases p <;> simp [PreludeShape.members]
      obtain ⟨d, hd⟩ : ∃ d, p.members[i]? = some d := ⟨_, List.getElem?_eq_getElem hi⟩
      have hdeclared : m.declaration? (.prelude p) i = some d := hd
      rw [Model.traits, hdeclared]
      exact congrArg Traits.default (hplain d (List.mem_of_getElem? hd))

theorem buildFields_of_no_default {s : Scope} {S : SchemaRef} (a b : Standin)
    (hS : ∀ i member, s.model.memberAt? S i = some member →
      (s.model.traits member).default = none)
    (slots : List (Nat × Value)) (index : Nat) (fields : List (Field ValueType)) :
    buildFields s a S slots index fields = buildFields s b S slots index fields := by
  induction fields generalizing index with
  | nil => rfl
  | cons field fields ih =>
      rw [buildFields, buildFields]
      cases hm : s.model.memberAt S index with
      | error e => rfl
      | ok member =>
          have hnone := hS index member (Model.memberAt_eq_ok_iff.mp hm)
          have hresolve (type : ValueType) (value : Option Value) :
              resolveDefault s.model a type member value =
                resolveDefault s.model b type member value := by
            unfold resolveDefault
            rw [hnone]
            cases value <;> rfl
          have hfield (value : Option Value) :
              buildField s a S member field value = buildField s b S member field value := by
            simp only [buildField, optionalOrDefault, requiredOrDefault, hresolve]
          simp only [Result.ok_bind, hfield, ih]

/-- A record without fields, or under a schema without defaults, is the same in any case. -/
theorem blank_eq_of_outside (a b : Standin) {n : Nat} {S : SchemaRef}
    (h : ¬(n < types.size ∧ ∃ j < m.shapes.size, m.table? S = some (.declared j))) :
    blank m types a n S = blank m types b n S := by
  by_cases hn : n < types.size
  · have hS : ∀ j < m.shapes.size, m.table? S ≠ some (.declared j) :=
      fun j hj hkey => h ⟨hn, j, hj, hkey⟩
    exact buildFields_of_no_default a b (fun _ _ hm => default_eq_none hm hS) _ _ _
  · have hnone : types.fields n = [] := by
      have hget : types.get n = default := by
        have hsize : types.declarations.size ≤ n := Nat.le_of_not_lt hn
        simp [Table.get, hsize]
      rw [Table.fields, hget]
      rfl
    rw [blank, blank, hnone]
    rfl

/-! ### How many steps are enough -/

/-- The records, by place and shape, that have a value when defaults may take so many steps. -/
def settled (m : Model) (types : Table) (k : Nat) : Finset (Nat × Nat) :=
  (Finset.range types.size ×ˢ Finset.range m.shapes.size).filter fun p =>
    (blank m types (standinAt m types k) p.1 (.shape (.declared p.2))).isOk = true

theorem card_settled_le (m : Model) (types : Table) (k : Nat) :
    (settled m types k).card ≤ types.size * m.shapes.size := by
  refine (Finset.card_filter_le _ _).trans ?_
  rw [Finset.card_product, Finset.card_range, Finset.card_range]

theorem mem_settled {k : Nat} {p : Nat × Nat} : p ∈ settled m types k ↔
    (p.1 < types.size ∧ p.2 < m.shapes.size) ∧
      ∃ vs, blank m types (standinAt m types k) p.1 (.shape (.declared p.2)) = .ok vs := by
  rw [settled, Finset.mem_filter, Finset.mem_product, Finset.mem_range, Finset.mem_range,
    Result.isOk_iff]

theorem settled_subset_of_within {k l : Nat}
    (h : Standin.Within (standinAt m types k) (standinAt m types l)) :
    settled m types k ⊆ settled m types l := by
  intro p hp
  obtain ⟨hbounds, vs, hvs⟩ := mem_settled.mp hp
  exact mem_settled.mpr ⟨hbounds, vs, blank_of_within h rfl hvs⟩

theorem settled_subset_succ (m : Model) (types : Table) (k : Nat) :
    settled m types k ⊆ settled m types (k + 1) :=
  settled_subset_of_within (standinAt_within_succ m types k)

/-- Where one step more settles no record, it gives none a value either. -/
theorem blank_of_settled {k : Nat} (hk : settled m types (k + 1) ⊆ settled m types k) {n : Nat}
    {S : SchemaRef} {vs : List Value}
    (hvs : blank m types (standinAt m types (k + 1)) n S = .ok vs) :
    blank m types (standinAt m types k) n S = .ok vs := by
  by_cases hin : n < types.size ∧ ∃ j < m.shapes.size, m.table? S = some (.declared j)
  · obtain ⟨hn, j, hj, hkey⟩ := hin
    have htable : m.table? S = m.table? (.shape (.declared j)) := hkey
    have hshown : blank m types (standinAt m types (k + 1)) n (.shape (.declared j)) = .ok vs :=
      blank_of_within (fun _ _ _ _ h => h) htable hvs
    have hsettled : (n, j) ∈ settled m types (k + 1) := mem_settled.mpr ⟨⟨hn, hj⟩, vs, hshown⟩
    obtain ⟨-, ws, hws⟩ := mem_settled.mp (hk hsettled)
    -- the value that is there already is the one that stays
    have hsame := blank_of_within (standinAt_within_succ m types k) rfl hws
    obtain rfl := Except.ok.inj (hshown.symm.trans hsame)
    exact blank_of_within (fun _ _ _ _ h => h) htable.symm hws
  · rwa [blank_eq_of_outside _ (standinAt m types (k + 1)) hin]

theorem standinAt_within_of_settled {k : Nat} (hk : settled m types (k + 1) ⊆ settled m types k) :
    Standin.Within (standinAt m types (k + 2)) (standinAt m types (k + 1)) :=
  standinWith_within fun _ _ _ => blank_of_settled hk

/-- A round that settles no record is the last that could. -/
theorem settled_stable (k : Nat) (hk : (settled m types k).card = (settled m types (k + 1)).card) :
    (settled m types (k + 1)).card = (settled m types (k + 2)).card := by
  have heq := Finset.eq_of_subset_of_card_le (settled_subset_succ m types k) (Nat.le_of_eq hk.symm)
  have hback := settled_subset_of_within (standinAt_within_of_settled heq.symm.subset)
  exact congrArg Finset.card ((settled_subset_succ m types (k + 1)).antisymm hback)

/-- One step less than `standin` allows gives a record the same value. -/
theorem blank_standin_iff {n : Nat} {S : SchemaRef} {vs : List Value} :
    blank m types (standinAt m types (types.size * m.shapes.size)) n S = .ok vs ↔
      blank m types (standin m types) n S = .ok vs := by
  have hmono : Monotone fun k => (settled m types k).card :=
    monotone_nat_of_le_succ fun k => Finset.card_le_card (settled_subset_succ m types k)
  have hcard := Nat.stabilises_of_monotone hmono (card_settled_le m types) settled_stable
    (Nat.le_succ (types.size * m.shapes.size))
  have hsettled := Finset.eq_of_subset_of_card_le
    (settled_subset_succ m types (types.size * m.shapes.size)) (Nat.le_of_eq hcard)
  constructor
  · exact blank_of_within (standinAt_within_succ m types _) rfl
  · exact blank_of_settled hsettled.symm.subset

end ShapeCodec.Typed
