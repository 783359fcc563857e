import Mathlib.Data.List.Forall2
import ShapeCodec.Gallery.Types
import ShapeCodec.Proofs.Layout
import ShapeCodec.Proofs.ValueRoundTrip
import ShapeCodec.Typed.Derive

/-!
# Enumerations that are accepted

A declaration with variants is accepted if it keeps a few rules, which say of each kind what its
known variants have to be. The kind itself is inferred, so the rules exclude each other. What an
accepted declaration declares takes its variants in order; the values on the wire are distinct, so
the first constant that has a value is the only one, and every value comes back as what it was.
-/

namespace ShapeCodec.Typed

namespace Item

/-! ### The rules -/

/-- The known variants of a union hold one value each, and none of them has a value on the wire. -/
structure MakesUnion (known : List VariantItem) : Prop where
  single : ∀ v ∈ known, v.isSingle = true
  unvalued : ∀ v ∈ known, v.value = none ∧ v.int = none

/-- The known variants of an enumeration of words hold nothing, and their words are distinct. -/
structure MakesWords (known : List VariantItem) : Prop where
  unit : ∀ v ∈ known, v.isUnit = true
  unnumbered : ∀ v ∈ known, v.int = none
  distinct : (known.map VariantItem.wireValue).Nodup

/-- The known variants of an enumeration of numbers all have a number, and no word. -/
structure MakesNumbers (known : List VariantItem) : Prop where
  unit : ∀ v ∈ known, v.isUnit = true
  numbered : ∀ v ∈ known, v.int.isSome = true ∧ v.value = none
  distinct : (known.filterMap VariantItem.int).Nodup

/-- The known variants are what a kind asks for. -/
def Makes : EnumerationKind → List VariantItem → Prop
  | .union => MakesUnion
  | .words => MakesWords
  | .numbers => MakesNumbers

/-- The rules for the variants of a declaration. -/
structure Consistent (variants : List VariantItem) : Prop where
  someKnown : known variants ≠ []
  oneUnknown : (unknowns variants).length ≤ 1
  unknownHolds : ∀ v ∈ unknowns variants, v.isSingle = true
  ofKind : ∃ kind, Makes kind (known variants)

section
variable {known : List VariantItem}

theorem not_isUnit_of_isSingle {v : VariantItem} (h : v.isSingle = true) : v.isUnit = false := by
  obtain ⟨name, holds, value, int, unknown⟩ := v
  cases holds with
  | positional types => rfl
  | nothing => simp [VariantItem.isSingle, VariantItem.single?] at h
  | named fields => rfl

/-! ### The kind of an enumeration -/

theorem kindOf_eq_numbers_iff : kindOf known = .numbers ↔
    (∀ v ∈ known, v.isUnit = true) ∧ ∃ v ∈ known, v.int.isSome = true := by
  unfold kindOf
  split
  · rename_i hunit
    have hunit := List.all_eq_true.mp hunit
    split
    · rename_i hint
      exact ⟨fun _ => ⟨hunit, List.any_eq_true.mp hint⟩, fun _ => rfl⟩
    · rename_i hint
      exact ⟨nofun, fun h => absurd (List.any_eq_true.mpr h.2) hint⟩
  · rename_i hunit
    exact ⟨nofun, fun h => absurd (List.all_eq_true.mpr h.1) hunit⟩

theorem kindOf_eq_words_iff : kindOf known = .words ↔
    (∀ v ∈ known, v.isUnit = true) ∧ ∀ v ∈ known, v.int = none := by
  have hnone : (∀ v ∈ known, v.int = none) ↔ ¬∃ v ∈ known, v.int.isSome = true := by
    simp [Option.isSome_iff_ne_none]
  rw [hnone]
  unfold kindOf
  split
  · rename_i hunit
    have hunit := List.all_eq_true.mp hunit
    split
    · rename_i hint
      exact ⟨nofun, fun h => absurd (List.any_eq_true.mp hint) h.2⟩
    · rename_i hint
      exact ⟨fun _ => ⟨hunit, fun h => hint (List.any_eq_true.mpr h)⟩, fun _ => rfl⟩
  · rename_i hunit
    exact ⟨nofun, fun h => absurd (List.all_eq_true.mpr h.1) hunit⟩

/-- Whatever is no enumeration counts as a union. -/
theorem kindOf_eq_union_iff : kindOf known = .union ↔ ¬∀ v ∈ known, v.isUnit = true := by
  rw [← List.all_eq_true]
  unfold kindOf
  split
  · rename_i hunit
    constructor
    · intro h
      split at h <;> cases h
    · exact fun h => absurd hunit h
  · rename_i hunit
    exact ⟨fun _ => hunit, fun _ => rfl⟩

/-! ### What is found wrong -/

theorem unknownFaults_eq_nil_iff {unknowns : List VariantItem} :
    unknownFaults unknowns = [] ↔
      unknowns.length ≤ 1 ∧ ∀ v ∈ unknowns, v.isSingle = true := by
  cases unknowns with
  | nil => simp [unknownFaults]
  | cons v rest =>
      cases rest with
      | nil => simp [unknownFaults]
      | cons second rest => simp [unknownFaults]

theorem mixtureFaults_eq_nil_iff : mixtureFaults known = [] ↔ known ≠ [] ∧
    ((∀ v ∈ known, v.isUnit = true) ∨ ∀ v ∈ known, v.isSingle = true) := by
  have hmixed : (known.all VariantItem.isUnit || known.all VariantItem.isSingle) = true ↔
      (∀ v ∈ known, v.isUnit = true) ∨ ∀ v ∈ known, v.isSingle = true := by
    rw [Bool.or_eq_true, List.all_eq_true, List.all_eq_true]
  rw [mixtureFaults, List.append_eq_nil_iff, ← hmixed]
  refine and_congr (by simp) ?_
  cases known.all VariantItem.isUnit || known.all VariantItem.isSingle <;> simp

theorem valueFault?_union {v : VariantItem} :
    valueFault? .union v = none ↔ v.value = none ∧ v.int = none := by
  simp [valueFault?]

theorem valueFault?_numbers {v : VariantItem} :
    valueFault? .numbers v = none ↔ v.int.isSome = true ∧ v.value = none := by
  cases hv : v.int <;> simp [valueFault?, hv]

theorem repeatFaults_words : repeatFaults .words known = [] ↔
    (known.map VariantItem.wireValue).Nodup := by
  have hnodup : firstRepeated? [] (known.map VariantItem.wireValue) = none ↔ _ :=
    firstRepeated?_eq_none_iff List.nodup_nil
  simpa [repeatFaults] using hnodup

theorem repeatFaults_numbers : repeatFaults .numbers known = [] ↔
    (known.filterMap VariantItem.int).Nodup := by
  have hvalue : Function.Injective (@Sized.value .integer) := by
    rintro ⟨n, hn⟩ ⟨_, _⟩ rfl
    rfl
  have hvalues : (known.filterMap fun v => v.int.map Sized.value) =
      (known.filterMap VariantItem.int).map Sized.value := List.map_filterMap.symm
  have hnodup : firstRepeated? [] (known.filterMap fun v => v.int.map Sized.value) = none ↔ _ :=
    firstRepeated?_eq_none_iff List.nodup_nil
  rw [List.nil_append, hvalues, List.nodup_map_iff hvalue, ← hvalues] at hnodup
  simpa [repeatFaults] using hnodup

/-- The kind that is inferred is the one that the known variants are what is asked for. -/
theorem kindOf_of_makes {kind : EnumerationKind} (hne : known ≠ []) (h : Makes kind known) :
    kindOf known = kind := by
  obtain ⟨first, hfirst⟩ := List.exists_mem_of_ne_nil known hne
  cases kind with
  | union =>
      have h : MakesUnion known := h
      refine kindOf_eq_union_iff.mpr fun hunit => ?_
      have hno := not_isUnit_of_isSingle (h.single first hfirst)
      exact Bool.false_ne_true (hno.symm.trans (hunit first hfirst))
  | words =>
      have h : MakesWords known := h
      exact kindOf_eq_words_iff.mpr ⟨h.unit, h.unnumbered⟩
  | numbers =>
      have h : MakesNumbers known := h
      exact kindOf_eq_numbers_iff.mpr ⟨h.unit, first, hfirst, (h.numbered first hfirst).1⟩

/-- Nothing is wrong with known variants exactly if they are what the kind inferred asks for. -/
theorem makes_kindOf_iff : Makes (kindOf known) known ↔
    ((∀ v ∈ known, v.isUnit = true) ∨ ∀ v ∈ known, v.isSingle = true) ∧
      (∀ v ∈ known, valueFault? (kindOf known) v = none) ∧
      repeatFaults (kindOf known) known = [] := by
  cases hkind : kindOf known with
  | union =>
      constructor
      · intro h
        have h : MakesUnion known := h
        exact ⟨.inr h.single, fun v hv => valueFault?_union.mpr (h.unvalued v hv), rfl⟩
      · rintro ⟨hmixed, hvalues, -⟩
        exact ⟨hmixed.resolve_left (kindOf_eq_union_iff.mp hkind),
          fun v hv => valueFault?_union.mp (hvalues v hv)⟩
  | words =>
      obtain ⟨hunit, hint⟩ := kindOf_eq_words_iff.mp hkind
      constructor
      · intro h
        exact ⟨.inl hunit, fun v _ => rfl, repeatFaults_words.mpr (MakesWords.distinct h)⟩
      · rintro ⟨-, -, hrepeated⟩
        exact ⟨hunit, hint, repeatFaults_words.mp hrepeated⟩
  | numbers =>
      obtain ⟨hunit, -⟩ := kindOf_eq_numbers_iff.mp hkind
      constructor
      · intro h
        have h : MakesNumbers known := h
        exact ⟨.inl hunit, fun v hv => valueFault?_numbers.mpr (h.numbered v hv),
          repeatFaults_numbers.mpr h.distinct⟩
      · rintro ⟨-, hvalues, hrepeated⟩
        exact ⟨hunit, fun v hv => valueFault?_numbers.mp (hvalues v hv),
          repeatFaults_numbers.mp hrepeated⟩

end

variable {variants : List VariantItem}

theorem Consistent.makes (h : Consistent variants) :
    Makes (kindOf (known variants)) (known variants) := by
  obtain ⟨kind, hkind⟩ := h.ofKind
  exact (kindOf_of_makes h.someKnown hkind).symm ▸ hkind

/-- Nothing is wrong with variants exactly if they keep the rules. -/
theorem faults_eq_nil_iff : faults variants = [] ↔ Consistent variants := by
  simp only [faults, List.append_eq_nil_iff, unknownFaults_eq_nil_iff, mixtureFaults_eq_nil_iff,
    List.filterMap_eq_nil_iff]
  constructor
  · rintro ⟨⟨⟨⟨hone, hholds⟩, hne, hmixed⟩, hvalues⟩, hrepeated⟩
    exact ⟨hne, hone, hholds, _, makes_kindOf_iff.mpr ⟨hmixed, hvalues, hrepeated⟩⟩
  · intro h
    obtain ⟨hmixed, hvalues, hrepeated⟩ := makes_kindOf_iff.mp h.makes
    exact ⟨⟨⟨⟨h.oneUnknown, h.unknownHolds⟩, h.someKnown, hmixed⟩, hvalues⟩, hrepeated⟩

/-- A declaration with variants is accepted exactly if they keep the rules. -/
theorem body_enumeration_iff {declared : Body TypeText} :
    Item.body (.enumeration variants) = .ok declared ↔
      Consistent variants ∧ declared = bodyOf variants := by
  rw [← faults_eq_nil_iff, Item.body]
  cases hf : faults variants with
  | nil => exact ⟨fun h => ⟨rfl, (Except.ok.inj h).symm⟩, fun h => congrArg Except.ok h.2.symm⟩
  | cons fault rest => exact ⟨nofun, fun h => by cases h.1⟩

/-! ### What is declared -/

/-- The name of the variant for what is not known. -/
def unknownName (variants : List VariantItem) : Option String :=
  (unknowns variants).head?.map fun v => plainName v.name

/-- What variants declare: the known ones in order, without the one for what is not known. -/
inductive Declares (variants : List VariantItem) : Body TypeText → Prop
  | union {declared : List (Field TypeText)} : MakesUnion (known variants) →
      List.Forall₂ (fun v d => d.name = plainName v.name ∧ v.holds = .positional [d.type])
        (known variants) declared →
      Declares variants (.union declared (unknownName variants))
  | words {declared : List (Constant String)} : MakesWords (known variants) →
      List.Forall₂ (fun v d => d.name = plainName v.name ∧ d.value = v.wireValue)
        (known variants) declared →
      Declares variants (.words declared (unknownName variants))
  | numbers {declared : List (Constant (Sized .integer))} : MakesNumbers (known variants) →
      List.Forall₂ (fun v d => d.name = plainName v.name ∧ v.int = some d.value)
        (known variants) declared →
      Declares variants (.numbers declared (unknownName variants))

/-- Where something is made of every element, it is made in order. -/
theorem forall₂_filterMap {α β : Type} {f : α → Option β} {xs : List α}
    (h : ∀ x ∈ xs, ∃ y, f x = some y) :
    List.Forall₂ (fun x y => f x = some y) xs (xs.filterMap f) := by
  induction xs with
  | nil => exact .nil
  | cons x xs ih =>
      obtain ⟨⟨y, hy⟩, h⟩ := List.forall_mem_cons.mp h
      rw [List.filterMap_cons_some hy]
      exact .cons hy (ih h)

theorem holds_of_single? {v : VariantItem} {type : TypeText} (h : v.single? = some type) :
    v.holds = .positional [type] := by
  unfold VariantItem.single? at h
  split at h
  · rename_i hv
    rw [hv, Option.some.inj h]
  · cases h

/-- Variants that keep the rules declare what is made of them. -/
theorem Consistent.declares (h : Consistent variants) : Declares variants (bodyOf variants) := by
  have hmakes := h.makes
  cases hkind : kindOf (known variants) with
  | union =>
      rw [hkind] at hmakes
      have hmakes : MakesUnion (known variants) := hmakes
      have hall : ∀ v ∈ known variants, ∃ d : Field TypeText,
          (v.single?.map fun type => ⟨plainName v.name, type⟩) = some d := fun v hv => by
        obtain ⟨type, htype⟩ := Option.isSome_iff_exists.mp (hmakes.single v hv)
        exact ⟨_, by rw [htype]; rfl⟩
      rw [bodyOf, hkind]
      refine .union hmakes ((forall₂_filterMap hall).imp fun v d hd => ?_)
      obtain ⟨type, htype, rfl⟩ := Option.map_eq_some_iff.mp hd
      exact ⟨rfl, holds_of_single? htype⟩
  | words =>
      rw [hkind] at hmakes
      rw [bodyOf, hkind]
      refine .words hmakes (List.forall₂_map_right_iff.mpr (List.forall₂_same.mpr fun v _ => ?_))
      exact ⟨rfl, rfl⟩
  | numbers =>
      rw [hkind] at hmakes
      have hmakes : MakesNumbers (known variants) := hmakes
      have hall : ∀ v ∈ known variants, ∃ d : Constant (Sized .integer),
          (v.int.map fun n => ⟨plainName v.name, n⟩) = some d := fun v hv => by
        obtain ⟨n, hn⟩ := Option.isSome_iff_exists.mp (hmakes.numbered v hv).1
        exact ⟨_, by rw [hn]; rfl⟩
      rw [bodyOf, hkind]
      refine .numbers hmakes ((forall₂_filterMap hall).imp fun v d hd => ?_)
      obtain ⟨n, hn, rfl⟩ := Option.map_eq_some_iff.mp hd
      exact ⟨rfl, hn⟩

end Item

/-! ### Values on the wire -/

/-- The same declaration, with the types that its texts stand for. -/
def Body.mapTypes {α β : Type} (f : α → β) : Body α → Body β
  | .record fields => .record (fields.map fun d => ⟨d.name, f d.type⟩)
  | .union variants unknown => .union (variants.map fun d => ⟨d.name, f d.type⟩) unknown
  | .words constants unknown => .words constants unknown
  | .numbers constants unknown => .numbers constants unknown

/-- What a variant of an enumeration is on the wire. -/
def VariantItem.wire? (declared : Body TypeText) (v : VariantItem) : Option Scalar :=
  match declared with
  | .words .. => some (.string v.wireValue)
  | .numbers .. => v.int.map (.integer .integer)
  | .record _ | .union .. => none

section
variable {variants : List VariantItem} {declared : Body TypeText} {type : ScalarType}

theorem map_eq_map_of_forall₂ {α β γ : Type} {R : α → β → Prop} {f : α → γ} {g : β → γ}
    {xs : List α} {ys : List β} (h : List.Forall₂ R xs ys) (hR : ∀ x y, R x y → f x = g y) :
    xs.map f = ys.map g := by
  induction h with
  | nil => rfl
  | cons hxy _ ih => rw [List.map_cons, List.map_cons, hR _ _ hxy, ih]

theorem exists_of_forall₂ {α β : Type} {R : α → β → Prop} {xs : List α} {ys : List β}
    (h : List.Forall₂ R xs ys) {i : Nat} {y : β} (hy : ys[i]? = some y) :
    ∃ x, xs[i]? = some x ∧ R x y := by
  induction h generalizing i with
  | nil => cases hy
  | cons hxy _ ih =>
      cases i with
      | zero => exact ⟨_, rfl, Option.some.inj hy ▸ hxy⟩
      | succ i => exact ih hy

/-- The values on the wire are those of the known variants, place by place. -/
theorem Item.Declares.map_wireValues (h : Declares variants declared) (f : TypeText → ValueType)
    (hw : wireType? (declared.mapTypes f) = some type) :
    (wireValues (declared.mapTypes f)).map some =
      (known variants).map (VariantItem.wire? declared) := by
  cases h with
  | union => cases hw
  | @words constants _ hall =>
      rw [Body.mapTypes, wireValues, List.map_map]
      refine (map_eq_map_of_forall₂ hall fun v d hd => ?_).symm
      rw [VariantItem.wire?, Function.comp_apply, hd.2]
  | @numbers constants _ hall =>
      rw [Body.mapTypes, wireValues, List.map_map]
      refine (map_eq_map_of_forall₂ hall fun v d hd => ?_).symm
      rw [VariantItem.wire?, Function.comp_apply, hd.2, Option.map_some]

/-- No two variants have the same value on the wire. -/
theorem Item.Declares.nodup_wireValues (h : Declares variants declared) (f : TypeText → ValueType) :
    (wireValues (declared.mapTypes f)).Nodup := by
  cases h with
  | union => exact List.nodup_nil
  | @words constants hmakes hall =>
      have hvalues : (known variants).map VariantItem.wireValue = constants.map Constant.value :=
        map_eq_map_of_forall₂ hall fun v d hd => hd.2.symm
      have hdistinct := hmakes.distinct
      rw [hvalues] at hdistinct
      have hstring : Function.Injective Scalar.string := fun _ _ => Scalar.string.inj
      simpa [Body.mapTypes, wireValues, Function.comp_def] using hdistinct.map hstring
  | @numbers constants hmakes hall =>
      have hints : (known variants).map VariantItem.int =
          constants.map fun d => some d.value := map_eq_map_of_forall₂ hall fun v d hd => hd.2
      have hvalues : (known variants).filterMap VariantItem.int = constants.map Constant.value := by
        rw [← Function.id_comp VariantItem.int, ← List.filterMap_map, hints, List.filterMap_map]
        simp
      have hdistinct := hmakes.distinct
      rw [hvalues] at hdistinct
      have hinteger : Function.Injective (Scalar.integer .integer) := fun m n h => by
        cases h
        rfl
      simpa [Body.mapTypes, wireValues, Function.comp_def] using hdistinct.map hinteger

theorem Item.Declares.keepsUnknown_iff (h : Declares variants declared) (f : TypeText → ValueType) :
    keepsUnknown (declared.mapTypes f) = true ↔ unknowns variants ≠ [] := by
  have hname : (unknownName variants).isSome = true ↔ unknowns variants ≠ [] := by
    rw [unknownName, Option.isSome_map]
    cases unknowns variants <;> simp
  cases h <;> exact hname

end

/-! ### In and out -/

/-- Whatever holds a scalar comes out as the same when it is read as a declared type. -/
def ReadAs (m : Model) (types : Table) (n : Nat) (S : SchemaRef) (w : Scalar) (r : Result Value) :
    Prop :=
  ∀ ⦃Label Leaf : Type⦄ (src : Source Label Leaf) (config : Config) (t : Tree Label Leaf),
    src.scalar w.type S t = .ok w → read src { model := m, config, types } (.named n) S t = r

/-- A scalar is read as a value, which is written as that scalar, in JSON and in documents. -/
structure Exchanged (m : Model) (types : Table) (n : Nat) (S : SchemaRef) (w : Scalar) (v : Value) :
    Prop where
  read : ReadAs m types n S w (.ok v)
  json : ∀ c : Codec,
    c.toJson m (v.calls m types S) = .ok (Json.ofScalar (c.config.timestampFormatFor m S) w) ∧
    ofJson m types (.named n) S c (Json.ofScalar (c.config.timestampFormatFor m S) w) = .ok v
  document : ∀ config label, v.toDocument m types S = .ok (.leaf { schema := S } w) ∧
    ofDocument m types (.named n) S config (.leaf label w) = .ok v

section
variable {m : Model} {types : Table} {n : Nat} {S : SchemaRef} {w : Scalar}

theorem plain_of_wireType? {body : Body ValueType} (hw : wireType? body = some w.type)
    (format : TimestampFormat) : w.Plain format := by
  cases w with
  | string text => exact trivial
  | integer width k => exact trivial
  | _ => cases body <;> cases hw

theorem type_of_mem_wireValues {body : Body ValueType} {type : ScalarType}
    (hw : wireType? body = some type) (hv : w ∈ wireValues body) : w.type = type := by
  cases body with
  | words constants unknown =>
      obtain ⟨c, -, rfl⟩ := List.mem_map.mp hv
      exact Option.some.inj hw
  | numbers constants unknown =>
      obtain ⟨c, -, rfl⟩ := List.mem_map.mp hv
      exact Option.some.inj hw
  | _ => cases hw

theorem Value.calls_ofWire (hw : wireType? (types.get n).body = some w.type) :
    (Value.ofWire (wireValues (types.get n).body) n w).calls m types S = .scalar S w := by
  unfold Value.ofWire
  split
  · rename_i i hi
    obtain ⟨hlt, hvalue, -⟩ := List.findIdx?_eq_some_iff_getElem.mp hi
    have hget : (wireValues (types.get n).body)[i]? = some w := by
      rw [List.getElem?_eq_getElem hlt, eq_of_beq hvalue]
    rw [Value.calls, Value.constantValue_of_getElem? hget]
  · rw [Value.calls]
    simp [Value.writesUnknown_of_wireType? hw]

/-- What a type knows or keeps is read, and written again as it was. -/
theorem exchanged (hw : wireType? (types.get n).body = some w.type)
    (hk : w ∈ wireValues (types.get n).body ∨ keepsUnknown (types.get n).body = true) :
    Exchanged m types n S w (Value.ofWire (wireValues (types.get n).body) n w) := by
  have hread : ReadAs m types n S w
      (.ok (Value.ofWire (wireValues (types.get n).body) n w)) :=
    fun _ _ src config t ht => valueWith_enumeration hw ht hk
  refine ⟨hread, fun c => ⟨?_, ?_⟩, fun config label => ⟨?_, ?_⟩⟩
  · rw [Value.calls_ofWire hw]
    have hwrites : Writer.Writes m (c.scope m).sink (.scalar S w) S _ := Writer.writes_scalar rfl
    exact hwrites.write_eq_ok
  · exact hread (c.source m) c.config _ (Json.readScalar_ofScalar (plain_of_wireType? hw _))
  · rw [Value.toDocument, Value.calls_ofWire hw]
    have hwrites : Writer.Writes m (Document.sink m) (.scalar S w) S _ := Writer.writes_scalar rfl
    exact hwrites.write_eq_ok
  · exact hread (Document.source m) config _ (Document.readScalar_leaf m label w)

/-- What a type neither knows nor keeps is refused. -/
theorem readAs_refused (hw : wireType? (types.get n).body = some w.type)
    (hk : w ∉ wireValues (types.get n).body) (hu : keepsUnknown (types.get n).body = false) :
    ReadAs m types n S w (.error (.unknownVariant (m.shapeId S) (constantText w))) := by
  intro Label Leaf src config t ht
  have hconstant {α : Type} {constants : List (Constant α)} {wire : α → Scalar}
      (hk : w ∉ constants.map fun c => wire c.value) :
      readConstant { model := m, config, types } n constants false S (fun a => wire a == w) w =
        .error (.unknownVariant (m.shapeId S) (constantText w)) := by
    have hnone : constants.findIdx? (fun c => wire c.value == w) = none := by
      refine List.findIdx?_eq_none_iff.mpr fun c hc => ?_
      have hne : wire c.value ≠ w := fun he => hk (List.mem_map.mpr ⟨c, hc, he⟩)
      simpa using hne
    rw [readConstant, hnone]
    rfl
  rw [read, valueWith_eq, readNode_named, readDeclared]
  cases hb : (types.get n).body with
  | record fields => simp [hb, wireType?] at hw
  | union variants unknown => simp [hb, wireType?] at hw
  | words constants unknown =>
      rw [hb] at hw hk hu
      have htype : w.type = .string := (Option.some.inj hw).symm
      have hunknown : unknown.isSome = false := hu
      rw [htype] at ht
      simp only [Tree.partsWith_tree, ht, Result.ok_bind, hunknown]
      exact hconstant hk
  | numbers constants unknown =>
      rw [hb] at hw hk hu
      have htype : w.type = .integer .integer := (Option.some.inj hw).symm
      have hunknown : unknown.isSome = false := hu
      rw [htype] at ht
      simp only [Tree.partsWith_tree, ht, Result.ok_bind, hunknown]
      exact hconstant hk

/-- A document that holds a scalar is read as just one thing. -/
theorem ReadAs.unique {r r' : Result Value} (h : ReadAs m types n S w r)
    (h' : ReadAs m types n S w r') : r = r' := by
  have hscalar := Document.readScalar_leaf m { schema := S } w
  exact (h (Document.source m) {} _ hscalar).symm.trans (h' (Document.source m) {} _ hscalar)

/-- Where values are distinct, the constant that a value stands for is the one at its place. -/
theorem Value.ofWire_of_getElem? {values : List Scalar} (hn : values.Nodup) {i : Nat}
    (h : values[i]? = some w) (type : Nat) : ofWire values type w = .constant type i := by
  obtain ⟨hlt, rfl⟩ := List.getElem?_eq_some_iff.mp h
  have hfirst : values.findIdx? (· == values[i]) = some i := by
    refine List.findIdx?_eq_some_iff_getElem.mpr ⟨hlt, beq_self_eq_true _, fun j hj he => ?_⟩
    have heq := (hn.getElem_inj_iff).mp (eq_of_beq he)
    omega
  rw [ofWire, hfirst]

end

/-! ### What a program gets -/

/-- Values of a declared union go by the places of its known variants, on the way in and out. -/
structure GoesByPlace (m : Model) (types : Table) (n : Nat) (f : TypeText → ValueType)
    (variants : List VariantItem) : Prop where
  read : ∀ {Label Leaf : Type} (src : Source Label Leaf) (config : Config) (S : SchemaRef)
    (l : Label) (entries : Entries (Tree Label Leaf)) (key : String) (u : Tree Label Leaf)
    (member : SchemaRef) (i : Nat) (v : VariantItem) (text : TypeText), 0 < config.maxDepth →
    src.candidates Tree.isNull entries = [(key, u)] → src.member? S key = some member →
    m.expectMemberIndex member = .ok i → (Item.known variants)[i]? = some v →
    v.single? = some text →
    read src { model := m, config, types } (.named n) S (.map l entries) =
      (valueWith src { model := m, config, types } (standin m types) u (f text) 1 member).map
        (.variant n i)
  written : ∀ (S : SchemaRef) (i : Nat) (content : Value),
    (Value.variant n i content).calls m types S = .structure S
      [.ofResult ((m.memberAt (types.get n).schema i).map (content.calls m types))]

/--
Constants are what they are on the wire. What is not known is kept by an enumeration that has a
variant for it, and refused by one that has none.
-/
structure Lossless (m : Model) (types : Table) (n : Nat) (S : SchemaRef)
    (variants : List VariantItem) (declared : Body TypeText) (type : ScalarType) : Prop where
  known : ∀ i v w, (Item.known variants)[i]? = some v → v.wire? declared = some w →
    Exchanged m types n S w (.constant n i)
  kept : Item.unknowns variants ≠ [] → ∀ w, w.type = type → ∃ v, Exchanged m types n S w v
  refused : Item.unknowns variants = [] → ∀ w, w.type = type →
    ((∀ v ∈ Item.known variants, v.wire? declared ≠ some w) ↔
      ReadAs m types n S w (.error (.unknownVariant (m.shapeId S) (constantText w))))

section
variable {m : Model} {types : Table} {n : Nat} {f : TypeText → ValueType}
  {variants : List VariantItem} {declared : Body TypeText}

theorem goesByPlace {vs : List (Field TypeText)} {unknown : Option String}
    (h : Item.Declares variants (.union vs unknown))
    (hb : (types.get n).body = Body.mapTypes f (.union vs unknown)) :
    GoesByPlace m types n f variants := by
  refine ⟨?_, fun S i content => by rw [Value.calls]⟩
  intro Label Leaf src config S l entries key u member i v text hd hc hm hi hv htext
  cases h with
  | union _ hall =>
      obtain ⟨d, hget, -, hholds⟩ : ∃ d, vs[i]? = some d ∧ d.name = plainName v.name ∧
          v.holds = .positional [d.type] := exists_of_forall₂ hall.flip hv
      have hd' : d.type = text := by
        rw [VariantItem.single?, hholds] at htext
        exact Option.some.inj htext
      have hvariant : (vs.map fun d => (⟨d.name, f d.type⟩ : Field ValueType))[i]? =
          some ⟨d.name, f text⟩ := by
        rw [List.getElem?_map, hget, ← hd']
        rfl
      exact valueWith_known (s := { model := m, config, types }) hd hb l hc hm hi hvariant

theorem lossless (h : Item.Declares variants declared)
    (hb : (types.get n).body = declared.mapTypes f) (S : SchemaRef) {type : ScalarType}
    (hw : wireType? (types.get n).body = some type) :
    Lossless m types n S variants declared type := by
  have hplaces := h.map_wireValues f (hb ▸ hw)
  have hnodup := h.nodup_wireValues f
  have hkeeps := h.keepsUnknown_iff f
  rw [← hb] at hplaces hnodup hkeeps
  have hmem (w : Scalar) : w ∈ wireValues (types.get n).body ↔
      ∃ v ∈ Item.known variants, v.wire? declared = some w := by
    rw [← List.mem_map, ← hplaces]
    simp
  constructor
  · intro i v w hv hvw
    have hget : (wireValues (types.get n).body)[i]? = some w := by
      have hat : ((wireValues (types.get n).body).map some)[i]? = some (some w) := by
        rw [hplaces, List.getElem?_map, hv, Option.map_some, hvw]
      simpa [List.getElem?_map] using hat
    have hin := List.mem_of_getElem? hget
    rw [← Value.ofWire_of_getElem? hnodup hget n]
    exact exchanged (type_of_mem_wireValues hw hin ▸ hw) (.inl hin)
  · intro hsome w hwtype
    exact ⟨_, exchanged (hwtype ▸ hw) (.inr (hkeeps.mpr hsome))⟩
  · intro hnone w hwtype
    have hno : keepsUnknown (types.get n).body = false :=
      Bool.eq_false_iff.mpr fun hk => hkeeps.mp hk hnone
    have hout : (∀ v ∈ Item.known variants, v.wire? declared ≠ some w) ↔
        w ∉ wireValues (types.get n).body := by
      rw [hmem w]
      simp
    rw [hout]
    constructor
    · exact fun hk => readAs_refused (hwtype ▸ hw) hk hno
    · intro hrefused hk
      have hread := (exchanged (m := m) (S := S) (hwtype ▸ hw) (.inl hk)).read
      cases hrefused.unique hread

end

/--
A declaration with variants is accepted exactly if they keep the rules. What it then declares takes
its known variants in order: a union goes by their places, and the constants of an enumeration are
what they are on the wire, from where all that is not known is kept, or nothing of it.
-/
theorem accepted_enumerations (variants : List VariantItem) :
    ((∃ declared, Item.body (.enumeration variants) = .ok declared) ↔ Item.Consistent variants) ∧
    ∀ declared, Item.body (.enumeration variants) = .ok declared →
      Item.Declares variants declared ∧
      ∀ (f : TypeText → ValueType) (m : Model) (types : Table) (n : Nat),
        (types.get n).body = declared.mapTypes f →
        (∀ vs unknown, declared = .union vs unknown → GoesByPlace m types n f variants) ∧
        ∀ (S : SchemaRef) (type : ScalarType), wireType? (types.get n).body = some type →
          Lossless m types n S variants declared type := by
  refine ⟨⟨?_, fun h => ⟨_, Item.body_enumeration_iff.mpr ⟨h, rfl⟩⟩⟩, ?_⟩
  · rintro ⟨declared, h⟩
    exact (Item.body_enumeration_iff.mp h).1
  · intro declared h
    obtain ⟨hconsistent, rfl⟩ := Item.body_enumeration_iff.mp h
    have hdeclares := hconsistent.declares
    refine ⟨hdeclares, fun f m types n hb => ⟨fun vs unknown hunion => ?_, fun S type hw => ?_⟩⟩
    · rw [hunion] at hdeclares hb
      exact goesByPlace hdeclares hb
    · exact lossless hdeclares hb S hw

end ShapeCodec.Typed

namespace ShapeCodec.Gallery

open Typed (Declaration Item Table TypeText ValueType VariantItem)

/-- The variants of the color of the gallery, the last of which keeps what is not known. -/
def colors : List VariantItem :=
  [{ name := "Red", value := some "red" }, { name := "Green", value := some "green" },
    { name := "Blue" }, { name := "Unknown", holds := .positional [⟨"String"⟩], unknown := true }]

/-- The variants of a part; the first of them is not known and has no place. -/
def partVariants : List VariantItem :=
  [{ name := "Other", holds := .positional [⟨"String"⟩], unknown := true },
    { name := "Widget", holds := .positional [⟨"Widget"⟩] },
    { name := "Gadget", holds := .positional [⟨"Gadget"⟩] }]

/-- The types that the texts of the variants stand for. -/
def partType (text : TypeText) : ValueType :=
  if text.text = "Widget" then widget else gadget

def partDeclaration : Declaration where
  name := "Part"
  schema := schema model "t#Part"
  body := (Item.bodyOf partVariants).mapTypes partType

/-- A table of parts alone. -/
def partTable : Table :=
  { declarations := #[partDeclaration] }

/-- Colors are read from their words and an unknown one is kept; parts go by the known variants. -/
theorem accepted_enumerations_gallery :
    Typed.Lossless model types 0 (schema model "t#Color") colors (Item.bodyOf colors) .string ∧
      Typed.GoesByPlace model partTable 0 partType partVariants := by
  have hcolors : Item.body (.enumeration colors) = .ok (Item.bodyOf colors) := rfl
  have hparts : Item.body (.enumeration partVariants) = .ok (Item.bodyOf partVariants) := rfl
  obtain ⟨-, hcolor⟩ := (Typed.accepted_enumerations colors).2 _ hcolors
  obtain ⟨-, hpart⟩ := (Typed.accepted_enumerations partVariants).2 _ hparts
  exact ⟨(hcolor (fun _ => string) model types 0 rfl).2 _ _ rfl,
    (hpart partType model partTable 0 rfl).1 _ _ rfl⟩

end ShapeCodec.Gallery
