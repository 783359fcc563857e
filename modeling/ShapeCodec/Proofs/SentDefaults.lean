import ShapeCodec.Proofs.Integers
import ShapeCodec.Proofs.LateBinding
import ShapeCodec.Proofs.Standins
import ShapeCodec.Proofs.ValueParts
import ShapeCodec.Proofs.WholeFloats

/-!
# Defaults that are sent

A default that stands in for an absent member is read from a document, and one that is sent is read
from JSON. The document says what kind of scalar it holds where JSON leaves that open: a text on the
wire may also be bytes, a float or a time, and a number is a time only if times are numbers there.
For a type that only one of the two could be read as, a default is ambiguous; as any other type both
are read alike, whatever further defaults that leads to.
-/

namespace ShapeCodec

/-! ### Defaults on the wire -/

/-- The JSON form of a default. -/
def Json.ofDefault : Default → Json
  | .null => .null
  | .boolean b => .boolean b
  | .integer n => .number (.ofInt n.value)
  | .float x => Json.ofFloat .wire x
  | .string s => .string s
  | .blob bytes => .string (Base64.encode bytes)
  | .emptyList => .array []
  | .emptyMap => .object []

namespace Default

/-- The default is of the kind that values of a form are. -/
def Suits : Default → ShapeType.Form → Prop
  | boolean _, form => form = .scalar .boolean
  | integer _, form => ∃ width, form = .scalar (.integer width)
  | string _, form => form = .scalar .string
  | blob _, form => form = .scalar .blob
  | emptyList, form => form = .list
  | emptyMap, form => form = .map
  | null, _ | float _, _ => False

/-- Whether the default takes one more level of nesting. -/
def IsCollection (x : Default) : Prop :=
  x = emptyList ∨ x = emptyMap

variable {x : Default}

theorem Suits.isNull {form : ShapeType.Form} (h : x.Suits form) : x.isNull = false := by
  cases x <;> first | exact h.elim | rfl

theorem Suits.ne_float {form : ShapeType.Form} (h : x.Suits form) (y : Double) : x ≠ .float y := by
  rintro rfl
  exact h

/-- A default that suits its form is a scalar or an empty collection. -/
theorem Suits.scalar_or_empty {form : ShapeType.Form} (h : x.Suits form) :
    (∃ type, form = .scalar type) ∨ (form = .list ∧ x = .emptyList) ∨
      (form = .map ∧ x = .emptyMap) := by
  cases x with
  | null | float y => exact h.elim
  | boolean b | string text | blob bytes => exact .inl ⟨_, h⟩
  | integer n =>
      obtain ⟨width, hwidth⟩ := h
      exact .inl ⟨_, hwidth⟩
  | emptyList => exact .inr (.inl ⟨h, rfl⟩)
  | emptyMap => exact .inr (.inr ⟨h, rfl⟩)

theorem isNull_ofDefault (h : x.isNull = false) :
    (Document.ofDefault x).isNull = false ∧ (Json.ofDefault x).isNull = false := by
  cases x with
  | null => cases h
  | float y => cases y <;> exact ⟨rfl, rfl⟩
  | _ => exact ⟨rfl, rfl⟩

end Default

/-! ### Writing defaults -/

namespace Codec

variable (c : Codec) (m : Model)

/-- The document of a default is written as its JSON form. -/
theorem toJson_ofDefault (x : Default) :
    c.toJson m ((Document.ofDefault x).calls m (Document.ofDefault x).schema) =
      .ok (Json.ofDefault x) := by
  have hscalar (v : Scalar) : c.toJson m ((Document.ofScalar v).calls m (.scalar v.type)) =
      .ok ((c.scope m).scalar (.scalar v.type) v) := by
    have hform : (m.typeOf (.scalar v.type)).form = .scalar v.type := v.type.form_shapeType
    rw [Document.ofScalar, Document.calls_leaf hform, c.toJson_scalar]
  cases x with
  | null | emptyList | emptyMap => rfl
  | boolean b => exact hscalar (.boolean b)
  | integer n => exact hscalar (.integer .long n)
  | float x => exact hscalar (.double x)
  | string s => exact hscalar (.string s)
  | blob bytes => exact hscalar (.blob bytes)

/-- A long is written under an integer of any width as it is or not at all. -/
theorem eq_number_of_toJson {n : Sized .long} {width : IntWidth} {S : SchemaRef}
    (hf : (m.typeOf S).form = .scalar (.integer width)) {w : Json}
    (h : c.toJson m ((Document.ofScalar (.integer .long n)).calls m S) = .ok w) :
    w = .number (.ofInt n.value) := by
  have hread : ReadsExactly width n.value (Scalar.integer .long n).rangeText
      ((Scalar.integer .long n).as (.integer width)) :=
    Document.asScalar_integer width n default
  rw [Document.ofScalar, Document.calls_leaf_as hf] at h
  by_cases hn : width.Holds n.value
  · obtain ⟨k, hk, hok⟩ := hread.held hn
    have hvalue : w = .number (.ofInt k.value) := by
      rw [hok] at h
      exact (Except.ok.inj ((c.toJson_integer m k S).symm.trans h)).symm
    rw [hvalue, hk]
  · rw [hread.beyond hn] at h
    cases h

/-- Under the member that it stands in for, a default is written as its JSON form or not at all. -/
theorem eq_ofDefault_of_toJson {x : Default} {S : SchemaRef} (hx : x.Suits (m.typeOf S).form)
    {w : Json} (h : c.toJson m ((Document.ofDefault x).calls m S) = .ok w) :
    w = Json.ofDefault x := by
  have hown {v : Scalar} (hf : (m.typeOf S).form = .scalar v.type)
      (h : c.toJson m ((Document.ofScalar v).calls m S) = .ok w) :
      w = (c.scope m).scalar S v := by
    rw [Document.ofScalar, Document.calls_leaf hf, c.toJson_scalar] at h
    exact (Except.ok.inj h).symm
  cases x with
  | null | float y => exact hx.elim
  | boolean b => exact hown (v := .boolean b) hx h
  | string text => exact hown (v := .string text) hx h
  | blob bytes => exact hown (v := .blob bytes) hx h
  | integer n =>
      obtain ⟨width, hf⟩ := hx
      exact c.eq_number_of_toJson m hf h
  | emptyList =>
      rw [Document.ofDefault, Document.ofList] at h
      cases hm : m.listMember S with
      | ok member =>
          rw [Document.calls_list hm] at h
          exact (Except.ok.inj h).symm
      | error e =>
          rw [Document.calls_list_of_error hx hm] at h
          cases h
  | emptyMap =>
      rw [Document.ofDefault, Document.ofEntries] at h
      cases hm : m.mapValue S with
      | ok member =>
          rw [Document.calls_map hm] at h
          exact (Except.ok.inj h).symm
      | error e =>
          rw [Document.calls_map_of_error hx hm] at h
          cases h

end Codec

/-! ### Scalars of another type than the default -/

/-- A text that JSON has for a scalar of a type. -/
def Json.Spells (format : TimestampFormat) (text : String) : ScalarType → Prop
  | .string => True
  | .blob => ∃ bytes, Base64.decode text = .ok bytes
  | .float | .double => ∃ x, Json.namedFloat? text = some x
  | .timestamp => format.isNumeric = false ∧ ∃ t, format.parse text = .ok t
  | .boolean | .integer _ | .bigDecimal => False

theorem Json.exists_namedFloat {text : String} {type : ScalarType} {x : Double}
    (h : Json.readFloat type (.string text) = .ok x) : ∃ y, Json.namedFloat? text = some y := by
  simp only [Json.readFloat] at h
  split at h
  · rename_i hx
    exact ⟨_, hx⟩
  · cases h

theorem Json.spells_of_readScalar {format : TimestampFormat} {text : String} {type : ScalarType}
    {v : Scalar} (h : Json.readScalar format type (.string text) = .ok v) :
    Json.Spells format text type := by
  cases type with
  | boolean | integer width | bigDecimal => cases h
  | string => trivial
  | blob =>
      obtain ⟨bytes, hbytes, -⟩ := Result.map_eq_ok.mp h
      unfold Json.decodeBlob at hbytes
      split at hbytes
      · rename_i hdecode
        exact ⟨_, hdecode⟩
      · cases hbytes
  | float =>
      obtain ⟨x, hx, -⟩ := Result.map_eq_ok.mp h
      obtain ⟨y, hy, -⟩ := Result.bind_eq_ok.mp hx
      exact Json.exists_namedFloat hy
  | double =>
      obtain ⟨x, hx, -⟩ := Result.map_eq_ok.mp h
      exact Json.exists_namedFloat hx
  | timestamp =>
      obtain ⟨t, ht, -⟩ := Result.map_eq_ok.mp h
      simp only [Json.readTimestamp] at ht
      cases hn : format.isNumeric with
      | true =>
          rw [hn] at ht
          cases ht
      | false =>
          rw [hn] at ht
          exact ⟨hn, t, ht⟩

namespace Default

/--
The default could be read as a scalar of the type from only one of its document and its JSON form:
either the text that stands for it in JSON also stands for such a scalar, or it counts the seconds
of a time that is written as a text.
-/
def AmbiguousAs (format : TimestampFormat) : Default → ScalarType → Prop
  | string text, type => type ≠ .string ∧ Json.Spells format text type
  | blob bytes, type => type ≠ .blob ∧ Json.Spells format (Base64.encode bytes) type
  | integer n, type =>
    type = .timestamp ∧ format.isNumeric = false ∧ Instant.inRange n.value = true
  | _, _ => False

/-- A default is read the same way as a scalar of its own kind. -/
theorem not_ambiguousAs_of_suits {x : Default} {type : ScalarType} (h : x.Suits (.scalar type))
    (format : TimestampFormat) : ¬ x.AmbiguousAs format type := by
  cases x with
  | boolean b => exact id
  | integer n =>
      obtain ⟨width, hw⟩ := h
      rintro ⟨htype, -⟩
      obtain rfl := ShapeType.Form.scalar.inj hw
      cases htype
  | string text => exact fun ha => ha.1 (ShapeType.Form.scalar.inj h)
  | blob bytes => exact fun ha => ha.1 (ShapeType.Form.scalar.inj h)
  | null | float x | emptyList | emptyMap => exact id

/-- Words and numbers of enumerations are only mistaken for bytes. -/
theorem not_ambiguousAs_wire {x : Default} (hx : ∀ bytes, x ≠ .blob bytes) {wire : ScalarType}
    (hw : wire = .string ∨ wire = .integer .integer) (format : TimestampFormat) :
    ¬ x.AmbiguousAs format wire := by
  intro h
  cases x with
  | blob bytes => exact hx bytes rfl
  | integer n => rcases hw with rfl | rfl <;> cases h.1
  | string text =>
      rcases hw with rfl | rfl
      · exact h.1 rfl
      · exact h.2
  | null | boolean b | float y | emptyList | emptyMap => exact h

end Default

section
variable {m : Model} {format : TimestampFormat} {type : ScalarType}

/-- Numbers that are read exactly are read alike, whatever is said of those out of range. -/
theorem ReadsExactly.alike {target : IntWidth} {n : Int} {text text' : String}
    {r r' : Result Scalar} (h : ReadsExactly target n text r)
    (h' : ReadsExactly target n text' r') : Result.Alike r r' := by
  by_cases hn : target.Holds n
  · obtain ⟨⟨k, hk⟩, rfl, hr⟩ := h.held hn
    obtain ⟨⟨k', hk'⟩, rfl, hr'⟩ := h'.held hn
    rw [hr, hr']
    rfl
  · rw [h.beyond hn, h'.beyond hn]
    rfl

theorem Document.readScalar_boolean_alike (b : Bool) :
    Result.Alike (Document.readScalar m type (.ofScalar (.boolean b)))
      (Json.readScalar format type (.boolean b)) := by
  cases type <;> rfl

/-- A long is read alike unless it is taken for a time in one of the two. -/
theorem Document.readScalar_long_alike {n : Sized .long}
    (h : ¬ (Default.integer n).AmbiguousAs format type) :
    Result.Alike (Document.readScalar m type (.ofScalar (.integer .long n)))
      (Json.readScalar format type (.number (.ofInt n.value))) := by
  cases type with
  | boolean | string | blob => rfl
  | integer width =>
      have hread := Document.asScalar_integer width n { schema := .scalar (.integer .long) }
      exact hread.alike (Json.readInteger_whole width n.value)
  | float =>
      show Result.Alike _ ((Json.readSingle (.number (.ofInt n.value))).map Scalar.float)
      rw [Json.readSingle_ofInt n.fits]
      rfl
  | double =>
      show Result.Alike _ ((Json.readFloat .double (.number (.ofInt n.value))).map Scalar.double)
      rw [Json.readFloat_ofInt n.fits]
      rfl
  | bigDecimal =>
      show Result.Alike _ ((Json.readDecimal (.number (.ofInt n.value))).map Scalar.decimal)
      rw [Json.readDecimal_ofInt]
      rfl
  | timestamp =>
      show Result.Alike ((Instant.ofSeconds n.value).map Scalar.timestamp)
        ((Json.readTimestamp format (.number (.ofInt n.value))).map Scalar.timestamp)
      cases hn : format.isNumeric with
      | true =>
          simp only [Json.readTimestamp, hn, Json.instantOfNumber, Numeral.toInt?_ofInt,
            Option.filter, n.fits, if_true]
          rfl
      | false =>
          -- no number is a time in this format, so the seconds must not be one either
          have hrange : Instant.inRange n.value = false := by
            simpa [Default.AmbiguousAs, hn] using h
          simp only [Json.readTimestamp, hn, Instant.ofSeconds, hrange]
          rfl

/-- A document does not give a text or bytes as a scalar of another type. -/
theorem Document.readScalar_ne_ok {s v : Scalar} (hs : s.type = .string ∨ s.type = .blob)
    (ht : type ≠ s.type) (l : Label) : Document.readScalar m type (.leaf l s) ≠ .ok v := by
  intro h
  cases s with
  | string text => cases type <;> first | exact ht rfl | cases h
  | blob bytes => cases type <;> first | exact ht rfl | cases h
  | _ => simp [Scalar.type] at hs

/-- A text or bytes are read alike unless their form in JSON is ambiguous. -/
theorem Document.readScalar_text_alike {s : Scalar} {text : String}
    (hs : s.type = .string ∨ s.type = .blob)
    (hown : Json.readScalar format s.type (.string text) = .ok s)
    (h : ¬ (type ≠ s.type ∧ Json.Spells format text type)) :
    Result.Alike (Document.readScalar m type (.ofScalar s))
      (Json.readScalar format type (.string text)) := by
  by_cases ht : type = s.type
  · rw [ht, hown, Document.ofScalar, Document.readScalar_leaf]
    rfl
  · refine .of_fail (fun v => Document.readScalar_ne_ok hs ht _) fun v hv => ?_
    exact h ⟨ht, Json.spells_of_readScalar hv⟩

/-- A default is read as a scalar alike from its document and from its JSON form. -/
theorem Default.readScalar_alike {x : Default} (hx : x.isNull = false) (hf : ∀ y, x ≠ .float y)
    (h : ¬ x.AmbiguousAs format type) :
    Result.Alike (Document.readScalar m type (.ofDefault x))
      (Json.readScalar format type (.ofDefault x)) := by
  cases x with
  | null => cases hx
  | boolean b => exact Document.readScalar_boolean_alike b
  | integer n => exact Document.readScalar_long_alike h
  | float y => exact absurd rfl (hf y)
  | string text => exact Document.readScalar_text_alike (s := .string text) (.inl rfl) rfl h
  | blob bytes =>
      have hown : Json.readScalar format .blob (.string (Base64.encode bytes)) =
          .ok (.blob bytes) := Json.readScalar_ofScalar (v := .blob bytes) trivial
      exact Document.readScalar_text_alike (s := .blob bytes) (.inr rfl) hown h
  | emptyList | emptyMap => cases type <;> rfl

/-- Where it is ambiguous, it is read in one of the two ways at most. -/
theorem Default.not_both_of_ambiguousAs {x : Default} (h : x.AmbiguousAs format type)
    {v w : Scalar} (hv : Document.readScalar m type (.ofDefault x) = .ok v) :
    Json.readScalar format type (.ofDefault x) ≠ .ok w := by
  cases x with
  | null | boolean b | float y | emptyList | emptyMap => exact h.elim
  | string text =>
      exact absurd hv (Document.readScalar_ne_ok (s := .string text) (.inl rfl) h.1 _)
  | blob bytes =>
      exact absurd hv (Document.readScalar_ne_ok (s := .blob bytes) (.inr rfl) h.1 _)
  | integer n =>
      obtain ⟨rfl, hn, -⟩ := h
      intro hw
      obtain ⟨t, ht, -⟩ := Result.map_eq_ok.mp hw
      simp only [Json.ofDefault, Json.readTimestamp, hn] at ht
      cases ht

end

/-! ### Empty collections -/

namespace Default

variable {x : Default}

theorem eq_emptyList {l : Label} {items : List Document}
    (h : Document.ofDefault x = .list l items) : x = .emptyList := by
  cases x <;> first | rfl | cases h

theorem eq_emptyList_of_json {l : Unit} {items : List Json}
    (h : Json.ofDefault x = .list l items) : x = .emptyList := by
  cases x with
  | emptyList => rfl
  | float y => cases y <;> cases h
  | _ => cases h

theorem eq_emptyMap {l : Label} {entries : List (String × Document)}
    (h : Document.ofDefault x = .map l entries) : x = .emptyMap ∧ entries = [] := by
  cases x <;> first | exact ⟨rfl, (Tree.map.inj h).2.symm⟩ | cases h

theorem eq_emptyMap_of_json {l : Unit} {entries : List (String × Json)}
    (h : Json.ofDefault x = .map l entries) : x = .emptyMap ∧ entries = [] := by
  cases x with
  | emptyMap => exact ⟨rfl, (Tree.map.inj h).2.symm⟩
  | float y => cases y <;> cases h
  | _ => cases h

end Default

namespace Typed

/-- The default could be read as the type from only one of its document and its JSON form. -/
def Ambiguous (types : Table) (format : TimestampFormat) (x : Default) : ValueType → Prop
  | .scalar type => x.AmbiguousAs format type
  | .option type => Ambiguous types format x type
  | .named n =>
    wireType? (types.get n).body = some .string ∧ ∃ bytes, x = .blob bytes ∧
      (.string (Base64.encode bytes) ∈ wireValues (types.get n).body ∨
        keepsUnknown (types.get n).body = true)
  | .document | .list _ | .map .. => False

/-- What a default that is sent is read as, one level below the structure that it is sent in. -/
def sent (c : Codec) (m : Model) (types : Table) (type : ValueType) (S : SchemaRef) (x : Default) :
    Result Value :=
  valueWith (c.source m) { model := m, config := c.config, types } (standin m types)
    (Json.ofDefault x) type 1 S

section
variable {m : Model} {types : Table} {c : Codec} {S : SchemaRef} {x : Default}

/-- Empty lists are read alike, and nothing else is read as a list. -/
theorem sent_list_alike (hroom : x.IsCollection → 1 < c.config.maxDepth) (element : ValueType) :
    Result.Alike (standin m types (.list element) S (.ofDefault x))
      (sent c m types (.list element) S x) := by
  by_cases hx : x = .emptyList
  · subst hx
    have hd := hroom (.inl rfl)
    cases hm : m.listMember S with
    | ok member =>
        have hstandin : standin m types (.list element) S (.ofDefault .emptyList) =
            .ok (.list []) :=
          valueWith_items (s := defaultScope m types) (defaultScope_room m types) hm _ [] element
        have hsent : sent c m types (.list element) S .emptyList = .ok (.list []) :=
          valueWith_items (s := { model := m, config := c.config, types }) hd hm _ [] element
        rw [hstandin, hsent]
        rfl
    | error e =>
        let scope : Scope := { model := m, config := c.config, types }
        exact .of_fail (valueWith_list_ne_ok (s := defaultScope m types) hm _)
          (valueWith_list_ne_ok (s := scope) hm _)
  · refine .of_fail (fun v hv => ?_) fun v hv => ?_
    · obtain ⟨-, l, items, -, -, -, ht, -⟩ := of_valueWith_list hv
      exact hx (Default.eq_emptyList ht)
    · obtain ⟨-, l, items, -, -, -, ht, -⟩ := of_valueWith_list hv
      exact hx (Default.eq_emptyList_of_json ht)

/-- Empty maps are read alike, and nothing else is read as a map. -/
theorem sent_map_alike (hroom : x.IsCollection → 1 < c.config.maxDepth) (sorted : Bool)
    (type : ValueType) :
    Result.Alike (standin m types (.map sorted type) S (.ofDefault x))
      (sent c m types (.map sorted type) S x) := by
  by_cases hx : x = .emptyMap
  · subst hx
    have hd := hroom (.inr rfl)
    cases hm : m.mapValue S with
    | ok member =>
        have hstandin : standin m types (.map sorted type) S (.ofDefault .emptyMap) =
            .ok (.map []) :=
          valueWith_entries (s := defaultScope m types) (defaultScope_room m types) hm _ [] sorted
            type
        have hsent : sent c m types (.map sorted type) S .emptyMap = .ok (.map []) :=
          valueWith_entries (s := { model := m, config := c.config, types }) hd hm _ [] sorted type
        rw [hstandin, hsent]
        rfl
    | error e =>
        let scope : Scope := { model := m, config := c.config, types }
        exact .of_fail (valueWith_map_ne_ok (s := defaultScope m types) hm _)
          (valueWith_map_ne_ok (s := scope) hm _)
  · refine .of_fail (fun v hv => ?_) fun v hv => ?_
    · obtain ⟨-, l, entries, -, -, -, ht, -⟩ := of_valueWith_map hv
      exact hx (Default.eq_emptyMap ht).1
    · obtain ⟨-, l, entries, -, -, -, ht, -⟩ := of_valueWith_map hv
      exact hx (Default.eq_emptyMap_of_json ht).1

/-- An empty map is read as a record that nothing is there for, and nothing else as a record. -/
theorem sent_record_alike (hroom : x.IsCollection → 1 < c.config.maxDepth) {n : Nat}
    {fields : List (Field ValueType)} (hb : (types.get n).body = .record fields) :
    Result.Alike (standin m types (.named n) S (.ofDefault x))
      (sent c m types (.named n) S x) := by
  by_cases hx : x = .emptyMap
  · subst hx
    have hd := hroom (.inr rfl)
    have hfields : types.fields n = fields := by rw [Table.fields, hb]
    let scope : Scope := { model := m, config := c.config, types }
    have hmodel : (defaultScope m types).model = scope.model := rfl
    have hstandin : standin m types (.named n) S (.ofDefault .emptyMap) =
        (blank m types (standinAt m types (types.size * m.shapes.size)) n S).map (.record n) := by
      rw [blank, hfields]
      exact valueWith_fields (s := defaultScope m types) (defaultScope_room m types) hb _ []
    have hsent : sent c m types (.named n) S .emptyMap =
        (blank m types (standin m types) n S).map (.record n) := by
      rw [blank, hfields, buildFields_congr_model hmodel]
      exact valueWith_fields (s := scope) hd hb _ []
    rw [hstandin, hsent]
    exact Result.Alike.map (.of_ok_iff fun vs => blank_standin_iff) _
  · refine .of_fail (fun v hv => ?_) fun v hv => ?_
    · obtain ⟨l, entries, -, ht, -⟩ := of_valueWith_record (s := defaultScope m types) hb hv
      exact hx (Default.eq_emptyMap ht).1
    · obtain ⟨l, entries, -, ht, -⟩ :=
        of_valueWith_record (s := { model := m, config := c.config, types }) hb hv
      exact hx (Default.eq_emptyMap_of_json ht).1

/-- No default is a union, which has a member. -/
theorem sent_union_alike {n : Nat} {variants : List (Field ValueType)} {unknown : Option String}
    (hb : (types.get n).body = .union variants unknown) :
    Result.Alike (standin m types (.named n) S (.ofDefault x))
      (sent c m types (.named n) S x) := by
  refine .of_fail (fun v hv => ?_) fun v hv => ?_
  · obtain ⟨l, entries, key, u, -, ht, hc, -⟩ :=
      of_valueWith_union (s := defaultScope m types) hb hv
    rw [(Default.eq_emptyMap ht).2] at hc
    cases hc
  · obtain ⟨l, entries, key, u, -, ht, hc, -⟩ :=
      of_valueWith_union (s := { model := m, config := c.config, types }) hb hv
    rw [(Default.eq_emptyMap_of_json ht).2] at hc
    cases hc

section
variable {n : Nat} {wire : ScalarType} (hw : wireType? (types.get n).body = some wire)
include hw

/-- An enumeration takes the default of an absent member by the scalar in its document. -/
theorem scalar_of_standin {v : Value} (hv : standin m types (.named n) S (.ofDefault x) = .ok v) :
    ∃ w, Document.readScalar m wire (.ofDefault x) = .ok w ∧
      (w ∈ wireValues (types.get n).body ∨ keepsUnknown (types.get n).body = true) :=
  of_valueWith_enumeration (s := defaultScope m types) hw hv

/-- It takes one that is sent by the scalar in its JSON form. -/
theorem scalar_of_sent {v : Value} (hv : sent c m types (.named n) S x = .ok v) :
    ∃ w, Json.readScalar (c.config.timestampFormatFor m S) wire (.ofDefault x) = .ok w ∧
      (w ∈ wireValues (types.get n).body ∨ keepsUnknown (types.get n).body = true) :=
  of_valueWith_enumeration (s := { model := m, config := c.config, types }) hw hv

/-- Bytes are no word in a document, and unambiguous ones no word in JSON. -/
theorem sent_bytes_alike {bytes : Bytes}
    (ha : ¬ Ambiguous types (c.config.timestampFormatFor m S) (.blob bytes) (.named n)) :
    Result.Alike (standin m types (.named n) S (.ofDefault (.blob bytes)))
      (sent c m types (.named n) S (.blob bytes)) := by
  refine .of_fail (fun v hv => ?_) fun v hv => ?_
  · obtain ⟨w, hread, -⟩ := scalar_of_standin hw hv
    rcases eq_of_wireType? hw with rfl | rfl <;> cases hread
  · obtain ⟨w, hread, hknown⟩ := scalar_of_sent hw hv
    rcases eq_of_wireType? hw with rfl | rfl
    · obtain rfl := Except.ok.inj hread
      exact ha ⟨hw, bytes, rfl, hknown⟩
    · cases hread

/-- What a scalar is read as decides what it is read as a value of an enumeration. -/
theorem sent_enumeration_alike (hx : x.isNull = false) (hf : ∀ y, x ≠ .float y)
    (ha : ¬ Ambiguous types (c.config.timestampFormatFor m S) x (.named n)) :
    Result.Alike (standin m types (.named n) S (.ofDefault x))
      (sent c m types (.named n) S x) := by
  by_cases hblob : ∃ bytes, x = .blob bytes
  · obtain ⟨bytes, rfl⟩ := hblob
    exact sent_bytes_alike hw ha
  have hscalar : Result.Alike (Document.readScalar m wire (.ofDefault x))
      (Json.readScalar (c.config.timestampFormatFor m S) wire (.ofDefault x)) :=
    Default.readScalar_alike hx hf
      (Default.not_ambiguousAs_wire (fun bytes hb => hblob ⟨bytes, hb⟩) (eq_of_wireType? hw) _)
  have hboth {w : Scalar} (hread : Document.readScalar m wire (.ofDefault x) = .ok w)
      (hknown : w ∈ wireValues (types.get n).body ∨ keepsUnknown (types.get n).body = true) :
      standin m types (.named n) S (.ofDefault x) = sent c m types (.named n) S x := by
    obtain rfl := Document.type_of_readScalar hread
    have hstandin : standin m types (.named n) S (.ofDefault x) =
        .ok (Value.ofWire (wireValues (types.get n).body) n w) :=
      valueWith_enumeration (s := defaultScope m types) hw hread hknown
    have hsent : sent c m types (.named n) S x =
        .ok (Value.ofWire (wireValues (types.get n).body) n w) :=
      valueWith_enumeration (s := { model := m, config := c.config, types }) hw
        (hscalar.ok_iff.mp hread) hknown
    rw [hstandin, hsent]
  refine .of_ok_iff fun v => ⟨fun hv => ?_, fun hv => ?_⟩
  · obtain ⟨w, hread, hknown⟩ := scalar_of_standin hw hv
    exact hboth hread hknown ▸ hv
  · obtain ⟨w, hread, hknown⟩ := scalar_of_sent hw hv
    exact (hboth (hscalar.ok_iff.mpr hread) hknown).symm ▸ hv

end

/-- A default of the right kind for a schema is the same document, sent or not. -/
theorem sent_document_alike (hx : x.Suits (m.typeOf S).form)
    (hroom : x.IsCollection → 1 < c.config.maxDepth) :
    Result.Alike (standin m types .document S (.ofDefault x)) (sent c m types .document S x) := by
  let scope : Scope := { model := m, config := c.config, types }
  obtain ⟨hn, hn'⟩ := Default.isNull_ofDefault hx.isNull
  have hstandin : standin m types .document S (.ofDefault x) =
      (Reader.documentAt (Document.source m) (defaultScope m types).toScope
        (Document.ofDefault x) 0 S).map .document := valueWith_document _ 0 S
  have hsent : sent c m types .document S x =
      (Reader.documentAt (c.source m) scope.toScope (Json.ofDefault x) 1 S).map .document :=
    valueWith_document _ 1 S
  rw [hstandin, hsent]
  refine Result.Alike.map ?_ _
  rcases hx.scalar_or_empty with ⟨type, hform⟩ | ⟨hform, rfl⟩ | ⟨hform, rfl⟩
  · rw [hform] at hx
    rw [Reader.documentAt_scalar (s := (defaultScope m types).toScope) hform hn,
      Reader.documentAt_scalar (s := scope.toScope) hform hn']
    exact (Default.readScalar_alike hx.isNull hx.ne_float
      (Default.not_ambiguousAs_of_suits hx _)).map _
  · have henter := scope.toScope.enter_eq_ok.mpr (hroom (.inl rfl))
    cases hm : m.listMember S with
    | ok member =>
        rw [Json.ofDefault, Json.array, Document.ofDefault, Document.ofList,
          Reader.documentAt_list (s := (defaultScope m types).toScope) hm,
          Reader.documentAt_list (s := scope.toScope) hm, henter]
        rfl
    | error e =>
        rw [Json.ofDefault, Json.array, Document.ofDefault, Document.ofList,
          Reader.documentAt_list_of_error (s := (defaultScope m types).toScope) hform hm,
          Reader.documentAt_list_of_error (s := scope.toScope) hform hm]
        rfl
  · have henter := scope.toScope.enter_eq_ok.mpr (hroom (.inr rfl))
    cases hm : m.mapValue S with
    | ok member =>
        rw [Json.ofDefault, Json.object, Document.ofDefault, Document.ofEntries,
          Reader.documentAt_map (s := (defaultScope m types).toScope) hm,
          Reader.documentAt_map (s := scope.toScope) hm, henter]
        rfl
    | error e =>
        rw [Json.ofDefault, Json.object, Document.ofDefault, Document.ofEntries,
          Reader.documentAt_map_of_error (s := (defaultScope m types).toScope) hform hm,
          Reader.documentAt_map_of_error (s := scope.toScope) hform hm]
        rfl

section
variable (m : Model) (types : Table) (c : Codec) (S : SchemaRef) (x : Default)

theorem standin_scalar (type : ScalarType) : standin m types (.scalar type) S (.ofDefault x) =
    (Document.readScalar m type (.ofDefault x)).map .scalar :=
  valueWith_scalar _ type 0 S

theorem sent_scalar (type : ScalarType) : sent c m types (.scalar type) S x =
    (Json.readScalar (c.config.timestampFormatFor m S) type (.ofDefault x)).map .scalar :=
  valueWith_scalar _ type 1 S

variable {x} (hx : x.isNull = false)
include hx

theorem standin_option (type : ValueType) : standin m types (.option type) S (.ofDefault x) =
    (standin m types type S (.ofDefault x)).map .present :=
  valueWith_option (Default.isNull_ofDefault hx).1 type 0 S

theorem sent_option (type : ValueType) : sent c m types (.option type) S x =
    (sent c m types type S x).map .present :=
  valueWith_option (Default.isNull_ofDefault hx).2 type 1 S

end

/-- A default is read alike whether it is sent or not, unless it is ambiguous. -/
theorem sent_alike {type : ValueType} (hx : x.Suits (m.typeOf S).form)
    (ha : ¬ Ambiguous types (c.config.timestampFormatFor m S) x type)
    (hroom : x.IsCollection → 1 < c.config.maxDepth) :
    Result.Alike (standin m types type S (.ofDefault x)) (sent c m types type S x) := by
  induction type with
  | scalar type =>
      rw [standin_scalar, sent_scalar]
      exact (Default.readScalar_alike hx.isNull hx.ne_float ha).map _
  | document => exact sent_document_alike hx hroom
  | list element => exact sent_list_alike hroom element
  | map sorted type => exact sent_map_alike hroom sorted type
  | option type ih =>
      rw [standin_option m types S hx.isNull, sent_option m types c S hx.isNull]
      exact (ih ha).map _
  | named n =>
      cases hb : (types.get n).body with
      | record fields => exact sent_record_alike hroom hb
      | union variants unknown => exact sent_union_alike hb
      | words constants unknown =>
          exact sent_enumeration_alike (by rw [hb]; rfl) hx.isNull hx.ne_float ha
      | numbers constants unknown =>
          exact sent_enumeration_alike (by rw [hb]; rfl) hx.isNull hx.ne_float ha

/-- An ambiguous default is read in one of the two ways at most. -/
theorem not_both_of_ambiguous {type : ValueType} (hx : x.isNull = false)
    (ha : Ambiguous types (c.config.timestampFormatFor m S) x type) {v w : Value}
    (hv : standin m types type S (.ofDefault x) = .ok v) : sent c m types type S x ≠ .ok w := by
  intro hw
  induction type generalizing v w with
  | document | list element | map sorted type => exact ha.elim
  | scalar type =>
      rw [standin_scalar] at hv
      rw [sent_scalar] at hw
      obtain ⟨a, hdocument, -⟩ := Result.map_eq_ok.mp hv
      obtain ⟨b, hjson, -⟩ := Result.map_eq_ok.mp hw
      exact Default.not_both_of_ambiguousAs ha hdocument hjson
  | option type ih =>
      rw [standin_option m types S hx] at hv
      rw [sent_option m types c S hx] at hw
      obtain ⟨v, hv, -⟩ := Result.map_eq_ok.mp hv
      obtain ⟨w, hw, -⟩ := Result.map_eq_ok.mp hw
      exact ih ha hv hw
  | named n =>
      -- no word is read from bytes in a document
      obtain ⟨hwords, bytes, rfl, -⟩ := ha
      obtain ⟨a, hread, -⟩ := scalar_of_standin hwords hv
      cases hread

end
end Typed
end ShapeCodec
