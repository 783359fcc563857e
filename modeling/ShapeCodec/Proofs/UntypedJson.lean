import ShapeCodec.Codec
import ShapeCodec.Proofs.Calls
import ShapeCodec.Proofs.NumberValues
import ShapeCodec.Proofs.Untyped
import ShapeCodec.Proofs.Writing

/-!
# JSON that passes through a document

JSON without a schema becomes a document, and the document becomes JSON again. The documents in
between are walked along the schemas of generic containers, so lists and maps go through the writing
machine at every level. What comes back differs in how numbers are written and in nothing else, and
the numbers denote what they denoted.
-/

namespace ShapeCodec

variable {n : Numeral} {j : Json}

/-! ### Numbers -/

namespace Numeral

/-- The numeral that a number is written as when it comes back from a document. -/
def rewritten (n : Numeral) : Numeral :=
  match n.toScalar with
  | .integer _ k => .ofInt k.value
  | .double (.finite negative rank) => Binary.numeralOf .wire .double negative rank
  | .decimal d => d.numeral
  | _ => n

/-- If the number becomes a float, the wire and plain text have the same digits for that float. -/
def PrintsAlike (n : Numeral) : Prop :=
  ∀ negative rank, n.toScalar = .double (.finite negative rank) →
    (Binary.numeralOf .wire .double negative rank).toRat =
      (Binary.numeralOf .plain .double negative rank).toRat

/-- The digits are the same unless the float lies in the middle between two shortest decimals. -/
theorem printsAlike_of_shortest (h : ∀ negative (rank : Fin Binary.Format.double.limit),
    n.toScalar = .double (.finite negative rank) →
      Binary.shortest .toEven .double rank = Binary.shortest .up .double rank) :
    n.PrintsAlike := by
  intro negative rank hscalar
  by_cases hrank : (rank : Nat) = 0
  · rw [hrank, Binary.toRat_numeralOf_zero, Binary.toRat_numeralOf_zero]
  · have hdigits : Binary.shortest Binary.Style.wire.tie .double rank =
        Binary.shortest Binary.Style.plain.tie .double rank := h negative rank hscalar
    rw [Binary.toRat_numeralOf _ _ _ hrank, Binary.toRat_numeralOf _ _ _ hrank, hdigits]

/-- Numbers that do not become floats have one text only. -/
theorem printsAlike_of_ne (h : ∀ x, n.toScalar ≠ .double x) : n.PrintsAlike :=
  fun _ _ hscalar => absurd hscalar (h _)

/-- A float whose text denotes a decimal is a number, and the text denotes what the decimal does. -/
theorem exists_finite_of_isTextOf {x : Double} {d : Decimal} (h : isTextOf x d = true) :
    ∃ negative rank, x = .finite negative rank ∧
      (Binary.numeralOf .plain .double negative rank).toRat = d.toRat := by
  cases x with
  | nan => cases h
  | infinite negative => cases h
  | finite negative rank =>
      refine ⟨negative, rank, rfl, ?_⟩
      simp only [isTextOf, Binary.numeral?] at h
      cases he : Decimal.ofNumeral (Binary.numeralOf .plain .double negative rank) with
      | error e => simp [he] at h
      | ok e =>
          have hsame : e.same d = true := by simpa only [he] using h
          rw [← toRat_of_ofNumeral he, Decimal.toRat_of_same hsame]

/-- A number becomes a scalar that denotes it; a float does so by its plain text. -/
theorem Parses.toScalar_cases (hn : n.Parses) :
    (∃ width k, n.toScalar = .integer width k ∧ (k.value : Rat) = n.toRat) ∨
      (∃ negative rank, n.toScalar = .double (.finite negative rank) ∧
        (Binary.numeralOf .plain .double negative rank).toRat = n.toRat) ∨
      ∃ d, n.toScalar = .decimal d ∧ d.toRat = n.toRat := by
  obtain ⟨d, hd⟩ := hn
  have hvalue := toRat_of_ofNumeral hd
  cases hi : n.toInt? with
  | some i =>
      obtain ⟨width, k, hscalar, hk⟩ := toScalar_of_toInt? hi
      exact .inl ⟨width, k, hscalar, by rw [hk, toRat_of_toInt? hi]⟩
  | none =>
      rcases toScalar_of_fraction hi hd with ⟨x, -, htext, hscalar⟩ | hscalar
      · obtain ⟨negative, rank, rfl, hplain⟩ := exists_finite_of_isTextOf htext
        exact .inr (.inl ⟨negative, rank, hscalar, hplain.trans hvalue⟩)
      · exact .inr (.inr ⟨d, hscalar, hvalue⟩)

theorem ofScalar_toScalar (hn : n.Parses) (format : TimestampFormat) :
    Json.ofScalar format n.toScalar = .number n.rewritten := by
  rw [rewritten]
  rcases hn.toScalar_cases with ⟨width, k, hscalar, -⟩ | ⟨negative, rank, hscalar, -⟩ |
    ⟨d, hscalar, -⟩
  · rw [hscalar]
    rfl
  · rw [hscalar]
    rfl
  · rw [hscalar]
    rfl

/-- Whatever a number becomes, it comes back if both texts of a float have the same digits. -/
theorem toRat_rewritten_iff (hn : n.Parses) : n.rewritten.toRat = n.toRat ↔ n.PrintsAlike := by
  rw [rewritten, PrintsAlike]
  rcases hn.toScalar_cases with ⟨width, k, hscalar, hk⟩ | ⟨negative, rank, hscalar, hplain⟩ |
    ⟨d, hscalar, hd⟩
  · rw [hscalar]
    exact iff_of_true ((toRat_of_toInt? (toInt?_ofInt k.value)).trans hk) nofun
  · rw [hscalar, ← hplain]
    constructor
    · rintro h negative' rank' hsame
      obtain ⟨rfl, rfl⟩ : negative = negative' ∧ rank = rank' := by simpa using hsame
      exact h
    · exact fun h => h negative rank rfl
  · rw [hscalar]
    exact iff_of_true ((Decimal.toRat_numeral d).trans hd) nofun

/-- A number that plain text has for a float which the wire writes with another last digit. -/
def tied : Numeral :=
  { negative := false, whole := 1125899906842624, fraction := some ⟨3, []⟩ }

theorem rewritten_tied : tied.rewritten = { tied with fraction := some ⟨2, []⟩ } := by
  decide +kernel

/-- Halfway between two decimals the texts differ, and the number does not come back. -/
theorem not_printsAlike_tied : tied.Parses ∧ ¬ tied.PrintsAlike := by
  have hparses : tied.Parses := ⟨_, rfl⟩
  have hread : tied.toRat = Decimal.toRat ⟨11258999068426243, 1⟩ := rfl
  have hwritten : tied.rewritten.toRat = Decimal.toRat ⟨11258999068426242, 1⟩ := by
    rw [rewritten_tied]
    rfl
  refine ⟨hparses, ?_⟩
  rw [← toRat_rewritten_iff hparses, hread, hwritten]
  decide

end Numeral

namespace Json

/-! ### The same JSON but for the text of numbers -/

/-- The same JSON, with numbers that denote the same but may be written in another way. -/
inductive SameValue : Json → Json → Prop
  | null : SameValue .null .null
  | boolean (b : Bool) : SameValue (.boolean b) (.boolean b)
  | number {n n' : Numeral} : n.toRat = n'.toRat → SameValue (.number n) (.number n')
  | string (s : String) : SameValue (.string s) (.string s)
  | array {parts : List (Json × Json)} :
      (∀ p ∈ parts, SameValue p.1 p.2) →
      SameValue (.array (parts.map Prod.fst)) (.array (parts.map Prod.snd))
  | object {parts : List (String × Json × Json)} :
      (∀ p ∈ parts, SameValue p.2.1 p.2.2) →
      SameValue (.object (parts.map fun p => (p.1, p.2.1)))
        (.object (parts.map fun p => (p.1, p.2.2)))

/-- A leaf that comes back from a document. -/
def Leaf.rewritten : Leaf → Leaf
  | .number n => .number n.rewritten
  | .boolean b => .boolean b
  | .string s => .string s

/-- A leaf whose digits are the same on the wire and as plain text. -/
def Leaf.PrintsAlike : Leaf → Prop
  | .number n => n.PrintsAlike
  | .boolean _ | .string _ => True

/-- JSON as it comes back from a document. -/
def rewritten (j : Json) : Json :=
  j.walk {
    null := Tree.null
    leaf := fun l v => .leaf l v.rewritten
    list := fun l items => .list l (items.map Tree.Visited.result)
    map := fun l members => .map l (members.map fun e => (e.1, e.2.result)) }

theorem rewritten_list (l : Unit) (items : List Json) :
    rewritten (Tree.list l items) = Tree.list l (items.map rewritten) := by
  rw [rewritten, Tree.walk_list]
  simp only [List.map_map]
  rfl

theorem rewritten_map (l : Unit) (members : List (String × Json)) :
    rewritten (Tree.map l members) = Tree.map l (members.map fun e => (e.1, rewritten e.2)) := by
  rw [rewritten, Tree.walk_map]
  simp only [List.map_map]
  rfl

/-- JSON that becomes a document without losing anything. -/
structure Untyped (j : Json) : Prop where
  keys : j.DistinctKeys
  noType : j.Lacks typeKey
  parse : j.NumbersParse

theorem Untyped.inside {u : Json} (h : j.Untyped) (hu : u.Inside j) : u.Untyped :=
  ⟨h.keys.inside hu, h.noType.inside hu, h.parse.inside hu⟩

theorem NumbersParse.number (h : (number n).NumbersParse) : n.Parses := by
  cases h with
  | leaf l h => exact h

/-- Coming back, JSON is the same but for the text of its numbers. -/
theorem NumbersParse.sameValue (h : j.NumbersParse) (hp : j.AllLeaves Leaf.PrintsAlike) :
    j.SameValue j.rewritten := by
  induction j using Tree.induct_kind with
  | null l => exact .null
  | leaf l v =>
      cases v with
      | boolean b => exact .boolean b
      | number n =>
          cases hp with
          | leaf l hp => exact .number ((Numeral.toRat_rewritten_iff h.number).mpr hp).symm
      | string s => exact .string s
  | list l items ih =>
      have hparts : ∀ p ∈ items.map fun t => (t, rewritten t), SameValue p.1 p.2 :=
        List.forall_mem_map.mpr fun t ht => ih t ht (h.inside (.item ht)) (hp.inside (.item ht))
      have hsame := SameValue.array hparts
      simp only [List.map_map, Function.comp_def, List.map_id'] at hsame
      rw [rewritten_list]
      exact hsame
  | map l members ih =>
      have hparts : ∀ p ∈ members.map fun e => (e.1, e.2, rewritten e.2),
          SameValue p.2.1 p.2.2 :=
        List.forall_mem_map.mpr fun e he =>
          ih e he (h.inside (.entry he)) (hp.inside (.entry he))
      have hsame := SameValue.object hparts
      simp only [List.map_map, Function.comp_def, Prod.mk.eta, List.map_id'] at hsame
      rw [rewritten_map]
      exact hsame

/-! ### Documents of JSON, and JSON of those -/

theorem Untyped.toDocument_map {l : Unit} {members : List (String × Json)}
    (h : Untyped (Tree.map l members)) :
    toDocument (Tree.map l members) =
      .ofEntries (members.map fun e => (e.1, toDocument e.2)) := by
  rw [Json.toDocument_map, untypedEntries_eq_map h.noType.of_map]

/-- The parts of JSON become parts of its document. -/
theorem Untyped.inside_toDocument {u : Json} (h : j.Untyped) (hu : u.Inside j) :
    u.toDocument.Inside j.toDocument := by
  cases hu with
  | item hu =>
      rw [toDocument_list]
      exact .item (List.mem_map_of_mem hu)
  | entry hu =>
      rw [h.toDocument_map]
      exact .entry (List.mem_map_of_mem (f := fun e => (e.1, toDocument e.2)) hu)

variable {s : Scope} {document : Document → Result Json}

/-- A part of a container is written, be it null or written as a document. -/
theorem writes_part {member : SchemaRef} {u : Json} (hf : (s.model.typeOf member).form = .document)
    (hu : document u.toDocument = .ok u.rewritten) :
    Writer.Writes s.model (s.sinkWith document) (u.toDocument.calls s.model member) member
      u.rewritten := by
  by_cases hn : u.toDocument.isNull = true
  · cases u with
    | null l =>
        rw [toDocument_null, Document.plainNull, Document.calls_null]
        exact Writer.writes_null member
    | leaf l v => cases v <;> cases hn
    | list l items => rw [toDocument_list] at hn; cases hn
    | map l members => rw [Json.toDocument_map] at hn; cases hn
  · rw [Document.calls_document hf (by simpa using hn)]
    exact Writer.writes_document hu

/-- A scalar of a document is written as the JSON that stands for it. -/
theorem writes_ofScalar {v : Scalar} {u : Json} (hu : s.scalar (.scalar v.type) v = u) :
    Writer.Writes s.model (s.sinkWith document)
      ((Document.ofScalar v).calls s.model (.scalar v.type)) (.scalar v.type) u := by
  have hform : (s.model.typeOf (.scalar v.type)).form = .scalar v.type := v.type.form_shapeType
  rw [Document.ofScalar, Document.calls_leaf hform]
  exact Writer.writes_scalar (congrArg Except.ok hu)

theorem writes_ofList {items : List Json}
    (h : ∀ u ∈ items, document u.toDocument = .ok u.rewritten) :
    Writer.Writes s.model (s.sinkWith document)
      ((Document.ofList (items.map toDocument)).calls s.model (.prelude .documentList))
      (.prelude .documentList) (.array (items.map rewritten)) := by
  let member : SchemaRef := .member (.prelude .documentList) 0
  have hmember : s.model.listMember (.prelude .documentList) = .ok member := rfl
  have hparts : ∀ p ∈ items.map fun u => (u.toDocument.calls s.model member, rewritten u),
      Writer.Writes s.model (s.sinkWith document) p.1 member p.2 :=
    List.forall_mem_map.mpr fun u hu => writes_part rfl (h u hu)
  have hwrites : Writer.Writes s.model (s.sinkWith document) (.list (.prelude .documentList) _)
      (.prelude .documentList) _ := Writer.writes_list hparts
  simp only [List.map_map, Function.comp_def] at hwrites
  rw [Document.ofList, Document.calls_list hmember]
  simp only [List.map_map, Function.comp_def]
  exact hwrites

theorem writes_ofEntries {members : List (String × Json)} (hn : (Entries.keys members).Nodup)
    (h : ∀ e ∈ members, document (toDocument e.2) = .ok (rewritten e.2)) :
    Writer.Writes s.model (s.sinkWith document)
      ((Document.ofEntries (members.map fun e => (e.1, toDocument e.2))).calls s.model
        (.prelude .documentMap))
      (.prelude .documentMap) (.object (members.map fun e => (e.1, rewritten e.2))) := by
  let member : SchemaRef := .member (.prelude .documentMap) 1
  have hmember : s.model.mapValue (.prelude .documentMap) = .ok member := rfl
  have hparts : ∀ p ∈ members.map fun e =>
        (e.1, (toDocument e.2).calls s.model member, rewritten e.2),
      Writer.Writes s.model (s.sinkWith document) p.2.1 member p.2.2 :=
    List.forall_mem_map.mpr fun e he => writes_part rfl (h e he)
  have hwritten : Entries.ofList (members.map fun e => (e.1, rewritten e.2)) =
      members.map fun e => (e.1, rewritten e.2) :=
    Entries.ofList_of_nodup (by simpa [Entries.keys, Function.comp_def] using hn)
  have hwrites : Writer.Writes s.model (s.sinkWith document) (.map (.prelude .documentMap) _)
      (.prelude .documentMap) _ := Writer.writes_map hparts
  simp only [List.map_map, Function.comp_def, hwritten] at hwrites
  rw [Document.ofEntries, Document.calls_map hmember]
  simp only [List.map_map, Function.comp_def]
  exact hwrites

/-- A document of JSON, other than null, is written under its own schema if its parts are. -/
theorem Untyped.writes (h : j.Untyped) (hn : j.isNull = false)
    (hparts : ∀ u : Json, u.Inside j → document u.toDocument = .ok u.rewritten) :
    Writer.Writes s.model (s.sinkWith document)
      (j.toDocument.calls s.model j.toDocument.schema) j.toDocument.schema j.rewritten := by
  cases j with
  | null l => cases hn
  | leaf l v =>
      cases v with
      | boolean b => exact writes_ofScalar rfl
      | number n => exact writes_ofScalar (Numeral.ofScalar_toScalar h.parse.number _)
      | string text => exact writes_ofScalar rfl
  | list l items =>
      rw [toDocument_list, rewritten_list]
      exact writes_ofList fun u hu => hparts u (.item hu)
  | map l members =>
      rw [h.toDocument_map, rewritten_map]
      exact writes_ofEntries h.keys.of_map.1 fun e he => hparts e.2 (.entry he)

/-- What has no schema of its own to follow is null. -/
theorem typeOf_toDocument (m : Model) (hn : j.isNull = false) :
    m.typeOf j.toDocument.schema ≠ .document := by
  cases j with
  | null l => cases hn
  | leaf l v =>
      cases v with
      | boolean b => nofun
      | number n => exact n.toScalar.type.shapeType_ne_document
      | string text => nofun
  | list l items => rw [toDocument_list]; nofun
  | map l members => rw [Json.toDocument_map]; nofun

/-- A document of JSON, as it is, is the JSON again. -/
theorem Untyped.documentAt (h : j.Untyped) {fuel : Nat} (hf : j.toDocument.height ≤ fuel) :
    s.documentAt fuel j.toDocument = .ok j.rewritten := by
  induction j using Tree.induct_inside generalizing fuel with
  | h j ih =>
      have hpos := Tree.height_pos (toDocument j)
      obtain ⟨fuel, rfl⟩ : ∃ i, fuel = i + 1 := ⟨fuel - 1, by omega⟩
      by_cases hn : j.isNull = true
      · obtain ⟨l, rfl⟩ := Tree.isNull_eq_true hn
        rfl
      · have hn : j.isNull = false := by simpa using hn
        have hparts (u : Json) (hu : u.Inside j) :
            s.documentAt fuel u.toDocument = .ok u.rewritten := by
          have hlt := (h.inside_toDocument hu).height_lt
          exact ih u hu (h.inside hu) (by omega)
        rw [Scope.documentAt, if_neg (typeOf_toDocument s.model hn)]
        exact (h.writes hn hparts).write_eq_ok

/-- Under its own schema, a document of JSON is written as the JSON again. -/
theorem Untyped.ofCall (h : j.Untyped) :
    s.ofCall (j.toDocument.calls s.model j.toDocument.schema) = .ok j.rewritten := by
  by_cases hn : j.isNull = true
  · obtain ⟨l, rfl⟩ := Tree.isNull_eq_true hn
    rfl
  · have hparts (u : Json) (hu : u.Inside j) :
        s.document u.toDocument = .ok u.rewritten := (h.inside hu).documentAt (Nat.le_refl _)
    exact (h.writes (by simpa using hn) hparts).write_eq_ok

/-! ### Parsed documents -/

/-- JSON that names no type is not taken for an envelope. -/
theorem Untyped.ofJson (h : j.Untyped) (config : Config) (wireNames : Bool) :
    ParsedDocument.ofJson j config wireNames =
      .ok { document := j.toDocument, typeTag := none, raw := j, config, wireNames } := by
  cases j with
  | null l => rfl
  | leaf l v => rfl
  | list l items => rfl
  | map l members =>
      have hnone : Entries.find? typeKey members = none :=
        Entries.find?_eq_none_iff.mpr h.noType.of_map
      have hpayload : Json.payload (Tree.map l members) = Tree.map l members := by
        simp [Json.payload, members?, Entries.contains, hnone]
      have hdiscriminator : Json.discriminator (Tree.map l members) = .ok none := by
        simp [Json.discriminator, members?, hnone]
      rw [ParsedDocument.ofJson, hpayload, hdiscriminator]
      rfl

end Json

/--
JSON survives becoming a document. If no object names a type and decimals can be made of all
numbers, the document is written as the same JSON, whatever the settings of the codec are; numbers
may be written in another way, but denote what they denoted.
-/
theorem untyped_json_survives {j : Json} (hkeys : j.DistinctKeys) (htag : j.Lacks Json.typeKey)
    (hparse : j.NumbersParse) (hprint : j.AllLeaves Json.Leaf.PrintsAlike) (config : Config)
    (wireNames : Bool) :
    ∃ p, ParsedDocument.ofJson j config wireNames = .ok p ∧
      ∀ (c : Codec) (m : Model), ∃ j',
        c.toJson m (p.document.calls m p.document.schema) = .ok j' ∧ j.SameValue j' := by
  have h : j.Untyped := ⟨hkeys, htag, hparse⟩
  refine ⟨_, h.ofJson config wireNames, fun c m => ⟨j.rewritten, ?_, hparse.sameValue hprint⟩⟩
  exact h.ofCall (s := c.scope m)

namespace Readings

/-- A number that a float holds. -/
def level : Numeral :=
  { negative := false, whole := 0, fraction := some ⟨5, []⟩ }

/-- A number beyond all floats. -/
def limit : Numeral :=
  { negative := false, whole := 1, exponent := some (false, ⟨4, [0, 0]⟩) }

/-- A number beyond the longs. -/
def serial : Numeral :=
  .ofInt 18446744073709551616

/-- Values that are no numbers. -/
def notes : Json :=
  .array [.null, .string "calm", .boolean true]

/-- JSON with every kind of value in it. -/
def reading : Json :=
  .object [("level", .number level), ("limit", .number limit), ("serial", .number serial),
    ("notes", notes)]

/-- The rank of the float that is one half. -/
def half : Fin Binary.Format.double.limit :=
  ⟨4602678819172646912, by decide⟩

/-- The digits of one half are found without a tie. -/
theorem toScalar_fractions :
    (level.toScalar = .double (.finite false half) ∧
      Binary.shortest .toEven .double half = Binary.shortest .up .double half) ∧
    limit.toScalar = .decimal ⟨1, -400⟩ := by
  decide +kernel

theorem printsAlike_level : level.PrintsAlike := by
  obtain ⟨⟨hlevel, hshortest⟩, -⟩ := toScalar_fractions
  refine Numeral.printsAlike_of_shortest fun negative rank hscalar => ?_
  obtain ⟨-, rfl⟩ : false = negative ∧ half = rank := by
    simpa using hlevel.symm.trans hscalar
  exact hshortest

theorem printsAlike_limit : limit.PrintsAlike := by
  refine Numeral.printsAlike_of_ne fun x => ?_
  rw [toScalar_fractions.2]
  nofun

theorem printsAlike_serial : serial.PrintsAlike := by
  refine Numeral.printsAlike_of_ne fun x => ?_
  obtain ⟨width, k, hscalar, -⟩ :=
    Numeral.toScalar_of_toInt? (Numeral.toInt?_ofInt 18446744073709551616)
  rw [serial, hscalar]
  nofun

theorem distinctKeys_reading : reading.DistinctKeys := by
  have hnotes : notes.DistinctKeys := by
    refine .list ?_
    simp only [List.forall_mem_cons]
    exact ⟨.null _, .leaf _ _, .leaf _ _, nofun⟩
  refine .map (by decide) ?_
  simp only [List.forall_mem_cons]
  exact ⟨.leaf _ _, .leaf _ _, .leaf _ _, hnotes, nofun⟩

theorem lacks_typeKey_reading : reading.Lacks Json.typeKey := by
  have hnotes : notes.Lacks Json.typeKey := by
    refine .list ?_
    simp only [List.forall_mem_cons]
    exact ⟨.null _, .leaf _ _, .leaf _ _, nofun⟩
  refine .map (by decide) ?_
  simp only [List.forall_mem_cons]
  exact ⟨.leaf _ _, .leaf _ _, .leaf _ _, hnotes, nofun⟩

theorem allLeaves_reading {P : Json.Leaf → Prop} (hboolean : P (.boolean true))
    (hstring : P (.string "calm")) (hlevel : P (.number level)) (hlimit : P (.number limit))
    (hserial : P (.number serial)) : reading.AllLeaves P := by
  have hnotes : notes.AllLeaves P := by
    refine .list ?_
    simp only [List.forall_mem_cons]
    exact ⟨.null _, .leaf _ hstring, .leaf _ hboolean, nofun⟩
  refine .map ?_
  simp only [List.forall_mem_cons]
  exact ⟨.leaf _ hlevel, .leaf _ hlimit, .leaf _ hserial, hnotes, nofun⟩

theorem untyped_json_survives_reading :
    (reading.DistinctKeys ∧ reading.Lacks Json.typeKey ∧ reading.NumbersParse ∧
        reading.AllLeaves Json.Leaf.PrintsAlike) ∧
      ∃ p, ParsedDocument.ofJson reading {} true = .ok p ∧
        ∀ (c : Codec) (m : Model), ∃ j',
          c.toJson m (p.document.calls m p.document.schema) = .ok j' ∧ reading.SameValue j' := by
  have hparse : reading.NumbersParse :=
    allLeaves_reading trivial trivial ⟨_, rfl⟩ ⟨_, rfl⟩ ⟨_, rfl⟩
  have hprint : reading.AllLeaves Json.Leaf.PrintsAlike :=
    allLeaves_reading trivial trivial printsAlike_level printsAlike_limit printsAlike_serial
  exact ⟨⟨distinctKeys_reading, lacks_typeKey_reading, hparse, hprint⟩,
    untyped_json_survives distinctKeys_reading lacks_typeKey_reading hparse hprint {} true⟩

end Readings
end ShapeCodec
