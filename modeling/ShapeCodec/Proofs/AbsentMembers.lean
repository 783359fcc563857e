import ShapeCodec.Gallery.Types
import ShapeCodec.Proofs.SentDefaults
import ShapeCodec.Typed.Codec

/-!
# Members that are not sent

A field gets what was read for its member or, when nothing was, what the default of the member is
read as. Sending the default fills the slot of that field and leaves all others as they are. So an
object without the member is read as the same record as the object with the default in its place.
-/

namespace ShapeCodec.Typed

variable {Label Leaf : Type} {s : Scope} {standin : Standin} {S member : SchemaRef}

/-! ### Filling a slot -/

theorem readSlots_append {fields : List (Field ValueType)} {depth : Nat}
    (before after : List (SchemaRef × Node Label Leaf)) :
    readSlots s fields depth (before ++ after) = (do
      let slots ← readSlots s fields depth before
      return slots ++ (← readSlots s fields depth after)) := by
  induction before with
  | nil => exact (bind_pure _).symm
  | cons p before ih =>
      simp only [List.cons_append, readSlots, ih]
      refine (bind_congr fun i => ?_).trans (bind_assoc ..).symm
      cases fields[i]? with
      | none => rfl
      | some field => simp

/-- The last of what was read for a place counts. -/
theorem slot?_append (i : Nat) (before after : List (Nat × Value)) :
    slot? i (before ++ after) = (slot? i after).or (slot? i before) := by
  simp only [slot?, List.reverse_append, List.find?_append, Option.map_or]

theorem slot?_cons (i : Nat) (slot : Nat × Value) (slots : List (Nat × Value)) :
    slot? i (slot :: slots) = (slot? i slots).or (if slot.1 = i then some slot.2 else none) := by
  rw [show slot :: slots = [slot] ++ slots from rfl, slot?_append]
  by_cases h : slot.1 = i <;> simp [slot?, h]

/-- Fields that are built alike make up the same record. -/
theorem buildFields_congr_slots {slots slots' : List (Nat × Value)} {index : Nat}
    {fields : List (Field ValueType)}
    (h : ∀ i field member, fields[i]? = some field →
      s.model.memberAt? S (index + i) = some member →
      buildField s standin S member field (slot? (index + i) slots) =
        buildField s standin S member field (slot? (index + i) slots')) :
    buildFields s standin S slots index fields = buildFields s standin S slots' index fields := by
  induction fields generalizing index with
  | nil => rfl
  | cons field fields ih =>
      have hrest : buildFields s standin S slots (index + 1) fields =
          buildFields s standin S slots' (index + 1) fields := by
        refine ih fun i field member hi hm => ?_
        rw [show index + 1 + i = index + (i + 1) by omega] at hm ⊢
        exact h (i + 1) field member hi hm
      rw [buildFields, buildFields, hrest]
      cases hm : s.model.memberAt S index with
      | error e => rfl
      | ok member =>
          have hfirst := h 0 field member rfl (Model.memberAt_eq_ok_iff.mp hm)
          rw [Nat.add_zero] at hfirst
          rw [Result.ok_bind, Result.ok_bind, hfirst]

/-- A field that cannot be missing is built from its default if nothing else was read for it. -/
theorem buildField_default {field : Field ValueType} {x : Default}
    (hr : field.type.isOption = false ∨ (s.model.traits member).required = true)
    (hx : (s.model.traits member).default = some x) (hn : x.isNull = false) :
    buildField s standin S member field none =
      standin field.type.present member (.ofDefault x) >>= fun u =>
        buildField s standin S member field (some u) := by
  have hdefault (type : ValueType) : requiredOrDefault s.model standin type member S none =
      standin type member (.ofDefault x) := by
    simp only [requiredOrDefault, resolveDefault, hx, hn]
    cases standin type member (.ofDefault x) <;> rfl
  obtain ⟨name, type⟩ := field
  cases type with
  | option type =>
      have hr : (s.model.traits member).required = true := hr.resolve_left Bool.noConfusion
      show (optionalOrDefault s.model standin type member S none).map Value.ofOption = _
      simp only [optionalOrDefault, hr, hdefault, ValueType.present]
      cases standin type member (.ofDefault x) <;> rfl
  | scalar | document | list | map | named =>
      show requiredOrDefault s.model standin _ member S none = _
      simp only [hdefault, ValueType.present]
      cases standin _ member (.ofDefault x) <;> rfl

/-- A record that lacks a member is built as if the default of the member had been read for it. -/
theorem buildFields_filled {fields : List (Field ValueType)} {i : Nat} {field : Field ValueType}
    (hi : fields[i]? = some field) (hm : s.model.memberAt? S i = some member) {x : Default}
    (hr : field.type.isOption = false ∨ (s.model.traits member).required = true)
    (hx : (s.model.traits member).default = some x) (hn : x.isNull = false)
    {before after : List (Nat × Value)} (hbefore : slot? i before = none)
    (hafter : slot? i after = none) {vs : List Value} :
    buildFields s standin S (before ++ after) 0 fields = .ok vs ↔
      ∃ u, standin field.type.present member (.ofDefault x) = .ok u ∧
        buildFields s standin S (before ++ (i, u) :: after) 0 fields = .ok vs := by
  have hfield : buildField s standin S member field none =
      standin field.type.present member (.ofDefault x) >>= fun u =>
        buildField s standin S member field (some u) := buildField_default hr hx hn
  have hunfilled : slot? i (before ++ after) = none := by rw [slot?_append, hafter, hbefore]; rfl
  have hfilled {u : Value} (hu : standin field.type.present member (.ofDefault x) = .ok u) :
      buildFields s standin S (before ++ after) 0 fields =
        buildFields s standin S (before ++ (i, u) :: after) 0 fields := by
    refine buildFields_congr_slots fun j other found hj hfound => ?_
    rw [Nat.zero_add] at hfound ⊢
    by_cases hij : i = j
    · subst hij
      obtain rfl : field = other := Option.some.inj (hi.symm.trans hj)
      obtain rfl : member = found := Option.some.inj (hm.symm.trans hfound)
      have hslot : slot? i (before ++ (i, u) :: after) = some u := by
        simp [slot?_append, slot?_cons, hafter]
      rw [hunfilled, hslot, hfield, hu, Result.ok_bind]
    · have hslot : slot? j (before ++ (i, u) :: after) = slot? j (before ++ after) := by
        simp [slot?_append, slot?_cons, hij]
      rw [hslot]
  constructor
  · intro h
    have hat : s.model.memberAt? S (0 + i) = some member := by rwa [Nat.zero_add]
    obtain ⟨v, hv⟩ := of_buildFields h hi hat
    rw [Nat.zero_add, hunfilled, hfield] at hv
    obtain ⟨u, hu, -⟩ := Result.bind_eq_ok.mp hv
    exact ⟨u, hu, hfilled hu ▸ h⟩
  · rintro ⟨u, hu, h⟩
    exact hfilled hu ▸ h

/-! ### Objects with and without a member -/

/-- What is read from the entries of an object, by the places of the fields. -/
def slotsIn (src : Source Label Leaf) (s : Scope) (standin : Standin)
    (fields : List (Field ValueType)) (depth : Nat) (S : SchemaRef)
    (entries : List (String × Tree Label Leaf)) : Result (List (Nat × Value)) :=
  readSlots s fields depth ((src.presentMembers S Tree.isNull entries).map
    fun p => (p.1, p.2.visit (valueWith src s standin)))

section
variable {src : Source Label Leaf} {fields : List (Field ValueType)} {depth : Nat}
  {before after entries : List (String × Tree Label Leaf)}

theorem slotsIn_append : slotsIn src s standin fields depth S (before ++ after) = (do
    let slots ← slotsIn src s standin fields depth S before
    return slots ++ (← slotsIn src s standin fields depth S after)) := by
  rw [slotsIn, Source.presentMembers, List.filterMap_append, List.map_append, readSlots_append]
  rfl

theorem slotsIn_cons {key : String} (hkey : src.member? S key = some member)
    {t : Tree Label Leaf} (hn : t.isNull = false) {i : Nat}
    (hm : s.model.memberAt? S i = some member) {field : Field ValueType}
    (hi : fields[i]? = some field) :
    slotsIn src s standin fields depth S ((key, t) :: entries) = (do
      let u ← valueWith src s standin t field.type.present depth member
      return (i, u) :: (← slotsIn src s standin fields depth S entries)) := by
  have hindex := Model.expectMemberIndex_of_memberAt? hm
  have hpresent : src.presentMembers S Tree.isNull ((key, t) :: entries) =
      (member, t) :: src.presentMembers S Tree.isNull entries :=
    src.presentMembers_at hkey hn [] entries
  rw [slotsIn, hpresent, List.map_cons, readSlots, hindex, Result.ok_bind, hi]
  simp only [Tree.visit_result]
  rfl

/-- Without the key of a member, nothing is read into its slot. -/
theorem slot?_of_absent (hl : src.Lawful s.model) {i : Nat}
    (hm : s.model.memberAt? S i = some member) {key : String}
    (hkey : src.member? S key = some member) (habsent : key ∉ Entries.keys entries)
    {slots : List (Nat × Value)} (h : slotsIn src s standin fields depth S entries = .ok slots) :
    slot? i slots = none := by
  refine slot?_of_notMem fun hin => ?_
  obtain ⟨slot, hslot, rfl⟩ := List.mem_map.mp hin
  obtain ⟨p, hp, hindex⟩ := (of_readSlots h).2 slot hslot
  obtain ⟨other, hentry, hother, -⟩ := src.mem_presentMembers.mp hp
  -- the member read into this slot is the absent one, under its only key
  have hat := Model.memberAt?_of_index (hl.mem_members hother) hindex
  have hsame : member = p.1 := Option.some.inj (hm.symm.trans hat)
  have hkeys : key = other := hl.key_unique hkey (hsame ▸ hother)
  exact habsent (hkeys ▸ Entries.mem_keys_of_mem hentry)

/-- The record that the entries around a member make up with a value of the member. -/
def recordAround (src : Source Label Leaf) (s : Scope) (standin : Standin) (n : Nat)
    (fields : List (Field ValueType)) (depth : Nat) (S : SchemaRef) (i : Nat)
    (before after : List (String × Tree Label Leaf)) (u : Value) : Result Value := do
  s.enter depth
  let front ← slotsIn src s standin fields (depth + 1) S before
  let back ← slotsIn src s standin fields (depth + 1) S after
  return .record n (← buildFields s standin S (front ++ (i, u) :: back) 0 fields)

theorem recordAround_eq_ok {n i : Nat} {u v : Value} :
    recordAround src s standin n fields depth S i before after u = .ok v ↔
      depth < s.config.maxDepth ∧ ∃ front back vs,
        slotsIn src s standin fields (depth + 1) S before = .ok front ∧
        slotsIn src s standin fields (depth + 1) S after = .ok back ∧
        buildFields s standin S (front ++ (i, u) :: back) 0 fields = .ok vs ∧
        .record n vs = v := by
  rw [recordAround, Result.bind_eq_ok, ← s.toScope.enter_eq_ok]
  simp only [Result.bind_eq_ok, Result.pure_eq_ok, Except.ok.injEq]
  constructor
  · rintro ⟨_, hd, front, hfront, back, hback, vs, hvs, rfl⟩
    exact ⟨hd, front, back, vs, hfront, hback, hvs, rfl⟩
  · rintro ⟨hd, front, back, vs, hfront, hback, hvs, rfl⟩
    exact ⟨(), hd, front, hfront, back, hback, vs, hvs, rfl⟩

/-- A record is what its fields are built as from what is read. -/
theorem valueWith_record_iff {n : Nat} (hb : (s.types.get n).body = .record fields) (l : Label)
    {v : Value} :
    valueWith src s standin (.map l entries) (.named n) depth S = .ok v ↔
      depth < s.config.maxDepth ∧ ∃ slots vs,
        slotsIn src s standin fields (depth + 1) S entries = .ok slots ∧
        buildFields s standin S slots 0 fields = .ok vs ∧ .record n vs = v := by
  constructor
  · intro h
    obtain ⟨-, -, hd, -⟩ := of_valueWith_record hb h
    rw [valueWith_fields hd hb, Result.bind_eq_ok] at h
    obtain ⟨slots, hslots, h⟩ := h
    obtain ⟨vs, hvs, rfl⟩ := Result.map_eq_ok.mp h
    exact ⟨hd, slots, vs, hslots, hvs, rfl⟩
  · rintro ⟨hd, slots, vs, hslots, hvs, rfl⟩
    rw [valueWith_fields hd hb, Result.bind_eq_ok]
    exact ⟨slots, hslots, Result.map_eq_ok.mpr ⟨vs, hvs, rfl⟩⟩

section
variable {n : Nat} (hb : (s.types.get n).body = .record fields) {i : Nat} {field : Field ValueType}
  (hi : fields[i]? = some field) (hm : s.model.memberAt? S i = some member) {key : String}
  (hkey : src.member? S key = some member) (l : Label) {v : Value}
include hb hi hm hkey

/-- An object with a member is read from what is around the member and from what it is read as. -/
theorem valueWith_sent_iff {t : Tree Label Leaf} (hn : t.isNull = false) :
    valueWith src s standin (.map l (before ++ (key, t) :: after)) (.named n) depth S = .ok v ↔
      ∃ u, valueWith src s standin t field.type.present (depth + 1) member = .ok u ∧
        recordAround src s standin n fields depth S i before after u = .ok v := by
  simp only [valueWith_record_iff hb, recordAround_eq_ok, slotsIn_append,
    slotsIn_cons hkey hn hm hi, Result.bind_eq_ok, Result.pure_eq_ok, Except.ok.injEq]
  constructor
  · rintro ⟨hd, slots, vs, ⟨front, hfront, _, ⟨u, hu, back, hback, rfl⟩, rfl⟩, hvs, rfl⟩
    exact ⟨u, hu, hd, front, back, vs, hfront, hback, hvs, rfl⟩
  · rintro ⟨u, hu, hd, front, back, vs, hfront, hback, hvs, rfl⟩
    exact ⟨hd, _, vs, ⟨front, hfront, _, ⟨u, hu, back, hback, rfl⟩, rfl⟩, hvs, rfl⟩

/-- An object without the member is read from the same and from what its default is read as. -/
theorem valueWith_absent_iff (hl : src.Lawful s.model)
    (hr : field.type.isOption = false ∨ (s.model.traits member).required = true) {x : Default}
    (hx : (s.model.traits member).default = some x) (hn : x.isNull = false)
    (habsent : key ∉ Entries.keys (before ++ after)) :
    valueWith src s standin (.map l (before ++ after)) (.named n) depth S = .ok v ↔
      ∃ u, standin field.type.present member (.ofDefault x) = .ok u ∧
        recordAround src s standin n fields depth S i before after u = .ok v := by
  rw [Entries.keys_append, List.mem_append, not_or] at habsent
  simp only [valueWith_record_iff hb, recordAround_eq_ok, slotsIn_append, Result.bind_eq_ok,
    Result.pure_eq_ok, Except.ok.injEq]
  have hfilled {front back : List (Nat × Value)} {vs : List Value}
      (hfront : slotsIn src s standin fields (depth + 1) S before = .ok front)
      (hback : slotsIn src s standin fields (depth + 1) S after = .ok back) :
      buildFields s standin S (front ++ back) 0 fields = .ok vs ↔
        ∃ u, standin field.type.present member (.ofDefault x) = .ok u ∧
          buildFields s standin S (front ++ (i, u) :: back) 0 fields = .ok vs :=
    buildFields_filled hi hm hr hx hn (slot?_of_absent hl hm hkey habsent.1 hfront)
      (slot?_of_absent hl hm hkey habsent.2 hback)
  constructor
  · rintro ⟨hd, slots, vs, ⟨front, hfront, back, hback, rfl⟩, hvs, rfl⟩
    obtain ⟨u, hu, hvs⟩ := (hfilled hfront hback).mp hvs
    exact ⟨u, hu, hd, front, back, vs, hfront, hback, hvs, rfl⟩
  · rintro ⟨u, hu, hd, front, back, vs, hfront, hback, hvs, rfl⟩
    have hvs := (hfilled hfront hback).mpr ⟨u, hu, hvs⟩
    exact ⟨hd, _, vs, ⟨front, hfront, back, hback, rfl⟩, hvs, rfl⟩

end
end

/-! ### Defaults as if they were sent -/

theorem ambiguous_present {types : Table} {format : TimestampFormat} {x : Default}
    {type : ValueType} : Ambiguous types format x type.present ↔ Ambiguous types format x type := by
  cases type <;> rfl

/--
A default acts as if it had been sent. Where a field needs a value and the default of its member is
of the kind that the member is, an object without the member is read as the object with the JSON
form of the default in any place is, or both are refused. So it is for fields of all types but those
for which the default is ambiguous; for these, no object is read both with and without the member. A
collection needs the room for one more level, and the keys of the members have to be distinct.
-/
theorem default_as_if_sent {m : Model} {types : Table} {c : Codec} {n : Nat}
    {fields : List (Field ValueType)} (hb : (types.get n).body = .record fields) {i : Nat}
    {field : Field ValueType} (hi : fields[i]? = some field) {S member : SchemaRef}
    (hm : m.memberAt? S i = some member)
    (hr : field.type.isOption = false ∨ (m.traits member).required = true) {x : Default}
    (hx : (m.traits member).default = some x) (hsuits : x.Suits (m.typeOf member).form)
    (hkeys : ((m.declarations S).map (Member.key c.wireNames)).Nodup) {key : String}
    (hkey : (c.scope m).memberKey? member = some key)
    (hroom : x.IsCollection → 1 < c.config.maxDepth) :
    ∃ w, c.toJson m ((Document.ofDefault x).calls m (Document.ofDefault x).schema) = .ok w ∧
      (∀ w', c.toJson m ((Document.ofDefault x).calls m member) = .ok w' → w' = w) ∧
      ∀ before after, key ∉ Entries.keys (before ++ after) → ∀ v,
        (¬ Ambiguous types (c.config.timestampFormatFor m member) x field.type →
          (ofJson m types (.named n) S c (.object (before ++ after)) = .ok v ↔
            ofJson m types (.named n) S c (.object (before ++ (key, w) :: after)) = .ok v)) ∧
        (Ambiguous types (c.config.timestampFormatFor m member) x field.type →
          ofJson m types (.named n) S c (.object (before ++ after)) = .ok v →
            ∀ v', ofJson m types (.named n) S c (.object (before ++ (key, w) :: after)) ≠
              .ok v') := by
  have hmem := Model.mem_members_of_memberAt? hm
  have hfound : (c.source m).member? S key = some member := by
    obtain ⟨d, -, hdecl⟩ := Model.declarationOf?_of_mem hmem
    obtain rfl : d.key c.wireNames = key :=
      Option.some.inj ((Model.memberKey?_of_declarationOf? hdecl).symm.trans hkey)
    exact Model.memberByKey?_of_mem hkeys hmem (by rw [hdecl]; rfl)
  refine ⟨_, c.toJson_ofDefault m x, fun w' => c.eq_ofDefault_of_toJson m hsuits,
    fun before after habsent v => ?_⟩
  let scope : Scope := { model := m, config := c.config, types }
  let around := recordAround (c.source m) scope (standin m types) n fields 0 S i before after
  have habsent {v : Value} : ofJson m types (.named n) S c (.object (before ++ after)) = .ok v ↔
      ∃ u, standin m types field.type.present member (.ofDefault x) = .ok u ∧ around u = .ok v :=
    valueWith_absent_iff (s := scope) hb hi hm hfound ()
      (Json.source_lawful m c.config c.wireNames) hr hx hsuits.isNull habsent
  have hsent {v : Value} :
      ofJson m types (.named n) S c (.object (before ++ (key, Json.ofDefault x) :: after)) = .ok v ↔
        ∃ u, sent c m types field.type.present member x = .ok u ∧ around u = .ok v :=
    valueWith_sent_iff (s := scope) hb hi hm hfound () (Default.isNull_ofDefault hsuits.isNull).2
  refine ⟨fun ha => ?_, fun ha hv v' hv' => ?_⟩
  · have halike : Result.Alike (standin m types field.type.present member (.ofDefault x))
        (sent c m types field.type.present member x) :=
      sent_alike hsuits (mt ambiguous_present.mp ha) hroom
    rw [habsent, hsent]
    simp only [halike.ok_iff]
  · obtain ⟨u, hu, -⟩ := habsent.mp hv
    obtain ⟨u', hu', -⟩ := hsent.mp hv'
    exact not_both_of_ambiguous hsuits.isNull (ambiguous_present.mpr ha) hu hu'

end ShapeCodec.Typed

namespace ShapeCodec.Gallery

open Typed (Ambiguous ofJson)

/-- The member of a widget that is its color. -/
def widgetColor : SchemaRef :=
  .member (.declared 12) 3

/-- A widget without a color is read as the red one that it stands for. -/
theorem default_as_if_sent_color :
    (model.traits widgetColor).default = some (.string "red") ∧
      ¬ Ambiguous types .epochSeconds (.string "red") color ∧
      ∃ v, ofJson model types widget (schema model "t#Widget") {}
          (.object [("widgetName", .string "gear")]) = .ok v ∧
        ofJson model types widget (schema model "t#Widget") {}
          (.object [("widgetName", .string "gear"), ("color", .string "red")]) = .ok v := by
  have hunambiguous : ¬ Ambiguous types .epochSeconds (.string "red") color := by
    rintro ⟨-, bytes, hbytes, -⟩
    cases hbytes
  have hat : model.memberAt? (schema model "t#Widget") 3 = some widgetColor := by decide
  have hdefault : (model.traits widgetColor).default = some (.string "red") := rfl
  have hform : (model.typeOf widgetColor).form = .scalar .string := by decide
  have hkeys : ((model.declarations (schema model "t#Widget")).map (Member.key true)).Nodup := by
    decide
  have hkey : (({} : Codec).scope model).memberKey? widgetColor = some "color" := rfl
  have hroom : (Default.string "red").IsCollection → 1 < ({} : Codec).config.maxDepth := by
    rintro (h | h) <;> cases h
  have hbody : (types.get 4).body = .record
      [⟨"name", string⟩, ⟨"count", int⟩, ⟨"tags", optional strings⟩, ⟨"color", color⟩,
        ⟨"level", optional level⟩, ⟨"secret", optional string⟩] := rfl
  obtain ⟨w, hw, -, hsame⟩ := Typed.default_as_if_sent (c := {}) hbody (i := 3) rfl hat (.inl rfl)
    hdefault hform hkeys hkey hroom
  obtain rfl := Except.ok.inj hw
  obtain ⟨v, hv⟩ : ∃ v, ofJson model types widget (schema model "t#Widget") {}
      (.object [("widgetName", .string "gear")]) = .ok v := ⟨_, rfl⟩
  have habsent : "color" ∉ Entries.keys ([("widgetName", Json.string "gear")] ++ []) := by decide
  exact ⟨hdefault, hunambiguous, v, hv, ((hsame _ [] habsent v).1 hunambiguous).mp hv⟩

/-- Bytes that have to be there, with a default, next to a text. -/
def packet : Exhibit :=
  structureOf "x#Packet"
    [ ⟨"a", scalar .blob, { required := true, default := some (.blob [0x68, 0x69]) }⟩
    , ⟨"b", text, {}⟩ ]

def packetModel : Model :=
  packet.addTo {}

def packetBytes : SchemaRef :=
  .member (.declared 0) 0

/--
A field for a text does not take the bytes that stand in for its member, but takes the text that is
sent for them.
-/
theorem bytes_sent_as_text :
    (packetModel.traits packetBytes).required = true ∧
      (packetModel.traits packetBytes).default = some (.blob [0x68, 0x69]) ∧
      (Default.blob [0x68, 0x69]).Suits (packetModel.typeOf packetBytes).form ∧
      ({} : Codec).toJson packetModel ((Document.ofDefault (.blob [0x68, 0x69])).calls packetModel
        packetBytes) = .ok (.string "aGk=") ∧
      ¬ ∀ v, ofJson packetModel types (typeNamed "LongPair") (schema packetModel "x#Packet") {}
          (.object []) = .ok v ↔
        ofJson packetModel types (typeNamed "LongPair") (schema packetModel "x#Packet") {}
          (.object [("a", .string "aGk=")]) = .ok v := by
  have hform : (Default.blob [0x68, 0x69]).Suits (packetModel.typeOf packetBytes).form := by
    show (packetModel.typeOf packetBytes).form = .scalar .blob
    decide
  refine ⟨rfl, rfl, hform, rfl, fun h => ?_⟩
  obtain ⟨v, hv⟩ : ∃ v, ofJson packetModel types (typeNamed "LongPair")
      (schema packetModel "x#Packet") {} (.object [("a", .string "aGk=")]) = .ok v := ⟨_, rfl⟩
  cases (h v).mpr hv

end ShapeCodec.Gallery
