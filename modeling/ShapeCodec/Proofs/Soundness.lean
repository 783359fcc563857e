import ShapeCodec.Proofs.Conformance
import ShapeCodec.Proofs.Layout
import ShapeCodec.Proofs.Reading
import ShapeCodec.Proofs.Sources

/-!
# Soundness of reading

What is read under a schema conforms to it, with one exception: a union in JSON whose tag is unknown
on the wire, but is the name of a member that goes by another key there. Its value is kept as it is,
and so stands under a name that promises something else.
-/

namespace ShapeCodec

variable {Label Leaf : Type}

/--
Somewhere in the input stands a union whose tag is unknown and still the name of a member.
-/
inductive Source.Strays (src : Source Label Leaf) (m : Model) :
    SchemaRef → Tree Label Leaf → Prop
  | tag {schema member : SchemaRef} {l : Label} {entries : List (String × Tree Label Leaf)}
      {tag : String} {u : Tree Label Leaf} :
      (m.typeOf schema).form = .union → src.candidates Tree.isNull entries = [(tag, u)] →
      src.member? schema tag = none → m.member? schema tag = some member →
      (m.typeOf member).form ≠ .document → src.Strays m schema (.map l entries)
  | member {schema member : SchemaRef} {l : Label} {entries : List (String × Tree Label Leaf)}
      {u : Tree Label Leaf} :
      (m.typeOf schema).form = .structure →
      (member, u) ∈ src.presentMembers schema Tree.isNull entries → src.Strays m member u →
      src.Strays m schema (.map l entries)
  | known {schema member : SchemaRef} {l : Label} {entries : List (String × Tree Label Leaf)}
      {key : String} {u : Tree Label Leaf} :
      (m.typeOf schema).form = .union → src.candidates Tree.isNull entries = [(key, u)] →
      src.member? schema key = some member → src.Strays m member u →
      src.Strays m schema (.map l entries)
  | item {schema member : SchemaRef} {l : Label} {items : List (Tree Label Leaf)}
      {u : Tree Label Leaf} :
      m.listMember schema = .ok member → u ∈ items → src.Strays m member u →
      src.Strays m schema (.list l items)
  | entry {schema member : SchemaRef} {l : Label} {entries : List (String × Tree Label Leaf)}
      {e : String × Tree Label Leaf} :
      m.mapValue schema = .ok member → e ∈ entries → src.Strays m member e.2 →
      src.Strays m schema (.map l entries)

/-- Where keys are names, no tag is unknown and a name at once. -/
theorem Source.not_strays {src : Source Label Leaf} {m : Model} (h : src.member? = m.member?)
    {schema : SchemaRef} {t : Tree Label Leaf} : ¬ src.Strays m schema t := by
  intro hs
  induction hs with
  | tag _ _ hn hm _ =>
      rw [h, hm] at hn
      simp at hn
  | member _ _ _ ih => exact ih
  | known _ _ _ _ ih => exact ih
  | item _ _ _ ih => exact ih
  | entry _ _ _ ih => exact ih

/-- What is read from a source keeps to the rules, besides being of the right kinds. -/
structure Source.KeepsTo (src : Source Label Leaf) (r : Document.Rules) : Prop where
  label : ∀ schema, r.label schema { schema }
  anything : ∀ schema (t : Tree Label Leaf), t.isNull = false → r.anything schema (src.untyped t)
  scalar : ∀ schema v, r.scalar schema v
  unknown : ∀ schema tag, r.unknown schema tag

theorem Source.keepsTo_labelled (src : Source Label Leaf) : src.KeepsTo .labelled where
  label _ := rfl
  anything _ _ _ := trivial
  scalar _ _ := trivial
  unknown _ _ := trivial

namespace Reader

variable {src : Source Label Leaf} {s : Scope} {r : Document.Rules}

theorem Reads.isNull (hl : src.Lawful s.model) {depth : Nat} {schema : SchemaRef}
    {t : Tree Label Leaf} {d : Document} (h : Reads src s depth schema t d) :
    d.isNull = t.isNull := by
  cases h with
  | null => rfl
  | document _ _ => exact hl.isNull_untyped t
  | scalar _ hn _ => exact hn.symm
  | members => rfl
  | known => rfl
  | unknown => rfl
  | list => rfl
  | map => rfl

/-- What an entry of a structure was read from. -/
theorem exists_part_of_mem {parts : List (SchemaRef × Tree Label Leaf × Document)}
    {e : String × Document} (h : e ∈ Entries.ofList (memberEntries s parts)) :
    ∃ p ∈ parts, e = ((s.model.memberName? p.1).getD "", p.2.2) := by
  obtain ⟨p, hp, rfl⟩ := List.mem_map.mp (Entries.mem_of_mem_ofList h)
  exact ⟨p, hp, rfl⟩

theorem keys_memberEntries (parts : List (SchemaRef × Tree Label Leaf × Document)) :
    Entries.keys (memberEntries s parts) =
      (parts.map Prod.fst).map fun member => (s.model.memberName? member).getD "" := by
  simp [memberEntries, Entries.keys, Function.comp_def]

/-- Members that differ go by different names. -/
theorem nodup_memberEntries {schema : SchemaRef}
    {parts : List (SchemaRef × Tree Label Leaf × Document)}
    (hS : ((s.model.declarations schema).map Member.name).Nodup)
    (hm : ∀ p ∈ parts, p.1 ∈ s.model.members schema) (hn : (parts.map Prod.fst).Nodup) :
    (Entries.keys (memberEntries s parts)).Nodup := by
  have hmembers : ∀ member ∈ parts.map Prod.fst, member ∈ s.model.members schema :=
    List.forall_mem_map.mpr hm
  rw [keys_memberEntries]
  exact List.Nodup.map_on (fun a ha b hb hab =>
    Model.eq_of_memberName? hS (hmembers a ha) (hmembers b hb) hab) hn

/-- Members that conform make a structure that does, under the names that lead back to them. -/
theorem conforms_of_members {schema : SchemaRef}
    {parts : List (SchemaRef × Tree Label Leaf × Document)} (hS : s.model.LaidOut schema)
    (hf : (s.model.typeOf schema).form = .structure)
    (hm : ∀ p ∈ parts, p.1 ∈ s.model.members schema) (hn : ∀ p ∈ parts, p.2.2.isNull = false)
    (hc : s.model.checkRequired schema (Entries.ofList (memberEntries s parts)).contains = .ok ())
    (hr : r.label schema { schema }) (h : ∀ p ∈ parts, p.2.2.Conforms s.model r p.1) :
    (Document.Conforms s.model r schema
      (.map { schema } (Entries.ofList (memberEntries s parts)))) := by
  have hfound : ∀ p ∈ parts,
      s.model.member? schema ((s.model.memberName? p.1).getD "") = some p.1 :=
    fun p hp => Model.member?_memberName? hS.names_nodup (hm p hp)
  refine .members hf hr (Entries.nodup_keys_ofList _) ?_ ?_ ?_
    (Document.checkRequired_eq_ok.mp hc)
  · intro e he
    obtain ⟨p, hp, rfl⟩ := exists_part_of_mem he
    exact hn p hp
  · intro e he
    obtain ⟨p, hp, rfl⟩ := exists_part_of_mem he
    rw [hfound p hp]
    rfl
  · intro e he member hmember
    obtain ⟨p, hp, rfl⟩ := exists_part_of_mem he
    rw [hfound p hp] at hmember
    obtain rfl := Option.some.inj hmember
    exact h p hp

/-- What is read conforms, unless a tag strays. -/
theorem Reads.conforms (hl : src.Lawful s.model) (hk : src.KeepsTo r) {depth : Nat}
    {schema : SchemaRef} {t : Tree Label Leaf} {d : Document} (h : Reads src s depth schema t d)
    (hS : s.model.LaidOut schema) (hn : ¬ src.Strays s.model schema t) :
    d.Conforms s.model r schema := by
  induction h with
  | null l => exact .null (hk.label _)
  | document hf hnull => exact .anything hf (hk.anything _ _ hnull)
  | scalar hf _ hv => exact .scalar (hl.scalar_type hv ▸ hf) (hk.label _) (hk.scalar _ _)
  | @members depth schema l entries parts hf hd hp hr hc ih =>
      have hmem : ∀ p ∈ parts, p.1 ∈ s.model.members schema := by
        intro p hp'
        obtain ⟨key, -, hk, -⟩ := src.exists_entry_of_presentMembers_eq hp hp'
        exact hl.mem_members hk
      refine conforms_of_members hS hf hmem (fun p hp' => ?_) hc (hk.label _) fun p hp' =>
        ih p hp' (hS.member (hmem p hp')) fun hs =>
          hn (.member hf (hp ▸ List.mem_map_of_mem hp') hs)
      obtain ⟨key, -, -, hu⟩ := src.exists_entry_of_presentMembers_eq hp hp'
      rw [(hr p hp').isNull hl, hu]
  | @known depth schema member l entries key u d hf hd hc hm hr ih =>
      have hmem := hl.mem_members hm
      refine .union hf (hk.label _) ?_ (fun _ => hk.unknown _ _) ?_
      · rw [hr.isNull hl]
        exact (src.mem_of_candidates hc).2.1
      · intro found hfound
        rw [Model.member?_memberName? hS.names_nodup hmem] at hfound
        obtain rfl := Option.some.inj hfound
        exact ih (hS.member hmem) fun hs => hn (.known hf hc hm hs)
  | @unknown depth schema l entries tag u hf hd hc hm =>
      -- the value is kept as it is, so a member with that name had better allow anything
      obtain ⟨-, hnull, -⟩ := src.mem_of_candidates hc
      refine .union hf (hk.label _) ((hl.isNull_untyped u).trans hnull)
        (fun _ => hk.unknown _ _) ?_
      · intro found hfound
        by_contra hbad
        have hdoc : (s.model.typeOf found).form ≠ .document := fun h =>
          hbad (.anything h (hk.anything _ _ hnull))
        exact hn (.tag hf hc hm hfound hdoc)
  | @list depth schema member l items parts hm hd hkept hr ih =>
      refine .list hm (hk.label _) ?_ ?_
      · intro d hd hnull
        obtain ⟨p, hp, rfl⟩ := List.mem_map.mp hd
        rw [(hr p hp).isNull hl] at hnull
        exact (s.mem_of_kept_eq hkept hp).2 hnull
      · intro d hd
        obtain ⟨p, hp, rfl⟩ := List.mem_map.mp hd
        exact ih p hp (hS.member (Model.mem_of_listMember hm)) fun hs =>
          hn (.item hm (s.mem_of_kept_eq hkept hp).1 hs)
  | @map depth schema member l entries parts hm hd hkept hr ih =>
      refine .map hm (hk.label _) (Entries.nodup_keys_ofList _) ?_ ?_
      · intro e he hnull
        obtain ⟨p, hp, rfl⟩ := List.mem_map.mp (Entries.mem_of_mem_ofList he)
        rw [(hr p hp).isNull hl] at hnull
        exact (s.mem_of_kept_eq hkept hp).2 hnull
      · intro e he
        obtain ⟨p, hp, rfl⟩ := List.mem_map.mp (Entries.mem_of_mem_ofList he)
        exact ih p hp (hS.member (Model.mem_of_mapValue hm)) fun hs =>
          hn (.entry hm (s.mem_of_kept_eq hkept hp).1 hs)

/-! ### What is not lost -/

section
variable {depth : Nat} {schema member : SchemaRef} {l : Label} {d : Document}

/-- Every member that is present once is read into an entry under its name. -/
theorem Reads.exists_member {entries : List (String × Tree Label Leaf)} {u : Tree Label Leaf}
    (hl : src.Lawful s.model) (hS : s.model.LaidOut schema)
    (hf : (s.model.typeOf schema).form = .structure)
    (hn : ((src.presentMembers schema Tree.isNull entries).map Prod.fst).Nodup)
    (h : Reads src s depth schema (.map l entries) d)
    (hu : (member, u) ∈ src.presentMembers schema Tree.isNull entries) :
    ∃ es, d = .map { schema } es ∧ ∃ e ∈ es, s.model.member? schema e.1 = some member ∧
      Reads src s (depth + 1) member u e.2 := by
  obtain ⟨parts, hp, hr, rfl⟩ := h.of_structure hf
  have hmem : ∀ p ∈ parts, p.1 ∈ s.model.members schema := fun p hp' => by
    obtain ⟨_, -, hkey, -⟩ := src.exists_entry_of_presentMembers_eq hp hp'
    exact hl.mem_members hkey
  rw [hp] at hu hn
  obtain ⟨p, hp', he⟩ := List.mem_map.mp hu
  obtain ⟨rfl, rfl⟩ : p.1 = member ∧ p.2.1 = u := by simpa using he
  refine ⟨_, rfl, ((s.model.memberName? p.1).getD "", p.2.2), ?_,
    Model.member?_memberName? hS.names_nodup (hmem p hp'), hr p hp'⟩
  rw [Entries.ofList_of_nodup
    (nodup_memberEntries hS.names_nodup hmem (by simpa [Function.comp_def] using hn))]
  exact List.mem_map_of_mem hp'

/-- Every element that is not null is read into one. -/
theorem Reads.exists_item {items : List (Tree Label Leaf)} {u : Tree Label Leaf}
    (hm : s.model.listMember schema = .ok member)
    (h : Reads src s depth schema (.list l items) d) (hu : u ∈ items) (hn : u.isNull = false) :
    ∃ ds, d = .list { schema } ds ∧ ∃ e ∈ ds, Reads src s (depth + 1) member u e := by
  obtain ⟨parts, hk, hr, rfl⟩ := h.of_list hm
  have hu' : .ok u ∈ s.kept schema Tree.isNull items := s.mem_kept_of_not_null hu hn
  rw [hk] at hu'
  obtain ⟨p, hp, he⟩ := List.mem_map.mp hu'
  obtain rfl := Except.ok.inj he
  exact ⟨_, rfl, p.2, List.mem_map_of_mem hp, hr p hp⟩

/-- Every entry of a map that is not null is read into one. -/
theorem Reads.exists_entry {entries : List (String × Tree Label Leaf)}
    {e : String × Tree Label Leaf} (hm : s.model.mapValue schema = .ok member)
    (hn : (Entries.keys entries).Nodup) (h : Reads src s depth schema (.map l entries) d)
    (he : e ∈ entries) (hnull : e.2.isNull = false) :
    ∃ es, d = .map { schema } es ∧ ∃ e' ∈ es, Reads src s (depth + 1) member e.2 e'.2 := by
  obtain ⟨parts, hk, hr, rfl⟩ := h.of_map hm
  have he' : .ok e ∈ s.kept schema (fun e => e.2.isNull) entries :=
    s.mem_kept_of_not_null he hnull
  rw [hk] at he'
  obtain ⟨p, hp, hpe⟩ := List.mem_map.mp he'
  obtain rfl := Except.ok.inj hpe
  have hn : (Entries.keys (parts.map fun p => (p.1, p.2.2))).Nodup := by
    simpa [Entries.keys, Function.comp_def] using s.nodup_of_kept hn hk
  refine ⟨_, rfl, (p.1, p.2.2), ?_, hr p hp⟩
  rw [Entries.ofList_of_nodup hn]
  exact List.mem_map_of_mem hp

end

end Reader

/-! ### Strays in JSON -/

namespace Json

open Reader (Reads)

variable {m : Model} {c : Config} {w : Bool}

/-- Distinct keys stand for distinct members. -/
theorem nodup_presentMembers {schema : SchemaRef} {entries : List (String × Json)}
    (h : (Entries.keys entries).Nodup) :
    (((Json.source m c w).presentMembers schema Tree.isNull entries).map Prod.fst).Nodup :=
  Source.nodup_presentMembers _ (Json.source_lawful m c w).key_unique h

theorem isNull_of_strays {src : Source Unit Json.Leaf} {schema : SchemaRef} {j : Json}
    (h : src.Strays m schema j) : j.isNull = false := by
  cases h <;> rfl

/-- A value that is kept as it is carries no member as its schema, so it conforms to none. -/
theorem not_conforms_toDocument {schema member : SchemaRef} {j : Json}
    (hm : member ∈ m.members schema) (hf : (m.typeOf member).form ≠ .document) :
    ¬ j.toDocument.Conforms m .labelled member := by
  intro h
  have hl : j.toDocument.label ≠ { schema := member } := by
    intro he
    have := toDocument_isMember j
    rw [Document.schema, he, Model.isMember_of_mem hm] at this
    simp at this
  generalize j.toDocument = d at h hl
  cases h with
  | null h => exact hl h
  | anything h => exact hf h
  | scalar _ h => exact hl h
  | members _ h => exact hl h
  | union _ h => exact hl h
  | list _ h => exact hl h
  | map _ h => exact hl h

/-- A stray tag is in what is read, under the name of a member it does not conform to. -/
theorem not_conforms_of_strays {config : Config} {schema : SchemaRef} {j : Json}
    (h : (Json.source m c w).Strays m schema j) (hS : m.LaidOut schema) (hk : j.DistinctKeys)
    {depth : Nat} {d : Document}
    (hr : Reads (Json.source m c w) { model := m, config } depth schema j d) :
    ¬ d.Conforms m .labelled schema := by
  intro hd
  induction h generalizing depth d with
  | @tag schema member l entries tag u hf hc hn hm hdoc =>
      obtain ⟨key, v, hc', hread⟩ := hr.of_union hf
      obtain ⟨rfl, rfl⟩ : tag = key ∧ u = v := by simpa [hc] using hc'
      -- what is kept has no schema, but the name asks for that of a member
      rcases hread with ⟨found, -, hfound, -⟩ | ⟨-, rfl⟩
      · simp [hn] at hfound
      · exact not_conforms_toDocument (Model.mem_of_member? hm).1 hdoc (hd.of_union hf member hm)
  | @member schema member l entries u hf hu _ ih =>
      -- the member is read from the stray part, and no other part takes its place
      obtain ⟨hkeys, hparts⟩ := hk.of_map
      obtain ⟨es, rfl, e, he, hm, hread⟩ :=
        hr.exists_member (s := { model := m, config }) (Json.source_lawful m c w) hS hf
          (nodup_presentMembers hkeys) hu
      obtain ⟨key, hke, -⟩ := (Json.source m c w).mem_presentMembers.mp hu
      exact ih (hS.member (Model.mem_of_member? hm).1) (hparts _ hke) hread
        (hd.of_structure hf e he member hm)
  | @known schema member l entries key u hf hc hm _ ih =>
      have hmem := (Model.mem_of_memberByKey? hm).1
      obtain ⟨key', v, hc', hread⟩ := hr.of_union hf
      obtain ⟨rfl, rfl⟩ : key = key' ∧ u = v := by simpa [hc] using hc'
      have he := ((Json.source m c w).mem_of_candidates hc).1
      rcases hread with ⟨found, e, hfound, hread, rfl⟩ | ⟨hnone, -⟩
      · obtain rfl : member = found := by simpa [hm] using hfound
        exact ih (hS.member hmem) (hk.of_map.2 _ he) hread
          (hd.of_union hf _ (Model.member?_memberName? hS.names_nodup hmem))
      · simp [hm] at hnone
  | @item schema member l items u hm hu hs ih =>
      obtain ⟨ds, rfl, e, he, hread⟩ :=
        hr.exists_item (s := { model := m, config }) hm hu (isNull_of_strays hs)
      exact ih (hS.member (Model.mem_of_listMember hm)) (hk.of_list _ hu) hread
        (hd.of_list hm e he)
  | @entry schema member l entries e hm he hs ih =>
      obtain ⟨hkeys, hparts⟩ := hk.of_map
      obtain ⟨es, rfl, e', he', hread⟩ :=
        hr.exists_entry (s := { model := m, config }) hm hkeys he (isNull_of_strays hs)
      exact ih (hS.member (Model.mem_of_mapValue hm)) (hparts _ he) hread (hd.of_map hm e' he')

end Json

/-! ### Soundness -/

/--
Documents, and JSON whose members go by their names, are read into documents that conform. JSON by
wire keys is when no tag in it strays, and only then.
-/
theorem read_conforms {m : Model} {S : SchemaRef} (hS : m.LaidOut S) :
    (∀ (config : Config) (d₀ d : Document), d₀.readAs m config S = .ok d →
      d.Conforms m .labelled S) ∧
    (∀ (c : Codec) (j : Json) (d : Document), c.wireNames = false → c.ofJson m S j = .ok d →
      d.Conforms m .labelled S) ∧
    ∀ (c : Codec) (j : Json) (d : Document), c.ofJson m S j = .ok d →
      (¬ (c.source m).Strays m S j → d.Conforms m .labelled S) ∧
      (j.DistinctKeys → (c.source m).Strays m S j → ¬ d.Conforms m .labelled S) := by
  refine ⟨fun config d₀ d h => ?_, fun c j d hw h => ?_, fun c j d h => ?_⟩
  · exact (Reader.documentAt_eq_ok_iff.mp h).conforms (Document.source_lawful m)
      (Source.keepsTo_labelled _) hS (Source.not_strays rfl)
  · refine (Reader.documentAt_eq_ok_iff.mp h).conforms (Json.source_lawful m _ _)
      (Source.keepsTo_labelled _) hS (Source.not_strays ?_)
    simp only [Codec.source, hw]
    rfl
  · have hr := Reader.documentAt_eq_ok_iff.mp h
    exact ⟨hr.conforms (Json.source_lawful m _ _) (Source.keepsTo_labelled _) hS,
      fun hk hs => Json.not_conforms_of_strays hs hS hk hr⟩

/-- A union of the gallery, one of whose members, a number, goes by another key on the wire. -/
def Gallery.choice : SchemaRef :=
  schema model "t#Choice"

theorem Gallery.choice_form : (model.typeOf choice).form = .union := by
  decide

/-- Read by its wire key, the number of the union conforms. -/
theorem read_conforms_choice : ∃ d, ({} : Codec).ofJson Gallery.model Gallery.choice
      (.object [("num", .number (.ofInt 5))]) = .ok d ∧
    d.Conforms Gallery.model .labelled Gallery.choice := by
  obtain ⟨d, hd⟩ : ∃ d, ({} : Codec).ofJson Gallery.model Gallery.choice
      (.object [("num", .number (.ofInt 5))]) = .ok d := ⟨_, rfl⟩
  refine ⟨d, hd, ((read_conforms (Gallery.allLaidOut.laidOut _)).2.2 _ _ _ hd).1 fun hs => ?_⟩
  cases hs with
  | tag _ hc hn =>
      obtain ⟨rfl, -⟩ := Prod.mk.inj (List.cons.inj hc).1
      revert hn
      decide
  | member hf => simp [Gallery.choice_form] at hf
  | known _ hc _ hs =>
      obtain ⟨-, rfl⟩ := Prod.mk.inj (List.cons.inj hc).1
      cases hs
  | entry hm => exact absurd (Model.form_of_mapValue hm) (by simp [Gallery.choice_form])

/-- What a text under the name of that number is read as. -/
def Gallery.strayChoice : Document :=
  .map { schema := choice } [("number", Document.ofString "abc")]

/-- A text under the name of the number is taken as it is and stands where a number should. -/
theorem stray_choice_not_conforms :
    ({} : Codec).ofJson Gallery.model Gallery.choice (.object [("number", .string "abc")]) =
      .ok Gallery.strayChoice ∧
    ∀ r, ¬ Gallery.strayChoice.Conforms Gallery.model r Gallery.choice := by
  refine ⟨rfl, fun r h => ?_⟩
  obtain ⟨member, hm, hf⟩ : ∃ member, Gallery.model.member? Gallery.choice "number" = some member ∧
      (Gallery.model.typeOf member).form = .scalar (.integer .integer) :=
    ⟨_, rfl, by decide⟩
  cases h.of_union Gallery.choice_form member hm with
  | anything hf' => simp [hf] at hf'
  | scalar hf' => simp [hf, Scalar.type] at hf'

end ShapeCodec
