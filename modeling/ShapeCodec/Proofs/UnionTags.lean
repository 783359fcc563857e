import Mathlib.Logic.Relation
import ShapeCodec.Proofs.Soundness

/-!
# Unions through documents

A union is read from JSON, kept as a document and read again. A known member stays that member,
however often the document is read; a tag that is unknown on the wire stays unknown exactly when no
member has it for a name, since documents go by names.
-/

namespace ShapeCodec

open ShapeCodec.Tree (Visited)
open Source (Chosen)

/-- What a union is found to hold in JSON. -/
def Codec.unionMember (c : Codec) (m : Model) (S : SchemaRef) (j : Json) :
    Result (Chosen (Visited Unit Json.Leaf Unit)) :=
  (c.source m).openUnion { model := m, config := c.config } 0 S j.parts

namespace Document

/-- What a union is found to hold in a document. -/
def unionMember (m : Model) (config : Config) (S : SchemaRef) (d : Document) :
    Result (Chosen (Visited Label Scalar Unit)) :=
  (Document.source m).openUnion { model := m, config } 0 S d.parts

/-- A document is read under a schema again and again, with whatever settings. -/
def Rereads (m : Model) (S : SchemaRef) : Document → Document → Prop :=
  Relation.ReflTransGen fun d d' => ∃ config, d.readAs m config S = .ok d'

/-- A union whose one entry is not null and goes by the name of a member. -/
def Holds (m : Model) (S member : SchemaRef) (d : Document) : Prop :=
  ∃ l key e, d = .map l [(key, e)] ∧ e.isNull = false ∧ m.member? S key = some member

variable {m : Model} {S member : SchemaRef}

/-- Every entry of a document counts as a member of a union. -/
theorem candidates_singleton (key : String) {e : Document} (h : e.isNull = false) :
    (Document.source m).candidates Tree.isNull [(key, e)] = [(key, e)] := by
  simp [Source.candidates, h, Document.source]

theorem unionMember_singleton (l : Label) (key : String) {e : Document} (h : e.isNull = false)
    {config : Config} (hd : 0 < config.maxDepth) :
    unionMember m config S (.map l [(key, e)]) =
      .ok ((Document.source m).chosen S key ⟨e, ()⟩) := by
  rw [unionMember, Tree.parts_eq_partsWith]
  exact (Document.source m).openUnion_map _ hd S _ l (candidates_singleton key h)

theorem Holds.unionMember {d : Document} (h : Holds m S member d) {config : Config}
    (hd : 0 < config.maxDepth) : ∃ e, d.unionMember m config S = .ok (.known member e) := by
  obtain ⟨l, key, e, rfl, he, hm⟩ := h
  refine ⟨⟨e, ()⟩, ?_⟩
  rw [unionMember_singleton l key he hd, Source.chosen]
  simp only [Document.source, hm]

/-- Reading a union again keeps the member that it holds. -/
theorem Holds.readAs (hf : (m.typeOf S).form = .union)
    (hn : ((m.declarations S).map Member.name).Nodup) {d d' : Document} (h : Holds m S member d)
    {config : Config} (hr : d.readAs m config S = .ok d') : Holds m S member d' := by
  obtain ⟨l, key, e, rfl, he, hm⟩ := h
  obtain ⟨key', e', hc, hread⟩ := (Reader.documentAt_eq_ok_iff.mp hr).of_union hf
  obtain ⟨rfl, rfl⟩ : key = key' ∧ e = e' := by simpa [candidates_singleton key he] using hc
  rcases hread with ⟨found, e', hfound, hread, rfl⟩ | ⟨hnone, -⟩
  · obtain rfl : member = found := by simpa [Document.source, hm] using hfound
    refine ⟨_, _, _, rfl, ?_, Model.member?_memberName? hn (Model.mem_of_member? hm).1⟩
    rw [hread.isNull (Document.source_lawful m), he]
  · simp [Document.source, hm] at hnone

theorem Holds.rereads (hf : (m.typeOf S).form = .union)
    (hn : ((m.declarations S).map Member.name).Nodup) {d d' : Document} (h : Holds m S member d)
    (hr : Rereads m S d d') : Holds m S member d' := by
  induction hr with
  | refl => exact h
  | tail _ hstep ih =>
      obtain ⟨config, hstep⟩ := hstep
      exact ih.readAs hf hn hstep

/-- A union whose tag is no name is read as what it is. -/
theorem readAs_unknown (hf : (m.typeOf S).form = .union) {tag : String} {e : Document}
    (he : e.isNull = false) (ht : m.member? S tag = none) {config : Config}
    (hd : 0 < config.maxDepth) :
    readAs m config S (.map { schema := S } [(tag, e)]) =
      .ok (.map { schema := S } [(tag, e)]) :=
  Reader.documentAt_eq_ok_iff.mpr (.unknown hf hd (candidates_singleton tag he) ht)

end Document

namespace Codec

variable {c : Codec} {m : Model} {S : SchemaRef} {j : Json}

/-- What is behind a report: room for a container, and one entry that counts. -/
theorem unionMember_eq_ok {found : Chosen (Visited Unit Json.Leaf Unit)} :
    c.unionMember m S j = .ok found ↔
      0 < c.config.maxDepth ∧ ∃ l entries key u, j = .map l entries ∧
        (c.source m).candidates Tree.isNull entries = [(key, u)] ∧
        found = (c.source m).chosen S key ⟨u, ()⟩ := by
  rw [unionMember, Tree.parts_eq_partsWith]
  exact (c.source m).openUnion_eq_ok _

/-- A union with an unknown tag is decoded into its tag and its value. -/
theorem ofJson_unknown (hf : (m.typeOf S).form = .union) {tag : String}
    {v : Visited Unit Json.Leaf Unit} (h : c.unionMember m S j = .ok (.unknown tag v)) :
    v.tree.isNull = false ∧
      c.ofJson m S j = .ok (.map { schema := S } [(tag, Json.toDocument v.tree)]) := by
  obtain ⟨hd, l, entries, key, u, rfl, hc, hfound⟩ := unionMember_eq_ok.mp h
  cases hm : (c.source m).member? S key with
  | some member => simp [Source.chosen, hm] at hfound
  | none =>
      obtain ⟨rfl, rfl⟩ : tag = key ∧ v = ⟨u, ()⟩ := by simpa [Source.chosen, hm] using hfound
      exact ⟨((c.source m).mem_of_candidates hc).2.1,
        Reader.documentAt_eq_ok_iff.mpr (.unknown hf hd hc hm)⟩

/-- A union with a known member is decoded into a document that holds it. -/
theorem holds_of_ofJson (hf : (m.typeOf S).form = .union)
    (hn : ((m.declarations S).map Member.name).Nodup) {member : SchemaRef}
    {v : Visited Unit Json.Leaf Unit} {d : Document}
    (h : c.unionMember m S j = .ok (.known member v)) (hr : c.ofJson m S j = .ok d) :
    d.Holds m S member := by
  obtain ⟨hd, l, entries, key, u, rfl, hc, hfound⟩ := unionMember_eq_ok.mp h
  obtain ⟨key', u', hc', hread⟩ := (Reader.documentAt_eq_ok_iff.mp hr).of_union hf
  obtain ⟨rfl, rfl⟩ : key = key' ∧ u = u' := by simpa [hc] using hc'
  rcases hread with ⟨member', e, hm, hread, rfl⟩ | ⟨hm, -⟩
  · obtain ⟨rfl, -⟩ : member = member' ∧ v = ⟨u, ()⟩ := by
      simpa [Source.chosen, hm] using hfound
    refine ⟨_, _, _, rfl, ?_, Model.member?_memberName? hn (Model.mem_of_memberByKey? hm).1⟩
    rw [hread.isNull (Json.source_lawful m _ _)]
    exact ((c.source m).mem_of_candidates hc).2.1
  · simp [Source.chosen, hm] at hfound

end Codec

/--
A union that is decoded stays what it was found to hold, with one exception. A known member is found
again, whatever the document is read into on the way. An unknown tag is, with its value, in a
document that reading gives back unchanged, if no member has the tag for a name; if one has, that
member is found.
-/
theorem union_member_through_document {m : Model} {S : SchemaRef}
    (hf : (m.typeOf S).form = .union) (hn : ((m.declarations S).map Member.name).Nodup)
    (c : Codec) (j : Json) :
    (∀ tag v, c.unionMember m S j = .ok (.unknown tag v) → ∃ d, c.ofJson m S j = .ok d ∧
      ∀ config : Config, 0 < config.maxDepth →
        (m.member? S tag = none → d.readAs m config S = .ok d ∧
          d.unionMember m config S = .ok (.unknown tag ⟨Json.toDocument v.tree, ()⟩)) ∧
        ∀ member, m.member? S tag = some member →
          d.unionMember m config S = .ok (.known member ⟨Json.toDocument v.tree, ()⟩)) ∧
    ∀ member v, c.unionMember m S j = .ok (.known member v) → ∀ d d', c.ofJson m S j = .ok d →
      d.Rereads m S d' → ∀ config : Config, 0 < config.maxDepth →
        ∃ e, d'.unionMember m config S = .ok (.known member e) := by
  constructor
  -- the tag is the key of the only entry, and is now compared with names
  · intro tag v h
    obtain ⟨hv, hd⟩ := Codec.ofJson_unknown hf h
    rw [← Json.toDocument_isNull] at hv
    refine ⟨_, hd, fun config hdepth => ⟨fun ht => ⟨?_, ?_⟩, fun member hm => ?_⟩⟩
    · exact Document.readAs_unknown hf hv ht hdepth
    · rw [Document.unionMember_singleton _ tag hv hdepth, Source.chosen]
      simp only [Document.source, ht]
    · rw [Document.unionMember_singleton _ tag hv hdepth, Source.chosen]
      simp only [Document.source, hm]
  · intro member v h d d' hr hre config hdepth
    exact ((Codec.holds_of_ofJson hf hn h hr).rereads hf hn hre).unionMember hdepth

/-- A tag that is neither key nor name stays unknown; the number stays the number. -/
theorem union_member_through_document_choice :
    (∃ d, ({} : Codec).ofJson Gallery.model Gallery.choice
        (.object [("future", .boolean true)]) = .ok d ∧
      d.readAs Gallery.model {} Gallery.choice = .ok d ∧
      d.unionMember Gallery.model {} Gallery.choice =
        .ok (.unknown "future" ⟨Document.ofScalar (.boolean true), ()⟩)) ∧
    ∃ d member e, ({} : Codec).ofJson Gallery.model Gallery.choice
        (.object [("num", .number (.ofInt 5))]) = .ok d ∧
      d.unionMember Gallery.model {} Gallery.choice = .ok (.known member e) := by
  have hn := (Gallery.allLaidOut.laidOut Gallery.choice).names_nodup
  constructor
  · obtain ⟨d, hd, h⟩ := (union_member_through_document Gallery.choice_form hn {}
      (.object [("future", .boolean true)])).1 "future" ⟨Json.boolean true, ()⟩ rfl
    exact ⟨d, hd, (h {} (by decide)).1 (by decide)⟩
  · obtain ⟨d, hd⟩ : ∃ d, ({} : Codec).ofJson Gallery.model Gallery.choice
        (.object [("num", .number (.ofInt 5))]) = .ok d := ⟨_, rfl⟩
    obtain ⟨e, he⟩ := (union_member_through_document Gallery.choice_form hn {}
      (.object [("num", .number (.ofInt 5))])).2 (.member (.declared 13) 1)
        ⟨Json.number (.ofInt 5), ()⟩ rfl d d hd .refl {} (by decide)
    exact ⟨d, _, e, hd, he⟩

/-- The name of the number is no key, so it is unknown on the wire; the document has a number. -/
theorem stray_choice_becomes_known :
    ({} : Codec).unionMember Gallery.model Gallery.choice
        (.object [("number", .number (.ofInt 5))]) =
      .ok (.unknown "number" ⟨Json.number (.ofInt 5), ()⟩) ∧
    ∃ d member e, ({} : Codec).ofJson Gallery.model Gallery.choice
        (.object [("number", .number (.ofInt 5))]) = .ok d ∧
      d.unionMember Gallery.model {} Gallery.choice = .ok (.known member e) :=
  ⟨rfl, _, _, _, rfl, rfl⟩

end ShapeCodec
