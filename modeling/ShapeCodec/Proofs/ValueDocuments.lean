import ShapeCodec.Proofs.RoundTrip
import ShapeCodec.Proofs.Sources
import ShapeCodec.Proofs.TypeMatching
import ShapeCodec.Proofs.ValueParts

/-!
# Documents where there are values

What can be read as a value of a type that matches the schema can be read as a document: reading a
document asks for less. Each container of the type is one of the schema, its parts are read for the
type and so can be read as documents, and what a record has to have its fields have asked for.
-/

namespace ShapeCodec

namespace Reader

variable {Label Leaf : Type} {src : Source Label Leaf} {s : Scope} {depth : Nat} {S : SchemaRef}
  {l : Label}

/-! ### Containers whose parts can be read -/

theorem exists_reads_of_items {member : SchemaRef} {items us : List (Tree Label Leaf)}
    (hm : s.model.listMember S = .ok member) (hd : depth < s.config.maxDepth)
    (hk : s.kept S Tree.isNull items = us.map .ok)
    (h : ∀ u ∈ us, ∃ d, Reads src s (depth + 1) member u d) :
    ∃ d, Reads src s depth S (.list l items) d := by
  obtain ⟨parts, rfl, hp⟩ := exists_parts h
  refine ⟨_, .list hm hd ?_ hp⟩
  rw [hk, List.map_map]
  rfl

theorem exists_reads_of_entries {member : SchemaRef} {entries us : List (String × Tree Label Leaf)}
    (hm : s.model.mapValue S = .ok member) (hd : depth < s.config.maxDepth)
    (hk : s.kept S (fun e => e.2.isNull) entries = us.map .ok)
    (h : ∀ u ∈ us, ∃ d, Reads src s (depth + 1) member u.2 d) :
    ∃ d, Reads src s depth S (.map l entries) d := by
  obtain ⟨parts, rfl, hp⟩ := exists_parts_beside (P := fun _ => Reads src s (depth + 1) member) h
  refine ⟨_, .map hm hd ?_ hp⟩
  rw [hk, List.map_map]
  rfl

/-- A structure can be read if its members can, and the ones that it has to have are there. -/
theorem exists_reads_of_members {entries : List (String × Tree Label Leaf)}
    (hf : (s.model.typeOf S).form = .structure) (hd : depth < s.config.maxDepth)
    (h : ∀ p ∈ src.presentMembers S Tree.isNull entries,
      ∃ d, Reads src s (depth + 1) p.1 p.2 d)
    (hr : ∀ member ∈ s.model.members S, (s.model.traits member).mustBePresent = true →
      ∃ p ∈ src.presentMembers S Tree.isNull entries, p.1 = member) :
    ∃ d, Reads src s depth S (.map l entries) d := by
  obtain ⟨parts, hpresent, hp⟩ := exists_parts_beside h
  have hcheck : Document.HasRequired s.model S (Entries.ofList (memberEntries s parts)) := by
    intro member hm hmust name hname
    obtain ⟨p, hin, rfl⟩ := hr member hm hmust
    rw [← hpresent] at hin
    obtain ⟨q, hq, rfl⟩ := List.mem_map.mp hin
    refine Entries.mem_keys_ofList.mpr (List.mem_map.mpr ⟨_, List.mem_map_of_mem hq, ?_⟩)
    rw [hname]
    rfl
  exact ⟨_, .members hf hd hpresent.symm hp (Document.checkRequired_eq_ok.mpr hcheck)⟩

theorem exists_reads_of_candidate {entries : List (String × Tree Label Leaf)} {key : String}
    {u : Tree Label Leaf} (hf : (s.model.typeOf S).form = .union)
    (hd : depth < s.config.maxDepth) (hc : src.candidates Tree.isNull entries = [(key, u)])
    (h : ∀ member, src.member? S key = some member → ∃ d, Reads src s (depth + 1) member u d) :
    ∃ d, Reads src s depth S (.map l entries) d := by
  cases hm : src.member? S key with
  | none => exact ⟨_, .unknown hf hd hc hm⟩
  | some member =>
      obtain ⟨d, hr⟩ := h member hm
      exact ⟨_, .known hf hd hc hm hr⟩

end Reader

namespace Typed

open Reader (Reads)

variable {Label Leaf : Type} {src : Source Label Leaf} {s : Scope} {standin : Standin}
  {depth : Nat} {S : SchemaRef} {t : Tree Label Leaf} {v : Value}

/-! ### Values of declared types -/

section
variable {type : Nat}
  (ih : ∀ u, u.Inside t → ∀ {depth : Nat} {S : SchemaRef} {v : Value} {type : ValueType},
    Matches s.model s.types type S → valueWith src s standin u type depth S = .ok v →
      ∃ d, Reads src s.toScope depth S u d)
include ih

theorem exists_reads_of_record {fields : List (Field ValueType)} (hl : src.Lawful s.model)
    (hb : (s.types.get type).body = .record fields)
    (hf : (s.model.typeOf S).form = .structure) (hlen : (s.model.members S).length ≤ fields.length)
    (hr : ∀ i field member, fields[i]? = some field → s.model.memberAt? S i = some member →
      Matches s.model s.types field.type member)
    (h : valueWith src s standin t (.named type) depth S = .ok v) :
    ∃ d, Reads src s.toScope depth S t d := by
  obtain ⟨l, entries, hd, rfl, hread, hrequired⟩ := of_valueWith_record hb h
  refine Reader.exists_reads_of_members hf hd (fun p hp => ?_) fun member hm hmust => ?_
  · obtain ⟨key, he, hkey, -⟩ := src.mem_presentMembers.mp hp
    obtain ⟨i, hi⟩ := Model.mem_members_iff.mp (hl.mem_members hkey)
    obtain ⟨field, hfield⟩ : ∃ field, fields[i]? = some field :=
      ⟨_, List.getElem?_eq_getElem (Nat.lt_of_lt_of_le (Model.lt_of_memberAt? hi) hlen)⟩
    obtain ⟨w, hw⟩ := hread p hp i field (Model.expectMemberIndex_of_memberAt? hi) hfield
    exact ih _ (.entry he) (hr i field p.1 hfield hi).present hw
  · obtain ⟨i, hi⟩ := Model.mem_members_iff.mp hm
    obtain ⟨p, hp, hpi⟩ :=
      hrequired i member (Nat.lt_of_lt_of_le (Model.lt_of_memberAt? hi) hlen) hi hmust
    obtain ⟨key, -, hkey, -⟩ := src.mem_presentMembers.mp hp
    have hat := Model.memberAt?_of_index (hl.mem_members hkey) hpi
    exact ⟨p, hp, Option.some.inj (hat.symm.trans hi)⟩

theorem exists_reads_of_union {variants : List (Field ValueType)} {unknown : Option String}
    (hl : src.Lawful s.model) (hb : (s.types.get type).body = .union variants unknown)
    (hf : (s.model.typeOf S).form = .union)
    (hr : ∀ i variant member, variants[i]? = some variant → s.model.memberAt? S i = some member →
      Matches s.model s.types variant.type member)
    (h : valueWith src s standin t (.named type) depth S = .ok v) :
    ∃ d, Reads src s.toScope depth S t d := by
  obtain ⟨l, entries, key, u, hd, rfl, hc, hread⟩ := of_valueWith_union hb h
  obtain ⟨he, -, -⟩ := src.mem_of_candidates hc
  refine Reader.exists_reads_of_candidate hf hd hc fun member hm => ?_
  obtain ⟨i, variant, w, hi, hv, hw⟩ := hread member hm
  have hat := Model.memberAt?_of_index (hl.mem_members hm) hi
  exact ih _ (.entry he) (hr i variant member hv hat) hw

end

/-- What is read as a value of a type can be read as a document of a schema it matches. -/
theorem exists_reads (hl : src.Lawful s.model) {type : ValueType}
    (ht : Matches s.model s.types type S) (h : valueWith src s standin t type depth S = .ok v) :
    ∃ d, Reads src s.toScope depth S t d := by
  induction t using Tree.induct_inside generalizing depth S type v with
  | h t ih =>
    cases hn : t.isNull with
    | true =>
        obtain ⟨l, rfl⟩ := Tree.isNull_eq_true hn
        exact ⟨_, .null l⟩
    | false =>
        induction type generalizing v with
        | document =>
            rw [valueWith_document] at h
            obtain ⟨d, hd, -⟩ := Result.map_eq_ok.mp h
            exact ⟨d, Reader.documentAt_eq_ok_iff.mp hd⟩
        | option type iht =>
            rw [valueWith_option hn] at h
            obtain ⟨w, hw, -⟩ := Result.map_eq_ok.mp h
            exact iht ht.of_option hw
        | scalar type =>
            cases ht.step with
            | scalar hf =>
                rw [valueWith_scalar] at h
                obtain ⟨w, hw, -⟩ := Result.map_eq_ok.mp h
                exact ⟨_, .scalar hf hn hw⟩
        | list element =>
            cases ht.step with
            | list hm hr =>
                obtain ⟨_, l, items, us, hm', hd, rfl, hk, hread⟩ := of_valueWith_list h
                obtain rfl := Except.ok.inj (hm.symm.trans hm')
                refine Reader.exists_reads_of_items hm hd hk fun u hu => ?_
                obtain ⟨w, hw⟩ := hread u hu
                exact ih _ (.item (Scope.mem_of_kept_eq _ hk hu).1) hr hw
        | map sorted type =>
            cases ht.step with
            | map hm hr =>
                obtain ⟨_, l, entries, us, hm', hd, rfl, hk, hread⟩ := of_valueWith_map h
                obtain rfl := Except.ok.inj (hm.symm.trans hm')
                refine Reader.exists_reads_of_entries hm hd hk fun u hu => ?_
                obtain ⟨w, hw⟩ := hread u hu
                exact ih _ (.entry (Scope.mem_of_kept_eq _ hk hu).1) hr hw
        | named type =>
            cases ht.step with
            | record hb hf hlen hr => exact exists_reads_of_record ih hl hb hf hlen hr h
            | union hb hf hlen hr => exact exists_reads_of_union ih hl hb hf hr h
            | enumeration hw hf =>
                obtain ⟨w, hscalar, -⟩ := of_valueWith_enumeration hw h
                exact ⟨_, .scalar hf hn hscalar⟩

end Typed
end ShapeCodec
