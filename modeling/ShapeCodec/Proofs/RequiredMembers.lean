import Mathlib.Data.List.Find
import ShapeCodec.Gallery.Types
import ShapeCodec.Proofs.Conformance
import ShapeCodec.Proofs.Faults
import ShapeCodec.Proofs.Layout
import ShapeCodec.Proofs.Sources
import ShapeCodec.Proofs.ValueParts
import ShapeCodec.Typed.Codec

/-!
# Required members

A structure is checked for the members that have to be there in three ways: building a document
looks at the entries it is given, reading a document looks at what has been read, and reading a
record asks each field in turn, with defaults standing in on the way. All three refuse a structure
for the same member, the first in the order of declaration, and only a default can come between.
-/

namespace ShapeCodec

open ShapeCodec.Tree (Visited)

/-! ### The first member that is missing -/

namespace Model

variable {m : Model} {S member : SchemaRef} {there : SchemaRef → Bool}

/-- The first member that has to be present and is not there. -/
def firstMissing? (m : Model) (S : SchemaRef) (there : SchemaRef → Bool) : Option SchemaRef :=
  (m.members S).find? fun member => (m.traits member).mustBePresent && !there member

/-- The check that goes by names finds the first member that is missing. -/
theorem checkRequired_eq {present : String → Bool}
    (h : ∀ member ∈ m.members S, ∀ name, m.memberName? member = some name →
      present name = there member) :
    m.checkRequired S present = match m.firstMissing? S there with
      | some member => .error (m.missingMember member S)
      | none => .ok () := by
  have hfind : ((m.members S).find? fun member => (m.traits member).mustBePresent &&
      (m.memberName? member).any fun name => !present name) = m.firstMissing? S there := by
    refine List.find?_congr fun member hmem => ?_
    obtain ⟨name, hname⟩ := memberName?_of_mem hmem
    rw [hname, Option.any_some, h member hmem name hname]
  cases hmissing : m.firstMissing? S there with
  | some member => simp only [checkRequired, hfind, hmissing]
  | none => simp only [checkRequired, hfind, hmissing]

end Model

/-- The members that entries hold; one that is null is not held. -/
def Source.Holds {Label Leaf : Type} (src : Source Label Leaf) (S : SchemaRef)
    (entries : Entries (Tree Label Leaf)) (there : SchemaRef → Bool) : Prop :=
  ∀ member, there member = true ↔ ∃ u, (member, u) ∈ src.presentMembers S Tree.isNull entries

/-! ### Building a document -/

namespace Document

variable {m : Model} {S : SchemaRef} {there : SchemaRef → Bool} {entries : Entries Document}

end Document

/-! ### Reading a document -/

namespace Reader

variable {Label Leaf : Type} {src : Source Label Leaf} {s : Scope} {S : SchemaRef}
  {there : SchemaRef → Bool}

end Reader

/-! ### Reading a record -/

namespace Typed

variable {Label Leaf : Type} {src : Source Label Leaf} {s : Scope} {S : SchemaRef}
  {there : SchemaRef → Bool} {fields : List (Field ValueType)}

section
variable {entries : Entries (Tree Label Leaf)} {slots : List (Nat × Value)}

end

end Typed

namespace Kits

open Gallery (structureOf text number scalar required optional)

/-- Kits need a label and a gadget; for a gadget the empty map stands in, which lacks its serial. -/
def model : Model :=
  [structureOf "t#Gadget" [⟨"serial", scalar (.integer .long), required⟩],
    structureOf "t#Kit"
      [⟨"label", text, required⟩, ⟨"size", number, {}⟩,
        ⟨"gadget", .shape "t#Gadget", { required := true, default := some .emptyMap }⟩]].foldl
    Gallery.Exhibit.addTo {}

/-- The schema of kits. -/
def kit : SchemaRef :=
  Gallery.schema model "t#Kit"

/-- The fields of a kit, all of which may be missing. -/
def fields : List (Typed.Field Typed.ValueType) :=
  [⟨"label", optional .string⟩, ⟨"size", optional (.integer .integer)⟩,
    ⟨"gadget", optional (.named 0)⟩]

/-- The types of gadgets and kits. -/
def types : Typed.Table :=
  { declarations := #[
      { name := "Gadget", schema := Gallery.schema model "t#Gadget",
        body := .record [⟨"serial", .integer .long⟩] },
      { name := "Kit", schema := kit, body := .record fields }] }

/-- The size of a kit, which is all that there is below. -/
def size : SchemaRef :=
  .member (.declared 1) 1

end Kits
end ShapeCodec
