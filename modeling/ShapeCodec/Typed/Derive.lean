import ShapeCodec.Typed.TypeText

/-!
# Declarations

From what is written in a declaration to the type that it declares: the kind of an enumeration
follows from its variants, and a declaration that is not consistent is refused with all that is
wrong with it.
-/

namespace ShapeCodec.Typed

/-- What a variant holds. -/
inductive Holds where
  | nothing
  | positional (types : List TypeText)
  | named (fields : List String)
deriving DecidableEq, Repr

/-- A variant as it is written. -/
structure VariantItem where
  name : String
  holds : Holds := .nothing
  /-- The wire value of a string enumeration. -/
  value : Option String := none
  /-- The wire value of an integer enumeration. -/
  int : Option (Sized .integer) := none
  /-- The variant keeps what is not known. -/
  unknown : Bool := false
deriving DecidableEq, Repr

namespace VariantItem

/-- The one type that a variant holds. -/
def single? (v : VariantItem) : Option TypeText :=
  match v.holds with
  | .positional [type] => some type
  | _ => none

def isUnit (v : VariantItem) : Bool :=
  v.holds == .nothing

def isSingle (v : VariantItem) : Bool :=
  v.single?.isSome

/-- The value on the wire, which is the name when no other is given. -/
def wireValue (v : VariantItem) : String :=
  v.value.getD (plainName v.name)

end VariantItem

/-- What is declared. -/
inductive Item where
  | record (fields : List (Field TypeText))
  | enumeration (variants : List VariantItem)

/-- What can be wrong with a declaration. -/
inductive DeclarationFault where
  | missingSchema
  | secondUnknown
  | unknownHolds
  | noKnownVariant
  | mixedVariants
  | unionWithValue
  | numberMissing
  | numberAndWord
  | repeatedWord (value : String)
  | repeatedNumber (value : Int)
deriving DecidableEq, Repr

def DeclarationFault.message : DeclarationFault → String
  | missingSchema => "Missing field `schema`"
  | secondUnknown => "only one variant may be `#[shape(unknown)]`"
  | unknownHolds => "the `#[shape(unknown)]` variant must hold exactly one value"
  | noKnownVariant => "a shape enum needs at least one known variant"
  | mixedVariants =>
    "shape enum variants must be all unit variants or all single-value variants"
  | unionWithValue => "union variants take no wire value"
  | numberMissing => "int enum variants need `#[shape(int = N)]`"
  | numberAndWord => "int enum variants cannot also carry a string value"
  | repeatedWord value => s!"duplicate enum value `{value}`"
  | repeatedNumber value => s!"duplicate int enum value `{value}`"

/-- The kinds of declarations with variants. -/
inductive EnumerationKind where
  | union
  | words
  | numbers
deriving DecidableEq, Repr

namespace Item

/-- The variants that the schema knows. -/
def known (variants : List VariantItem) : List VariantItem :=
  variants.filter fun v => !v.unknown

/-- The variants that keep what is not known; there should be one at most. -/
def unknowns (variants : List VariantItem) : List VariantItem :=
  variants.filter VariantItem.unknown

/-- What kind the known variants make up; variants of both sorts count as a union. -/
def kindOf (known : List VariantItem) : EnumerationKind :=
  if known.all VariantItem.isUnit then
    if known.any fun v => v.int.isSome then .numbers else .words
  else .union

/-- What is wrong with the unknown variants. -/
def unknownFaults (unknowns : List VariantItem) : List DeclarationFault :=
  (unknowns.drop 1).map (fun _ => .secondUnknown)
    ++ (unknowns.head?.toList.filter fun v => !v.isSingle).map fun _ => .unknownHolds

/-- What is wrong with the known variants taken together. -/
def mixtureFaults (known : List VariantItem) : List DeclarationFault :=
  (if known.isEmpty then [.noKnownVariant] else [])
    ++ (if known.all VariantItem.isUnit || known.all VariantItem.isSingle then []
      else [.mixedVariants])

/-- What is wrong with the wire value of a variant. -/
def valueFault? (kind : EnumerationKind) (v : VariantItem) : Option DeclarationFault :=
  match kind with
  | .union => if v.value.isSome || v.int.isSome then some .unionWithValue else none
  | .numbers =>
    if v.int.isNone then some .numberMissing
    else if v.value.isSome then some .numberAndWord
    else none
  | .words => none

/-- The first wire value that is given twice. -/
def repeatFaults (kind : EnumerationKind) (known : List VariantItem) : List DeclarationFault :=
  match kind with
  | .union => []
  | .words =>
    (firstRepeated? [] (known.map VariantItem.wireValue)).toList.map .repeatedWord
  | .numbers =>
    (firstRepeated? [] (known.filterMap fun v => v.int.map Sized.value)).toList.map .repeatedNumber

/-- All that is wrong with variants, in the order in which it is reported. -/
def faults (variants : List VariantItem) : List DeclarationFault :=
  let known := known variants
  let kind := kindOf known
  unknownFaults (unknowns variants) ++ mixtureFaults known ++ known.filterMap (valueFault? kind)
    ++ repeatFaults kind known

/-- The type that consistent variants declare. -/
def bodyOf (variants : List VariantItem) : Body TypeText :=
  let known := known variants
  let unknown := (unknowns variants).head?.map fun v => plainName v.name
  match kindOf known with
  | .union =>
    .union (known.filterMap fun v => v.single?.map fun type => ⟨plainName v.name, type⟩) unknown
  | .words => .words (known.map fun v => ⟨plainName v.name, v.wireValue⟩) unknown
  | .numbers =>
    .numbers (known.filterMap fun v => v.int.map fun n => ⟨plainName v.name, n⟩) unknown

/-- The type that an item declares, or all that is wrong with it. -/
def body : Item → Except (List DeclarationFault) (Body TypeText)
  | record fields => .ok (.record (fields.map fun f => { f with name := plainName f.name }))
  | enumeration variants =>
    match faults variants with
    | [] => .ok (bodyOf variants)
    | faults => .error faults

/-- The type that an item declares when it names a schema, which it has to. -/
def derive (hasSchema : Bool) (item : Item) : Except (List DeclarationFault) (Body TypeText) :=
  if hasSchema then item.body else .error [.missingSchema]

end Item
end ShapeCodec.Typed
