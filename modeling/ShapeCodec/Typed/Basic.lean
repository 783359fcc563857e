import ShapeCodec.Document.Basic

/-!
# Typed values

Programs declare their own types for shapes: records, unions and enumerations, each bound to a
schema and matched to its members by position. Types refer to declarations by their place in a
table, so they may be recursive.
-/

namespace ShapeCodec.Typed

/-- The type of a typed value. -/
inductive ValueType where
  | scalar (type : ScalarType)
  | document
  | list (element : ValueType)
  /-- A map that keeps its entries in the order of arrival or, if `sorted`, of its keys. -/
  | map (sorted : Bool) (value : ValueType)
  /-- A value that may be missing. -/
  | option (value : ValueType)
  | named (index : Nat)
deriving DecidableEq, Repr, Inhabited

namespace ValueType

def boolean : ValueType := scalar .boolean

def integer (width : IntWidth) : ValueType := scalar (.integer width)

def string : ValueType := scalar .string

/-- The type without the possibility that the value is missing. -/
def present : ValueType → ValueType
  | option type => type
  | type => type

def isOption : ValueType → Bool
  | option _ => true
  | _ => false

end ValueType

/-- A field of a record, or a variant of a union with the one value it holds. -/
structure Field (τ : Type) where
  name : String
  type : τ
deriving DecidableEq, Repr

/-- A member of an enumeration, with what it is on the wire. -/
structure Constant (α : Type) where
  name : String
  value : α
deriving DecidableEq, Repr

/--
What a declaration consists of. Unions and enumerations may have one more variant, named last, that
keeps what the schema does not know.
-/
inductive Body (τ : Type) where
  | record (fields : List (Field τ))
  | union (variants : List (Field τ)) (unknown : Option String)
  | words (constants : List (Constant String)) (unknown : Option String)
  | numbers (constants : List (Constant (Sized .integer))) (unknown : Option String)
deriving DecidableEq, Repr

/-- A declared type. -/
structure Declaration where
  name : String
  schema : SchemaRef
  body : Body ValueType
deriving Repr

instance : Inhabited Declaration :=
  ⟨{ name := "Unit", schema := .prelude .unit, body := .record [] }⟩

/-- The declared types, by their places. -/
structure Table where
  declarations : Array Declaration := #[]
deriving Inhabited

namespace Table

/-- The declaration at a place; places without one hold the empty record. -/
def get (t : Table) (index : Nat) : Declaration :=
  t.declarations.getD index default

def size (t : Table) : Nat :=
  t.declarations.size

/-- The schema that a type is written and read under when none is given. -/
def schemaOf? (t : Table) : ValueType → Option SchemaRef
  | .scalar type => some (.scalar type)
  | .document => some (.prelude .document)
  | .named index => some (t.get index).schema
  | .list _ | .map .. | .option _ => none

end Table

/-- A value of a declared type or of a type made from declared ones. -/
inductive Value where
  | scalar (value : Scalar)
  | document (value : Document)
  | list (items : List Value)
  | map (entries : List (String × Value))
  | missing
  | present (value : Value)
  | record (type : Nat) (fields : List Value)
  | variant (type : Nat) (index : Nat) (content : Value)
  | constant (type : Nat) (index : Nat)
  /-- The tag, word or number that a union or enumeration does not know. -/
  | unknown (type : Nat) (content : Scalar)
deriving Inhabited

namespace Value

/-- A value that may be missing. -/
def ofOption : Option Value → Value
  | some v => present v
  | none => missing

/-- Enters a key into a map, which may be kept in the order of its keys. -/
def insertEntry (sorted : Bool) (key : String) (value : Value) (entries : Entries Value) :
    Entries Value :=
  if sorted then insertSorted entries else entries.insert key value
where
  /-- Puts the key before the first larger one. -/
  insertSorted : Entries Value → Entries Value
    | [] => [(key, value)]
    | (k, v) :: es =>
      if k = key then (key, value) :: es
      else if key < k then (key, value) :: (k, v) :: es
      else (k, v) :: insertSorted es

/-! ### Equality -/

mutual

/-- Whether two values are equal; floats compare as numbers, maps without regard to order. -/
def same : Value → Value → Bool
  | scalar a, scalar b => a.same b
  | document a, document b => a.same b
  | list as, list bs => sameItems as bs
  | map as, map bs => as.length == bs.length && sameEntries as bs
  | missing, missing => true
  | present a, present b => same a b
  | record s as, record t bs => s == t && sameItems as bs
  | variant s i a, variant t j b => s == t && i == j && same a b
  | constant s i, constant t j => s == t && i == j
  | unknown s a, unknown t b => s == t && a.same b
  | _, _ => false

def sameItems : List Value → List Value → Bool
  | [], [] => true
  | a :: as, b :: bs => same a b && sameItems as bs
  | _, _ => false

/-- Whether every entry of the first map is in the second one. -/
def sameEntries : List (String × Value) → List (String × Value) → Bool
  | [], _ => true
  | (k, a) :: as, bs =>
    (match Entries.find? k bs with
      | some b => same a b
      | none => false) && sameEntries as bs

end

end Value
end ShapeCodec.Typed
