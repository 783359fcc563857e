import ShapeCodec.Proofs.WrittenUnder

/-!
# One level of writing

What a document comes to under a schema, by what its parts come to under the schemas they have
there. The writing machine, which is given all calls at once, makes the same of each level.
-/

namespace ShapeCodec.Document

variable {α : Type} {m : Model} {sink : Sink α} {d : Document} {S : SchemaRef}

/-! ### Parts -/

/-- What is written of a document under a schema, each part under the schema that it has there. -/
inductive Part (m : Model) : Document × SchemaRef → Document × SchemaRef → Prop
  | member {l : Label} {entries : List (String × Document)} {S member : SchemaRef} {name : String}
      {d : Document} : (m.typeOf S).form = .structure ∨ (m.typeOf S).form = .union →
      (member, name, d) ∈ memberParts m S entries → Part m (.map l entries, S) (d, member)
  | element {l : Label} {items : List Document} {S member : SchemaRef} {d : Document} :
      m.listMember S = .ok member → d ∈ items → Part m (.list l items, S) (d, member)
  | value {l : Label} {entries : List (String × Document)} {S member : SchemaRef}
      {e : String × Document} :
      m.mapValue S = .ok member → e ∈ entries → Part m (.map l entries, S) (e.2, member)

theorem Part.inside {p q : Document × SchemaRef} (h : Part m p q) : q.1.Inside p.1 := by
  cases h with
  | member hf hp =>
      obtain ⟨-, -, hfind, -⟩ := mem_memberParts.mp hp
      exact .entry (Entries.mem_of_find? hfind)
  | element hm hd => exact .item hd
  | value hm he => exact .entry he

/-! ### One level -/

section
variable (m : Model) (sink : Sink α) (f : Document × SchemaRef → Result α)

/-- A structure or union of the members that have a value, given what these are written as. -/
def structureWith (S : SchemaRef) (entries : Entries Document) : Result α := do
  let pairs ← (memberParts m S entries).mapM fun p => do
    let value ← f (p.2.2, p.1)
    return (← Writer.memberKey m sink p.1, value)
  Writer.closeStructure m sink S (.members (Entries.ofList pairs))

def listWith (S : SchemaRef) (items : List Document) : Result α := do
  let member ← m.listMember S
  return sink.list S (← items.mapM fun d => f (d, member))

def mapWith (S : SchemaRef) (entries : Entries Document) : Result α := do
  let member ← m.mapValue S
  let pairs ← entries.mapM fun e => do return (e.1, ← f (e.2, member))
  return sink.map S (Entries.ofList pairs)

/-- What a document is written as under a schema, given what its parts are written as. -/
def levelWith : Document × SchemaRef → Result α
  | (d, S) =>
    if d.isNull then .ok (sink.null S)
    else match (m.typeOf S).form with
    | .structure | .union => do structureWith m sink f S (← d.asMap)
    | .list => do listWith m sink f S (← d.asList)
    | .map => do mapWith m sink f S (← d.asMap)
    | .document => sink.document S d
    | .scalar type => do sink.scalar S (← d.asScalar type)

end

section
variable {f g : Document × SchemaRef → Result α} {document : SchemaRef → Document → Result α}
  {l : Label} {entries : List (String × Document)} {items : List Document}

theorem structureWith_congr (hf : (m.typeOf S).form = .structure ∨ (m.typeOf S).form = .union)
    (h : ∀ q, Part m (.map l entries, S) q → f q = g q) :
    structureWith m sink f S entries = structureWith m { sink with document } g S entries := by
  rw [structureWith, structureWith, Result.mapM_congr fun p hp => by rw [h _ (.member hf hp)]]
  rfl

theorem listWith_congr (h : ∀ q, Part m (.list l items, S) q → f q = g q) :
    listWith m sink f S items = listWith m { sink with document } g S items := by
  rw [listWith, listWith]
  cases hm : m.listMember S with
  | error e => rfl
  | ok member =>
      simp only [Result.ok_bind]
      rw [Result.mapM_congr fun d hd => h _ (.element hm hd)]

theorem mapWith_congr (h : ∀ q, Part m (.map l entries, S) q → f q = g q) :
    mapWith m sink f S entries = mapWith m { sink with document } g S entries := by
  rw [mapWith, mapWith]
  cases hm : m.mapValue S with
  | error e => rfl
  | ok member =>
      simp only [Result.ok_bind]
      rw [Result.mapM_congr fun e he => by rw [h _ (.value hm he)]]

/-- One level looks at the parts and, where anything is allowed, at the document as it is. -/
theorem levelWith_congr (hpart : ∀ q, Part m (d, S) q → f q = g q)
    (hdoc : (m.typeOf S).form = .document → d.isNull = false →
      sink.document S d = document S d) :
    levelWith m sink f (d, S) = levelWith m { sink with document } g (d, S) := by
  by_cases hn : d.isNull = true
  · simp [levelWith, hn]
  simp only [levelWith, hn]
  cases hf : (m.typeOf S).form with
  | «structure» =>
      cases d with
      | map l entries => exact structureWith_congr (.inl hf) hpart
      | _ => rfl
  | union =>
      cases d with
      | map l entries => exact structureWith_congr (.inr hf) hpart
      | _ => rfl
  | list =>
      cases d with
      | list l items => exact listWith_congr hpart
      | _ => rfl
  | map =>
      cases d with
      | map l entries => exact mapWith_congr hpart
      | _ => rfl
  | document => exact hdoc hf (by simpa using hn)
  | scalar type => rfl

end

/-! ### The writing machine makes the same of a level -/

/-- A document hands its value on under the schema that it is written under. -/
theorem denote_calls (d : Document) (S : SchemaRef) : Writer.denote m sink (calls m d S) =
    (Writer.write m sink (calls m d S)).map fun value => (S, value) := by
  rw [Writer.write_eq_denote (calls_sound d S).isValue]
  cases hd : Writer.denote m sink (calls m d S) with
  | error e => rfl
  | ok p =>
      have hS : p.1 = S := schema_of_calls (Writer.schema?_of_denote hd)
      exact congrArg (fun s => Except.ok (s, p.2)) hS

/-- What the machine makes of a document under a schema. -/
def written (m : Model) (sink : Sink α) (p : Document × SchemaRef) : Result α :=
  Writer.write m sink (calls m p.1 p.2)

theorem denote_calls_bind {β : Type} (d : Document) (S : SchemaRef)
    (k : SchemaRef × α → Result β) : (Writer.denote m sink (calls m d S) >>= k) =
      (written m sink (d, S) >>= fun value => k (S, value)) := by
  rw [denote_calls, written]
  cases Writer.write m sink (calls m d S) <;> rfl

theorem denoteMembers_parts (parts : List (SchemaRef × String × Document)) :
    Writer.denoteMembers m sink (parts.map fun p => calls m p.2.2 p.1) =
      parts.mapM fun p => do
        let value ← written m sink (p.2.2, p.1)
        return (← Writer.memberKey m sink p.1, value) := by
  induction parts with
  | nil => rw [List.map_nil, Writer.denoteMembers]; rfl
  | cons p parts ih =>
      rw [List.map_cons, Writer.denoteMembers, denote_calls_bind, List.mapM_cons, ih]
      simp only [bind_assoc, pure_bind]

theorem denoteElements_items (items : List Document) (member : SchemaRef) :
    Writer.denoteElements m sink (items.map fun d => calls m d member) =
      items.mapM fun d => written m sink (d, member) := by
  induction items with
  | nil => rw [List.map_nil, Writer.denoteElements]; rfl
  | cons d items ih =>
      rw [List.map_cons, Writer.denoteElements, denote_calls_bind, List.mapM_cons, ih]

theorem denoteEntries_entries (entries : List (String × Document)) (member : SchemaRef) :
    Writer.denoteEntries m sink (entries.map fun e => .entry e.1 [calls m e.2 member]) =
      entries.mapM fun e => do return (e.1, ← written m sink (e.2, member)) := by
  induction entries with
  | nil => rw [List.map_nil, Writer.denoteEntries]; rfl
  | cons e entries ih =>
      rw [List.map_cons, Writer.denoteEntries, Writer.denoteEntry, denote_calls_bind,
        List.mapM_cons, ih]
      simp only [bind_assoc, pure_bind]
      rfl

theorem written_of_calls {call : Call} (h : calls m d S = call) :
    written m sink (d, S) = (Writer.denote m sink call).map Prod.snd := by
  rw [written, Writer.write_eq_denote (calls_sound d S).isValue, h]

theorem written_structure (hf : (m.typeOf S).form = .structure ∨ (m.typeOf S).form = .union)
    (hn : d.isNull = false) :
    written m sink (d, S) = d.asMap >>= structureWith m sink (written m sink) S := by
  cases hd : d.asMap with
  | error e =>
      rw [written_of_calls (calls_members_misfit hf hn hd)]
      simp only [Writer.denote, Writer.denoteMembers]
      rfl
  | ok entries =>
      obtain ⟨l, rfl⟩ := of_asMap hd
      rw [written_of_calls (calls_members hf), Writer.denote, denoteMembers_parts, Result.ok_bind,
        structureWith]
      cases (memberParts m S entries).mapM fun p => do
          let value ← written m sink (p.2.2, p.1)
          return (← Writer.memberKey m sink p.1, value) with
      | error e => rfl
      | ok pairs =>
          simp only [Result.ok_bind, Writer.closeStructure]
          split <;> rfl

theorem written_list (hf : (m.typeOf S).form = .list) (hn : d.isNull = false) :
    written m sink (d, S) = d.asList >>= listWith m sink (written m sink) S := by
  cases hd : d.asList with
  | error e =>
      rw [written_of_calls (calls_list_misfit hf hn hd), Writer.denote]
      rfl
  | ok items =>
      obtain ⟨l, rfl⟩ := of_asList hd
      rw [Result.ok_bind, listWith]
      cases hm : m.listMember S with
      | error e =>
          rw [written_of_calls (calls_list_of_error hf hm), Writer.denote]
          rfl
      | ok member =>
          rw [written_of_calls (calls_list hm), Writer.denote, denoteElements_items]
          simp only [Result.ok_bind]
          cases items.mapM fun d => written m sink (d, member) <;> rfl

theorem written_map (hf : (m.typeOf S).form = .map) (hn : d.isNull = false) :
    written m sink (d, S) = d.asMap >>= mapWith m sink (written m sink) S := by
  cases hd : d.asMap with
  | error e =>
      rw [written_of_calls (calls_map_misfit hf hn hd), Writer.denote]
      rfl
  | ok entries =>
      obtain ⟨l, rfl⟩ := of_asMap hd
      rw [Result.ok_bind, mapWith]
      cases hm : m.mapValue S with
      | error e =>
          rw [written_of_calls (calls_map_of_error hf hm), Writer.denote]
          rfl
      | ok member =>
          rw [written_of_calls (calls_map hm), Writer.denote, denoteEntries_entries]
          simp only [Result.ok_bind]
          cases entries.mapM fun e => do return (e.1, ← written m sink (e.2, member)) <;> rfl

theorem written_document (hf : (m.typeOf S).form = .document) (hn : d.isNull = false) :
    written m sink (d, S) = sink.document S d := by
  rw [written_of_calls (calls_document hf hn), Writer.denote]
  cases sink.document S d <;> rfl

theorem written_scalar {type : ScalarType} (hf : (m.typeOf S).form = .scalar type)
    (hn : d.isNull = false) : written m sink (d, S) = d.asScalar type >>= sink.scalar S := by
  rw [written_of_calls (calls_scalar hf hn)]
  generalize d.asScalar type = r
  cases r with
  | error e => simp [Except.map, Call.ofResult, Writer.denote]
  | ok v =>
      simp only [Except.map, Call.ofResult, Writer.denote, Result.ok_bind]
      cases sink.scalar S v <;> rfl

/-- What the machine makes of a document is one level on top of what it makes of the parts. -/
theorem written_eq (p : Document × SchemaRef) :
    written m sink p = levelWith m sink (written m sink) p := by
  obtain ⟨d, S⟩ := p
  by_cases hn : d.isNull = true
  · obtain ⟨l, rfl⟩ := Tree.isNull_eq_true hn
    rw [written_of_calls calls_null, Writer.denote, levelWith, if_pos hn]
    rfl
  rw [levelWith, if_neg hn]
  have hn : d.isNull = false := by simpa using hn
  cases hf : (m.typeOf S).form with
  | «structure» => exact written_structure (.inl hf) hn
  | union => exact written_structure (.inr hf) hn
  | list => exact written_list hf hn
  | map => exact written_map hf hn
  | document => exact written_document hf hn
  | scalar type => exact written_scalar hf hn

end ShapeCodec.Document
