import ShapeCodec.Proofs.Calls
import ShapeCodec.Proofs.Result
import ShapeCodec.Proofs.Sources
import ShapeCodec.Proofs.Writing

/-!
# What calls stand for

The value of a tree of calls, found by recursion and without a stack. The machine computes it: from
any state, a call ends in the error that its value comes to, or hands the value on to whatever was
open before.
-/

namespace ShapeCodec

/-! ### Calls that stand for values -/

namespace Call

mutual

/--
Calls that stand for a value: entries are found in maps and nowhere else, and no error is passed
over. What calls for the parts may fail at any place.
-/
def isValue : Call → Bool
  | .scalar .. | .null _ | .document .. | .fail _ => true
  | .structure _ calls | .list _ calls => areValues calls
  | .map _ entries => areEntries entries
  | .entry .. | .attempt _ => false

def areValues : List Call → Bool
  | [] => true
  | call :: calls => isValue call && areValues calls

def areEntries : List Call → Bool
  | [] => true
  | .entry _ value :: entries => areValues value && areEntries entries
  | .fail _ :: entries => areEntries entries
  | _ :: _ => false

end

theorem areValues_iff {calls : List Call} :
    areValues calls = true ↔ ∀ call ∈ calls, call.isValue = true := by
  induction calls with
  | nil => simp [areValues]
  | cons call calls ih => simp [areValues, ih]

/-- In a map there are entries, up to where finding them fails. -/
theorem of_areEntries {entries : List Call} (h : areEntries entries = true) :
    ∀ entry ∈ entries, (∃ e, entry = .fail e) ∨
      ∃ key value, entry = .entry key value ∧ ∀ call ∈ value, call.isValue = true := by
  induction entries with
  | nil => simp
  | cons entry entries ih =>
      cases entry <;> simp only [areEntries, Bool.and_eq_true, Bool.false_eq_true] at h
      case entry key value =>
          refine List.forall_mem_cons.mpr ⟨.inr ⟨key, value, rfl, areValues_iff.mp h.1⟩, ih h.2⟩
      case fail e => exact List.forall_mem_cons.mpr ⟨.inl ⟨e, rfl⟩, ih h⟩

/-- Induction over calls that stand for values. -/
theorem isValue_induct {motive : Call → Prop} (scalar : ∀ schema v, motive (.scalar schema v))
    (null : ∀ schema, motive (.null schema)) (document : ∀ schema d, motive (.document schema d))
    (fail : ∀ e, motive (.fail e))
    (record : ∀ schema members, (∀ call ∈ members, motive call) →
      motive (.structure schema members))
    (list : ∀ schema elements, (∀ call ∈ elements, motive call) → motive (.list schema elements))
    (map : ∀ schema entries, (∀ entry ∈ entries, (∃ e, entry = .fail e) ∨
      ∃ key value, entry = .entry key value ∧ ∀ call ∈ value, motive call) →
      motive (.map schema entries)) :
    ∀ call : Call, call.isValue = true → motive call
  | .scalar schema v, _ => scalar schema v
  | .null schema, _ => null schema
  | .document schema d, _ => document schema d
  | .fail e, _ => fail e
  | .structure schema members, h => record schema members fun call hc =>
      have := List.sizeOf_lt_of_mem hc
      isValue_induct scalar null document fail record list map call
        (areValues_iff.mp (by simpa only [isValue] using h) call hc)
  | .list schema elements, h => list schema elements fun call hc =>
      have := List.sizeOf_lt_of_mem hc
      isValue_induct scalar null document fail record list map call
        (areValues_iff.mp (by simpa only [isValue] using h) call hc)
  | .map schema entries, h => map schema entries fun entry he => by
      rcases of_areEntries (by simpa only [isValue] using h) entry he with
        hfail | ⟨key, value, rfl, hvalue⟩
      · exact .inl hfail
      · refine .inr ⟨key, value, rfl, fun call hc => ?_⟩
        have := List.sizeOf_lt_of_mem he
        have := List.sizeOf_lt_of_mem hc
        exact isValue_induct scalar null document fail record list map call (hvalue call hc)
  | .entry .., h => by simp [isValue] at h
  | .attempt _, h => by simp [isValue] at h
  termination_by call => sizeOf call
  decreasing_by all_goals simp only [Call.entry.sizeOf_spec, Call.map.sizeOf_spec,
    Call.list.sizeOf_spec, Call.structure.sizeOf_spec] at *; omega

/-- A call for some part fails with an error. -/
inductive Raises (e : Error) : Call → Prop
  | fail : Raises e (.fail e)
  | member {schema : SchemaRef} {members : List Call} {call : Call} :
      call ∈ members → Raises e call → Raises e (.structure schema members)
  | element {schema : SchemaRef} {elements : List Call} {call : Call} :
      call ∈ elements → Raises e call → Raises e (.list schema elements)
  | entry {schema : SchemaRef} {entries : List Call} {entry : Call} :
      entry ∈ entries → Raises e entry → Raises e (.map schema entries)
  | value {key : String} {value : List Call} {call : Call} :
      call ∈ value → Raises e call → Raises e (.entry key value)

end Call

namespace Writer

variable {α : Type} (m : Model) (sink : Sink α)

theorem memberKey_eq_ok_iff {m : Model} {sink : Sink α} {schema : SchemaRef} {key : String} :
    memberKey m sink schema = .ok key ↔ sink.memberKey? schema = some key := by
  unfold memberKey
  cases sink.memberKey? schema <;> simp

/-! ### The values of calls -/

/-- The error about a second value for one key. -/
def withoutKey : Error :=
  .serialization "map value written without a key"

mutual

/-- The value that a call stands for, and the schema that it is handed on under. -/
def denote : Call → Result (SchemaRef × α)
  | .scalar schema v => do return (schema, ← sink.scalar schema v)
  | .null schema => .ok (schema, sink.null schema)
  | .document schema d => do return (schema, ← sink.document schema d)
  | .structure schema members => do
    let written := Entries.ofList (← denoteMembers members)
    if m.typeOf schema = .union ∧ written.length ≠ 1 then
      throw (.unionArity (m.shapeId schema) written.length)
    return (schema, sink.map schema written)
  | .list schema elements => do return (schema, sink.list schema (← denoteElements elements))
  | .map schema entries => do
    return (schema, sink.map schema (Entries.ofList (← denoteEntries entries)))
  | .fail e => .error e
  | .entry .. | .attempt _ => .error default

/-- The keys and values of members, up to the first that has no value or no key. -/
def denoteMembers : List Call → Result (List (String × α))
  | [] => .ok []
  | call :: calls => do
    let (schema, value) ← denote call
    let key ← memberKey m sink schema
    return (key, value) :: (← denoteMembers calls)

/-- The values of elements, up to the first that has none. -/
def denoteElements : List Call → Result (List α)
  | [] => .ok []
  | call :: calls => do
    let (_, value) ← denote call
    return value :: (← denoteElements calls)

/-- The keys and values of entries, up to the first entry that fails. -/
def denoteEntries : List Call → Result (List (String × α))
  | [] => .ok []
  | .entry key value :: entries => do
    return (← denoteEntry key value) ++ (← denoteEntries entries)
  | .fail e :: _ => .error e
  | _ :: _ => .error default

/-- What one entry adds to a map: no more than one value belongs to a key. -/
def denoteEntry (key : String) : List Call → Result (List (String × α))
  | [] => .ok []
  | [call] => do
    let (_, value) ← denote call
    return [(key, value)]
  | call :: second :: _ => do
    let _ ← denote call
    let _ ← denote second
    throw withoutKey

end

/-! ### The machine computes them -/

/-- A run comes to what was expected of it, or it fails with the error, in whatever state. -/
def Ends (outcome : Outcome α) : Result (Outcome α) → Prop
  | .ok expected => outcome = expected
  | .error e => outcome.1 = .error e

variable {m sink}

theorem ends_pop_push (schema : SchemaRef) (close : Frame α → Result α) (frame : Frame α)
    (st : State α) : Ends (pop m sink schema close (push frame st))
      (do return emit m sink schema (← close frame) st) := by
  show Ends (emitResult m sink schema (close frame) st) _
  cases close frame <;> rfl

/-- A step that fails is the last one. -/
theorem Ends.andThen_error {outcome : Outcome α} {next : State α → Outcome α} {e : Error}
    (h : Ends outcome (.error e)) : Ends (andThen outcome next) (.error e) := by
  obtain ⟨r, st⟩ := outcome
  obtain rfl : r = .error e := h
  rfl

/-- A step that succeeds is followed by the next one. -/
theorem Ends.andThen_ok {outcome : Outcome α} {next : State α → Outcome α} {st : State α}
    {r : Result (Outcome α)} (h : Ends outcome (.ok (.ok (), st))) (hn : Ends (next st) r) :
    Ends (andThen outcome next) r := by
  obtain rfl : outcome = (.ok (), st) := h
  exact hn

theorem Ends.andThen {β : Type} {outcome : Outcome α} {next : State α → Outcome α}
    {r : Result β} {opened : β → State α} {f : β → Result (Outcome α)}
    (h : Ends outcome (r.map fun b => (.ok (), opened b)))
    (hn : ∀ b, Ends (next (opened b)) (f b)) : Ends (andThen outcome next) (r >>= f) := by
  cases r with
  | error e => exact h.andThen_error
  | ok b => exact h.andThen_ok (hn b)

/-- Running a call comes to handing on the value that it stands for. -/
def Computes (m : Model) (sink : Sink α) (call : Call) : Prop :=
  ∀ st, Ends (run m sink call st)
    (do let (schema, value) ← denote m sink call; return emit m sink schema value st)

theorem Computes.error {call : Call} {e : Error} (h : Computes m sink call)
    (hd : denote m sink call = .error e) (st : State α) :
    Ends (run m sink call st) (.error e) := by
  simpa [hd] using h st

theorem Computes.ok {call : Call} {schema : SchemaRef} {value : α} (h : Computes m sink call)
    (hd : denote m sink call = .ok (schema, value)) : Writes m sink call schema value := by
  intro st
  have hrun := h st
  rw [hd] at hrun
  exact hrun

theorem ends_members {calls : List Call} (h : ∀ call ∈ calls, Computes m sink call)
    (written : Entries α) (st : State α) :
    Ends (runAll m sink calls (push (.members written) st))
      ((denoteMembers m sink calls).map fun pairs =>
        (.ok (), push (.members (pairs.foldl (fun es p => es.insert p.1 p.2) written)) st)) := by
  induction calls generalizing written with
  | nil => rw [runAll, denoteMembers]; rfl
  | cons call calls ih =>
      obtain ⟨hcall, h⟩ := List.forall_mem_cons.mp h
      rw [runAll, denoteMembers]
      cases hd : denote m sink call with
      | error e => exact (hcall.error hd _).andThen_error
      | ok p =>
          obtain ⟨schema, value⟩ := p
          rw [hcall.ok hd]
          cases hk : memberKey m sink schema with
          | error e => simp [emit, push, Frame.take, hk, andThen, Except.map, Ends]
          | ok key =>
              have htake : Frame.take m sink schema value (.members written) =
                  .ok (.members (Entries.insert key value written)) := by
                simp [Frame.take, hk]
              rw [emit_push htake]
              have hrest := ih h (Entries.insert key value written)
              cases hds : denoteMembers m sink calls <;>
                simpa [hds, hk, Except.map, andThen] using hrest

theorem ends_elements {calls : List Call} (h : ∀ call ∈ calls, Computes m sink call)
    (written : List α) (st : State α) :
    Ends (runAll m sink calls (push (.elements written) st))
      ((denoteElements m sink calls).map fun values =>
        (.ok (), push (.elements (written ++ values)) st)) := by
  induction calls generalizing written with
  | nil => rw [runAll, denoteElements]; simp [Except.map, Ends]
  | cons call calls ih =>
      obtain ⟨hcall, h⟩ := List.forall_mem_cons.mp h
      rw [runAll, denoteElements]
      cases hd : denote m sink call with
      | error e => exact (hcall.error hd _).andThen_error
      | ok p =>
          obtain ⟨schema, value⟩ := p
          have htake : Frame.take m sink schema value (.elements written) =
              .ok (.elements (written ++ [value])) := rfl
          rw [hcall.ok hd, emit_push htake]
          have hrest := ih h (written ++ [value])
          cases hds : denoteElements m sink calls <;>
            simpa [hds, Except.map, andThen] using hrest

/-- An entry sets its key, which its first value takes and no second one finds. -/
theorem ends_entry {calls : List Call} (h : ∀ call ∈ calls, Computes m sink call) (key : String)
    (written : Entries α) (pending : Option String) (st : State α) :
    ∃ left, Ends (run m sink (.entry key calls) (push (.entries written pending) st))
      ((denoteEntry m sink key calls).map fun pairs =>
        (.ok (), push
          (.entries (pairs.foldl (fun es p => es.insert p.1 p.2) written) left) st)) := by
  have hset : run m sink (.entry key calls) (push (.entries written pending) st) =
      runAll m sink calls (push (.entries written (some key)) st) := by
    rw [run]
    rfl
  rw [hset]
  match calls, h with
  | [], _ =>
      refine ⟨some key, ?_⟩
      rw [runAll, denoteEntry]
      rfl
  | call :: rest, h =>
      obtain ⟨hcall, h⟩ := List.forall_mem_cons.mp h
      refine ⟨none, ?_⟩
      rw [runAll]
      cases hd : denote m sink call with
      | error e => cases rest <;> rw [denoteEntry, hd] <;> exact (hcall.error hd _).andThen_error
      | ok p =>
          obtain ⟨schema, value⟩ := p
          have htake : Frame.take m sink schema value (.entries written (some key)) =
              .ok (.entries (Entries.insert key value written) none) := rfl
          rw [hcall.ok hd, emit_push htake]
          match rest, h with
          | [], _ =>
              show Ends (runAll m sink [] _) _
              rw [runAll, denoteEntry, hd]
              rfl
          | second :: rest, h =>
              have hsecond := (List.forall_mem_cons.mp h).1
              show Ends (runAll m sink (second :: rest) _) _
              rw [runAll, denoteEntry, hd]
              cases hs : denote m sink second with
              | error e => exact (hsecond.error hs _).andThen_error
              | ok p => rw [hsecond.ok hs]; rfl

theorem ends_entries {entries : List Call}
    (h : ∀ entry ∈ entries, (∃ e, entry = .fail e) ∨
      ∃ key value, entry = .entry key value ∧ ∀ call ∈ value, Computes m sink call)
    (written : Entries α) (pending : Option String) (st : State α) :
    ∃ left, Ends (runAll m sink entries (push (.entries written pending) st))
      ((denoteEntries m sink entries).map fun pairs =>
        (.ok (), push
          (.entries (pairs.foldl (fun es p => es.insert p.1 p.2) written) left) st)) := by
  induction entries generalizing written pending with
  | nil =>
      refine ⟨pending, ?_⟩
      rw [runAll, denoteEntries]
      rfl
  | cons entry entries ih =>
      obtain ⟨⟨e, rfl⟩ | ⟨key, value, rfl, hvalue⟩, hrest⟩ := List.forall_mem_cons.mp h
      · refine ⟨none, ?_⟩
        rw [runAll, run, denoteEntries]
        rfl
      · obtain ⟨left, hentry⟩ := ends_entry hvalue key written pending st
        rw [runAll, denoteEntries]
        cases hd : denoteEntry m sink key value with
        | error e =>
            exact ⟨none, Ends.andThen_error (by simpa [hd, Except.map] using hentry)⟩
        | ok pairs =>
            rw [hd] at hentry
            obtain ⟨left, hrest⟩ :=
              ih hrest (pairs.foldl (fun es p => es.insert p.1 p.2) written) left
            refine ⟨left, hentry.andThen_ok ?_⟩
            cases hds : denoteEntries m sink entries <;> simpa [hds, Except.map] using hrest

/-- From any state, a call that stands for a value hands on that value or ends in its error. -/
theorem computes_of_isValue (m : Model) (sink : Sink α) {call : Call} (h : call.isValue = true) :
    Computes m sink call := by
  refine Call.isValue_induct ?scalar ?null ?document ?fail ?record ?list ?map call h
  case scalar =>
      intro schema v st
      rw [run, denote]
      cases sink.scalar schema v <;> rfl
  case null =>
      intro schema st
      rw [run, denote]
      rfl
  case document =>
      intro schema d st
      rw [run, denote]
      cases sink.document schema d <;> rfl
  case fail =>
      intro e st
      rw [run, denote]
      rfl
  case record =>
      intro schema members ih st
      rw [run, denote]
      simp only [bind_assoc]
      refine (ends_members ih [] st).andThen fun pairs => ?_
      have hpop : Ends (pop m sink schema (closeStructure m sink schema)
          (push (.members (Entries.ofList pairs)) st)) _ := ends_pop_push ..
      by_cases harity : m.typeOf schema = .union ∧ (Entries.ofList pairs).length ≠ 1
      · rw [closeStructure, if_pos harity] at hpop
        simp only [if_pos harity]
        exact hpop
      · rw [closeStructure, if_neg harity] at hpop
        simp only [if_neg harity]
        exact hpop
  case list =>
      intro schema elements ih st
      rw [run, denote]
      simp only [bind_assoc]
      exact (ends_elements ih [] st).andThen fun values => ends_pop_push schema _ _ st
  case map =>
      intro schema entries ih st
      obtain ⟨left, hentries⟩ := ends_entries ih [] none st
      rw [run, denote]
      simp only [bind_assoc]
      exact hentries.andThen fun pairs => ends_pop_push schema _ _ st

/-- On its own, a call has the value that it stands for as its result. -/
theorem write_eq_denote {call : Call} (h : call.isValue = true) :
    write m sink call = (denote m sink call).map Prod.snd := by
  have hcall := computes_of_isValue m sink h
  cases hd : denote m sink call with
  | ok p => exact (hcall.ok hd).write_eq_ok
  | error e =>
      have hrun : (run m sink call {}).1 = .error e := hcall.error hd {}
      unfold write
      rw [← Prod.mk.eta (p := run m sink call {}), hrun]
      rfl

end Writer

/-! ### The calls of documents -/

/-- Calls that stand for a value and fail for no reason that comes up in writing. -/
structure Call.Sound (call : Call) : Prop where
  isValue : call.isValue = true
  quiet : ∀ reason, ¬ call.Raises (.serialization reason)

namespace Call

theorem Sound.fail {e : Error} (h : ∀ reason, e ≠ .serialization reason) : (fail e).Sound where
  isValue := by rw [Call.isValue]
  quiet := fun reason hr => by
    cases hr
    exact h reason rfl

theorem Sound.null (schema : SchemaRef) : (null schema).Sound where
  isValue := by rw [Call.isValue]
  quiet := nofun

theorem Sound.scalar (schema : SchemaRef) (v : Scalar) : (scalar schema v).Sound where
  isValue := by rw [Call.isValue]
  quiet := nofun

theorem Sound.document (schema : SchemaRef) (d : Document) : (document schema d).Sound where
  isValue := by rw [Call.isValue]
  quiet := nofun

theorem Sound.structure {schema : SchemaRef} {members : List Call}
    (h : ∀ call ∈ members, call.Sound) : (Call.structure schema members).Sound where
  isValue := by
    rw [Call.isValue, areValues_iff]
    exact fun call hc => (h call hc).isValue
  quiet := fun reason hr => by
    cases hr with
    | member hc hr => exact (h _ hc).quiet reason hr

theorem Sound.list {schema : SchemaRef} {elements : List Call}
    (h : ∀ call ∈ elements, call.Sound) : (list schema elements).Sound where
  isValue := by
    rw [Call.isValue, areValues_iff]
    exact fun call hc => (h call hc).isValue
  quiet := fun reason hr => by
    cases hr with
    | element hc hr => exact (h _ hc).quiet reason hr

theorem Sound.map {β : Type} {schema : SchemaRef} {parts : List β} {key : β → String}
    {call : β → Call} (h : ∀ p ∈ parts, (call p).Sound) :
    (Call.map schema (parts.map fun p => entry (key p) [call p])).Sound where
  isValue := by
    rw [Call.isValue]
    induction parts with
    | nil => rfl
    | cons p parts ih =>
        obtain ⟨hp, h⟩ := List.forall_mem_cons.mp h
        simp [areEntries, areValues, hp.isValue, ih h]
  quiet := fun reason hr => by
    cases hr with
    | entry he hr =>
        obtain ⟨p, hp, rfl⟩ := List.mem_map.mp he
        cases hr with
        | value hc hr =>
            obtain rfl := List.mem_singleton.mp hc
            exact (h p hp).quiet reason hr

/-- What follows from something that may fail is sound if both the call and the failure are. -/
theorem Sound.ofResult {r : Result Call} (he : ∀ reason, r ≠ .error (.serialization reason))
    (h : ∀ call, r = .ok call → call.Sound) : (ofResult r).Sound := by
  cases r with
  | ok call => exact h call rfl
  | error e => exact .fail fun reason heq => he reason (heq ▸ rfl)

end Call

namespace Document

variable {m : Model}

theorem as_ne_serialization (type : ScalarType) (v : Scalar) (reason : String) :
    v.as type ≠ .error (.serialization reason) := by
  have hinteger : ∀ width, v.asInteger width ≠ .error (.serialization reason) := by
    intro width h
    unfold Scalar.asInteger at h
    split at h
    · split at h <;> simp [Scalar.outOfRange] at h
    · simp [Scalar.mismatch] at h
  have hdouble : v.asDouble ≠ .error (.serialization reason) := by
    intro h
    unfold Scalar.asDouble at h
    split at h <;> simp [Scalar.mismatch] at h
  have hdecimal : v.asDecimal ≠ .error (.serialization reason) := by
    intro h
    unfold Scalar.asDecimal Scalar.asDecimal.finite at h
    split at h
    · cases h
    · split at h <;> simp [Scalar.outOfRange] at h
    · split at h <;> simp [Scalar.outOfRange] at h
    · cases h
    · simp [Scalar.mismatch] at h
  intro h
  unfold Scalar.as Scalar.asSingle at h
  split at h
  · exact hinteger _ (Result.map_eq_error.mp h)
  · exact hdouble (Result.map_eq_error.mp (Result.map_eq_error.mp h))
  · exact hdouble (Result.map_eq_error.mp h)
  · exact hdecimal (Result.map_eq_error.mp h)
  · split at h <;> simp [Scalar.mismatch] at h

theorem mismatch_ne_serialization (d : Document) (type : ShapeType) (reason : String) :
    mismatch d type ≠ .serialization reason := by
  simp [mismatch]

/-- Looking for the member of a collection fails on account of the schema. -/
theorem memberOf_ne_serialization (schema : SchemaRef) (type : ShapeType) (index : Nat)
    (reason : String) : (do m.expectType schema type; m.memberAt schema index) ≠
      (.error (.serialization reason) : Result SchemaRef) := by
  intro h
  rcases Result.bind_eq_error.mp h with h | ⟨_, -, h⟩
  · unfold Model.expectType at h
    dsimp only at h
    split at h <;> simp at h
  · unfold Model.memberAt at h
    split at h <;> simp at h

/--
What a document calls for under a schema: one rule for each way in which it fits, and two for where
it does not.
-/
inductive CallsFor (m : Model) (S : SchemaRef) : Document → Call → Prop
  | null (l : Label) : CallsFor m S (.null l) (.null S)
  | kept {d : Document} :
      (m.typeOf S).form = .document → d.isNull = false → CallsFor m S d (.document S d)
  | scalar {d : Document} {v : Scalar} :
      (m.typeOf S).form = .scalar v.type → CallsFor m S d (.scalar S v)
  | list {l : Label} {items : List Document} {member : SchemaRef} :
      m.listMember S = .ok member →
      CallsFor m S (.list l items) (.list S (items.map fun d => calls m d member))
  | map {l : Label} {entries : List (String × Document)} {member : SchemaRef} :
      m.mapValue S = .ok member → CallsFor m S (.map l entries)
        (.map S (entries.map fun e => .entry e.1 [calls m e.2 member]))
  | members {l : Label} {entries : List (String × Document)} :
      (m.typeOf S).form = .structure ∨ (m.typeOf S).form = .union →
      CallsFor m S (.map l entries)
        (.structure S ((memberParts m S entries).map fun p => calls m p.2.2 p.1))
  | misfit {d : Document} {e : Error} :
      (∀ reason, e ≠ .serialization reason) → CallsFor m S d (.fail e)
  /-- A structure is opened before the document turns out to be none. -/
  | opened {d : Document} {e : Error} :
      (∀ reason, e ≠ .serialization reason) → CallsFor m S d (.structure S [.fail e])

/-- A scalar is written, or it is not of the type asked for. -/
theorem CallsFor.ofScalar {S : SchemaRef} {d : Document} {type : ScalarType} {r : Result Scalar}
    (hf : (m.typeOf S).form = .scalar type) (hr : ∀ v, r = .ok v → v.type = type)
    (h : ∀ reason, r ≠ .error (.serialization reason)) :
    CallsFor m S d (.ofResult (r.map (.scalar S))) := by
  cases r with
  | ok v => exact .scalar (hf.trans (hr v rfl ▸ rfl))
  | error e => exact .misfit fun reason he => h reason (he ▸ rfl)

theorem asScalar_ne_serialization (type : ScalarType) (d : Document) (reason : String) :
    d.asScalar type ≠ .error (.serialization reason) := by
  cases d with
  | leaf l v => exact as_ne_serialization type v reason
  | _ => simp [asScalar, mismatch]

theorem type_of_asScalar {type : ScalarType} {d : Document} {v : Scalar}
    (h : d.asScalar type = .ok v) : v.type = type := by
  cases d with
  | leaf l v => exact Scalar.type_of_as h
  | _ => cases h

theorem callsFor_calls (m : Model) (d : Document) (S : SchemaRef) :
    CallsFor m S d (calls m d S) := by
  by_cases hn : d.isNull = true
  · obtain ⟨l, rfl⟩ := Tree.isNull_eq_true hn
    exact calls_null ▸ .null l
  have hn : d.isNull = false := by simpa using hn
  have hmembers (hf : (m.typeOf S).form = .structure ∨ (m.typeOf S).form = .union) :
      CallsFor m S d (calls m d S) := by
    cases hd : d.asMap with
    | error e =>
        rw [calls_members_misfit hf hn hd, of_asMap_eq_error hd]
        exact .opened (mismatch_ne_serialization d .map)
    | ok entries =>
        obtain ⟨l, rfl⟩ := of_asMap hd
        exact calls_members hf ▸ .members hf
  cases hf : (m.typeOf S).form with
  | «structure» => exact hmembers (.inl hf)
  | union => exact hmembers (.inr hf)
  | list =>
      cases hd : d.asList with
      | error e =>
          rw [calls_list_misfit hf hn hd, of_asList_eq_error hd]
          exact .misfit (mismatch_ne_serialization d .list)
      | ok items =>
          obtain ⟨l, rfl⟩ := of_asList hd
          cases hm : m.listMember S with
          | ok member => exact calls_list hm ▸ .list hm
          | error e =>
              rw [calls_list_of_error hf hm]
              exact .misfit fun reason h => memberOf_ne_serialization S .list 0 reason (h ▸ hm)
  | map =>
      cases hd : d.asMap with
      | error e =>
          rw [calls_map_misfit hf hn hd, of_asMap_eq_error hd]
          exact .misfit (mismatch_ne_serialization d .map)
      | ok entries =>
          obtain ⟨l, rfl⟩ := of_asMap hd
          cases hm : m.mapValue S with
          | ok member => exact calls_map hm ▸ .map hm
          | error e =>
              rw [calls_map_of_error hf hm]
              exact .misfit fun reason h => memberOf_ne_serialization S .map 1 reason (h ▸ hm)
  | document => exact calls_document hf hn ▸ .kept hf hn
  | scalar type =>
      rw [calls_scalar hf hn]
      exact .ofScalar hf (fun _ => type_of_asScalar) (asScalar_ne_serialization type d)

/-- What a document calls for is sound if what its parts call for is. -/
theorem CallsFor.sound {S : SchemaRef} {d : Document} {call : Call} (h : CallsFor m S d call)
    (ih : ∀ e : Document, e.Inside d → ∀ member, (calls m e member).Sound) : call.Sound := by
  cases h with
  | null l => exact .null S
  | kept hf hn => exact .document S d
  | scalar hf => exact .scalar S _
  | list hm =>
      refine .list fun call hc => ?_
      obtain ⟨d, hd, rfl⟩ := List.mem_map.mp hc
      exact ih d (.item hd) _
  | map hm => exact .map fun e he => ih e.2 (.entry he) _
  | members hf =>
      refine .structure fun call hc => ?_
      obtain ⟨p, hp, rfl⟩ := List.mem_map.mp hc
      obtain ⟨-, -, hfind, -⟩ := mem_memberParts.mp hp
      exact ih p.2.2 (.entry (Entries.mem_of_find? hfind)) p.1
  | misfit he => exact .fail he
  | opened he => exact .structure fun _ hc => List.mem_singleton.mp hc ▸ .fail he

/-- However a document fits a schema, its calls are sound. -/
theorem calls_sound (d : Document) (schema : SchemaRef) : (calls m d schema).Sound := by
  induction d using Tree.induct_inside generalizing schema with
  | h d ih => exact (callsFor_calls m d schema).sound ih

end Document
end ShapeCodec
