import ShapeCodec.Proofs.Entries
import ShapeCodec.Writer.Machine

/-!
# What calls write

A call writes a value when running it does no more than hand that value on, whatever is open at the
time. Containers write what their parts write, so the stack is only looked at here.
-/

namespace ShapeCodec.Writer

variable {α : Type} (m : Model) (sink : Sink α)

/-- Running a call under a schema hands on a value and changes nothing else. -/
def Writes (call : Call) (schema : SchemaRef) (value : α) : Prop :=
  ∀ st, run m sink call st = emit m sink schema value st

variable {m sink}

/-- A call that writes a value, run on its own, has it for a result. -/
theorem Writes.write_eq_ok {call : Call} {schema : SchemaRef} {value : α}
    (h : Writes m sink call schema value) : write m sink call = .ok value := by
  unfold write
  rw [h]
  rfl

theorem writes_null (schema : SchemaRef) : Writes m sink (.null schema) schema (sink.null schema) :=
  fun st => by rw [run]

theorem writes_scalar {schema : SchemaRef} {v : Scalar} {value : α}
    (h : sink.scalar schema v = .ok value) : Writes m sink (.scalar schema v) schema value := by
  intro st
  rw [run, h]
  rfl

theorem writes_document {schema : SchemaRef} {d : Document} {value : α}
    (h : sink.document schema d = .ok value) : Writes m sink (.document schema d) schema value := by
  intro st
  rw [run, h]
  rfl

/-! ### Runs of calls inside a container -/

theorem runAll_cons_of_ok {call : Call} {calls : List Call} {st st' : State α}
    (h : run m sink call st = (.ok (), st')) :
    runAll m sink (call :: calls) st = runAll m sink calls st' := by
  rw [runAll, h]
  rfl

theorem emit_push {schema : SchemaRef} {value : α} {frame frame' : Frame α}
    (h : frame.take m sink schema value = .ok frame') (st : State α) :
    emit m sink schema value (push frame st) = (.ok (), push frame' st) := by
  simp only [emit, push, h]

theorem pop_push {schema : SchemaRef} {close : Frame α → Result α} {frame : Frame α} {value : α}
    (h : close frame = .ok value) (st : State α) :
    pop m sink schema close (push frame st) = emit m sink schema value st := by
  simp only [pop, push, h]
  rfl

/-- Elements are added in order. -/
theorem runAll_elements {member : SchemaRef} {parts : List (Call × α)}
    (h : ∀ p ∈ parts, Writes m sink p.1 member p.2) (written : List α) (st : State α) :
    runAll m sink (parts.map Prod.fst) (push (.elements written) st) =
      (.ok (), push (.elements (written ++ parts.map Prod.snd)) st) := by
  induction parts generalizing written with
  | nil => simp [runAll]
  | cons p parts ih =>
      obtain ⟨hp, h⟩ := List.forall_mem_cons.mp h
      -- a call leaves the frame as it was but for its own value
      have htake : Frame.take m sink member p.2 (.elements written) =
          .ok (.elements (written ++ [p.2])) := rfl
      rw [List.map_cons, runAll_cons_of_ok ((hp _).trans (emit_push htake st)), ih h]
      simp

/-- Members are set under their keys, one after the other. -/
theorem runAll_members {parts : List (SchemaRef × Call × String × α)}
    (h : ∀ p ∈ parts, Writes m sink p.2.1 p.1 p.2.2.2)
    (hk : ∀ p ∈ parts, sink.memberKey? p.1 = some p.2.2.1) (written : Entries α) (st : State α) :
    runAll m sink (parts.map fun p => p.2.1) (push (.members written) st) =
      (.ok (), push (.members ((parts.map fun p => p.2.2).foldl
        (fun es p => es.insert p.1 p.2) written)) st) := by
  induction parts generalizing written with
  | nil => simp [runAll]
  | cons p parts ih =>
      obtain ⟨hp, h⟩ := List.forall_mem_cons.mp h
      obtain ⟨hkey, hk⟩ := List.forall_mem_cons.mp hk
      have htake : Frame.take m sink p.1 p.2.2.2 (.members written) =
          .ok (.members (Entries.insert p.2.2.1 p.2.2.2 written)) := by
        simp only [Frame.take, memberKey, hkey]
        rfl
      rw [List.map_cons, runAll_cons_of_ok ((hp _).trans (emit_push htake st)), ih h hk]
      simp

/-- Entries are set under their keys, one after the other. -/
theorem runAll_entries {member : SchemaRef} {parts : List (String × Call × α)}
    (h : ∀ p ∈ parts, Writes m sink p.2.1 member p.2.2) (written : Entries α) (st : State α) :
    runAll m sink (parts.map fun p => .entry p.1 [p.2.1]) (push (.entries written none) st) =
      (.ok (), push (.entries ((parts.map fun p => (p.1, p.2.2)).foldl
        (fun es p => es.insert p.1 p.2) written) none) st) := by
  induction parts generalizing written with
  | nil => simp [runAll]
  | cons p parts ih =>
      obtain ⟨hp, h⟩ := List.forall_mem_cons.mp h
      have htake : Frame.take m sink member p.2.2 (.entries written (some p.1)) =
          .ok (.entries (Entries.insert p.1 p.2.2 written) none) := rfl
      have hrun : run m sink (.entry p.1 [p.2.1]) (push (.entries written none) st) =
          (.ok (), push (.entries (Entries.insert p.1 p.2.2 written) none) st) := by
        have hvalue := (hp _).trans (emit_push htake st)
        rw [run]
        show runAll m sink [p.2.1] (push (.entries written (some p.1)) st) = _
        rw [runAll_cons_of_ok hvalue, runAll]
      rw [List.map_cons, runAll_cons_of_ok hrun, ih h]
      simp

/-! ### Containers -/

theorem writes_list {schema member : SchemaRef} {parts : List (Call × α)}
    (h : ∀ p ∈ parts, Writes m sink p.1 member p.2) :
    Writes m sink (.list schema (parts.map Prod.fst)) schema
      (sink.list schema (parts.map Prod.snd)) := by
  intro st
  have hclose : closeList sink schema (.elements ([] ++ parts.map Prod.snd)) =
      .ok (sink.list schema (parts.map Prod.snd)) := rfl
  rw [run, runAll_elements h]
  exact pop_push hclose st

theorem writes_map {schema member : SchemaRef} {parts : List (String × Call × α)}
    (h : ∀ p ∈ parts, Writes m sink p.2.1 member p.2.2) :
    Writes m sink (.map schema (parts.map fun p => .entry p.1 [p.2.1])) schema
      (sink.map schema (Entries.ofList (parts.map fun p => (p.1, p.2.2)))) := by
  intro st
  have hclose : closeMap sink schema
      (.entries (Entries.ofList (parts.map fun p => (p.1, p.2.2))) none) =
      .ok (sink.map schema (Entries.ofList (parts.map fun p => (p.1, p.2.2)))) := rfl
  rw [run, runAll_entries h]
  exact pop_push hclose st

/-- Members that go by different keys make up a structure, and one member makes up a union. -/
theorem writes_structure {schema : SchemaRef} {parts : List (SchemaRef × Call × String × α)}
    (h : ∀ p ∈ parts, Writes m sink p.2.1 p.1 p.2.2.2)
    (hk : ∀ p ∈ parts, sink.memberKey? p.1 = some p.2.2.1)
    (hn : (Entries.keys (parts.map fun p => p.2.2)).Nodup)
    (hu : m.typeOf schema = .union → parts.length = 1) :
    Writes m sink (.structure schema (parts.map fun p => p.2.1)) schema
      (sink.map schema (parts.map fun p => p.2.2)) := by
  intro st
  have hwritten : Entries.ofList (parts.map fun p => p.2.2) = parts.map fun p => p.2.2 :=
    Entries.ofList_of_nodup hn
  have hclose : closeStructure m sink schema (.members (parts.map fun p => p.2.2)) =
      .ok (sink.map schema (parts.map fun p => p.2.2)) := by
    simp only [closeStructure, List.length_map]
    rw [if_neg]
    rintro ⟨ht, hl⟩
    exact hl (hu ht)
  rw [Entries.ofList] at hwritten
  rw [run, runAll_members h hk, hwritten]
  exact pop_push hclose st

end ShapeCodec.Writer
