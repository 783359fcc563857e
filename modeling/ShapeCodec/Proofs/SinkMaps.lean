import ShapeCodec.Proofs.Entries
import ShapeCodec.Proofs.Result
import ShapeCodec.Writer.Machine

/-!
# Runs under a map of values

The machine looks at values through its sink and nowhere else. A map that takes what one sink makes
to what another one makes takes every run for the first to the run of the same calls for the second.
-/

namespace ShapeCodec

variable {α β : Type}

/-- A map takes what one sink makes to what another makes of the same. -/
structure Sink.Carries (f : α → β) (sink : Sink α) (sink' : Sink β) : Prop where
  name : sink'.name = sink.name
  memberKey? : sink'.memberKey? = sink.memberKey?
  null : ∀ schema, sink'.null schema = f (sink.null schema)
  scalar : ∀ schema v, sink'.scalar schema v = (sink.scalar schema v).map f
  document : ∀ schema d, sink'.document schema d = (sink.document schema d).map f
  list : ∀ schema items, sink'.list schema (items.map f) = f (sink.list schema items)
  map : ∀ schema entries,
    sink'.map schema (entries.map fun e => (e.1, f e.2)) = f (sink.map schema entries)

namespace Writer

/-! ### States under a map -/

def Frame.map (f : α → β) : Frame α → Frame β
  | members written => members (written.map fun e => (e.1, f e.2))
  | elements written => elements (written.map f)
  | entries written key => entries (written.map fun e => (e.1, f e.2)) key

def State.map (f : α → β) (st : State α) : State β where
  stack := st.stack.map (Frame.map f)
  result := st.result.map f
  passedOver := st.passedOver

/-- The same outcome, in the state that a map leads to. -/
def carry (f : α → β) (outcome : Outcome α) : Outcome β :=
  (outcome.1, outcome.2.map f)

variable {m : Model} {f : α → β} {sink : Sink α} {sink' : Sink β}

/-- What comes after a step is carried along with it. -/
theorem andThen_carry {outcome : Outcome α} {next : State α → Outcome α}
    {next' : State β → Outcome β} (hnext : ∀ st, next' (st.map f) = carry f (next st)) :
    andThen (carry f outcome) next' = carry f (andThen outcome next) := by
  obtain ⟨r, st⟩ := outcome
  cases r with
  | ok _ => exact hnext st
  | error e => rfl

theorem setKey_map (key : String) (st : State α) :
    setKey key (st.map f) = carry f (setKey key st) := by
  obtain ⟨stack, result, passedOver⟩ := st
  match stack with
  | [] | .members _ :: _ | .elements _ :: _ | .entries _ _ :: _ => rfl

theorem passOver_carry (outcome : Outcome α) :
    passOver (carry f outcome) = carry f (passOver outcome) := by
  obtain ⟨r, st⟩ := outcome
  cases r <;> rfl

section
variable (h : Sink.Carries f sink sink')
include h

theorem take_map (schema : SchemaRef) (value : α) (frame : Frame α) :
    (frame.map f).take m sink' schema (f value) =
      (frame.take m sink schema value).map (.map f) := by
  match frame with
  | .members written =>
      simp only [Frame.map, Frame.take, memberKey, h.memberKey?]
      cases sink.memberKey? schema with
      | none => rfl
      | some key => simp [Except.map, Frame.map, Entries.map_insert]
  | .elements written => simp [Frame.map, Frame.take, Except.map]
  | .entries written (some key) => simp [Frame.map, Frame.take, Except.map, Entries.map_insert]
  | .entries written none => rfl

theorem emit_map (schema : SchemaRef) (value : α) (st : State α) :
    emit m sink' schema (f value) (st.map f) = carry f (emit m sink schema value st) := by
  obtain ⟨stack, result, passedOver⟩ := st
  cases stack with
  | nil => rfl
  | cons frame below =>
      have htake := take_map (m := m) h schema value frame
      simp only [emit, State.map, List.map_cons, htake]
      cases frame.take m sink schema value <;> rfl

theorem emitResult_map (schema : SchemaRef) (r : Result α) (st : State α) :
    emitResult m sink' schema (r.map f) (st.map f) = carry f (emitResult m sink schema r st) := by
  cases r with
  | ok value => exact emit_map h schema value st
  | error e => rfl

theorem unbalanced_eq : unbalanced sink' = unbalanced sink := by
  rw [unbalanced, unbalanced, h.name]

theorem pop_map (schema : SchemaRef) {close : Frame α → Result α} {close' : Frame β → Result β}
    (hclose : ∀ frame, close' (frame.map f) = (close frame).map f) (st : State α) :
    pop m sink' schema close' (st.map f) = carry f (pop m sink schema close st) := by
  obtain ⟨stack, result, passedOver⟩ := st
  cases stack with
  | nil =>
      show ((.error (unbalanced sink'), _) : Outcome β) = _
      rw [unbalanced_eq h]
      rfl
  | cons frame below =>
      have hemit := emitResult_map (m := m) h schema (close frame) ⟨below, result, passedOver⟩
      rw [← hclose] at hemit
      exact hemit

theorem closeStructure_map (schema : SchemaRef) (frame : Frame α) :
    closeStructure m sink' schema (frame.map f) = (closeStructure m sink schema frame).map f := by
  cases frame with
  | members written =>
      simp only [Frame.map, closeStructure, List.length_map, h.map]
      split <;> rfl
  | elements written | entries written key => exact congrArg Except.error (unbalanced_eq h)

theorem closeList_map (schema : SchemaRef) (frame : Frame α) :
    closeList sink' schema (frame.map f) = (closeList sink schema frame).map f := by
  cases frame with
  | elements written => exact congrArg Except.ok (h.list schema written)
  | members written | entries written key => exact congrArg Except.error (unbalanced_eq h)

theorem closeMap_map (schema : SchemaRef) (frame : Frame α) :
    closeMap sink' schema (frame.map f) = (closeMap sink schema frame).map f := by
  cases frame with
  | entries written key => exact congrArg Except.ok (h.map schema written)
  | members written | elements written => exact congrArg Except.error (unbalanced_eq h)

end

/-! ### Runs under a map -/

mutual

/-- A call does the same to a state and to its image. -/
theorem run_map (h : Sink.Carries f sink sink') (call : Call) (st : State α) :
    run m sink' call (st.map f) = carry f (run m sink call st) := by
  match call with
  | .scalar schema v =>
      rw [run, run, h.scalar]
      exact emitResult_map h schema _ st
  | .null schema =>
      rw [run, run, h.null]
      exact emit_map h schema _ st
  | .document schema d =>
      rw [run, run, h.document]
      exact emitResult_map h schema _ st
  | .structure schema members =>
      rw [run, run, ← andThen_carry (pop_map h schema (closeStructure_map h schema)),
        ← runAll_map h members]
      rfl
  | .list schema elements =>
      rw [run, run, ← andThen_carry (pop_map h schema (closeList_map h schema)),
        ← runAll_map h elements]
      rfl
  | .map schema entries =>
      rw [run, run, ← andThen_carry (pop_map h schema (closeMap_map h schema)),
        ← runAll_map h entries]
      rfl
  | .entry key value =>
      rw [run, run, setKey_map]
      exact andThen_carry (runAll_map h value)
  | .attempt call =>
      rw [run, run, run_map h call, passOver_carry]
  | .fail e =>
      rw [run, run]
      rfl

theorem runAll_map (h : Sink.Carries f sink sink') (calls : List Call) (st : State α) :
    runAll m sink' calls (st.map f) = carry f (runAll m sink calls st) := by
  match calls with
  | [] =>
      rw [runAll, runAll]
      rfl
  | call :: calls =>
      rw [runAll, runAll, run_map h call]
      exact andThen_carry (runAll_map h calls)

end

/-- What a call writes for one sink is the image of what it writes for the other. -/
theorem write_map (h : Sink.Carries f sink sink') (call : Call) :
    write m sink' call = (write m sink call).map f := by
  have hrun : run m sink' call {} = carry f (run m sink call {}) := run_map h call {}
  unfold write
  rw [hrun]
  obtain ⟨r, stack, result, passedOver⟩ := run m sink call {}
  cases r with
  | error e => rfl
  | ok _ => cases result <;> rfl

end Writer
end ShapeCodec
