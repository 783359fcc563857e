import ShapeCodec.Proofs.Writing
import ShapeCodec.Writer.Json

/-!
# Failed writes

A call that fails may leave containers open, and one whose parts pass over errors may close another
container than its own. Still, a call closes nothing that was open before it: what was open stays
where it was, and only the innermost takes something. So once something has been left open, nothing
that is written later becomes the result.
-/

namespace ShapeCodec

namespace Call

/-- Calls that write an entry, or attempt to. -/
def isEntry : Call → Bool
  | .entry .. => true
  | .attempt call => call.isEntry
  | _ => false

/-- The value of an entry is written by calls that are no entries themselves. -/
def keysOnce : Call → Bool
  | .entry _ value => value.all fun call => !call.isEntry
  | .attempt call => call.keysOnce
  | _ => true

end Call

namespace Writer

variable {α : Type} (m : Model) (sink : Sink α)

/-- Runs calls one after the other, going on after those that fail. -/
def after (calls : List Call) (st : State α) : State α :=
  calls.foldl (fun st call => (run m sink call st).2) st

/-- A container is as it was, or has taken one value. -/
inductive Placed (frame : Frame α) : Frame α → Prop
  | same : Placed frame frame
  | taken {schema : SchemaRef} {value : α} {frame' : Frame α} :
      frame.take m sink schema value = .ok frame' → Placed frame frame'

/-- A container has been given a key, if it is a map, and then taken at most one value. -/
inductive Touched : Frame α → Frame α → Prop
  | placed {frame frame' : Frame α} : Placed m sink frame frame' → Touched frame frame'
  | keyed {written : Entries α} {old : Option String} {key : String} {frame' : Frame α} :
      Placed m sink (.entries written (some key)) frame' → Touched (.entries written old) frame'

/-- Something is open above `below`, and `result` is still the result. -/
structure Above (below : List (Frame α)) (result : Option α) (st : State α) : Prop where
  stack : ∃ top rest, st.stack = top :: rest ∧ below <:+ rest
  result : st.result = result

/-- What has become of the container `frame`, which stands on `below`. -/
def Leads (R : Frame α → Frame α → Prop) (frame : Frame α) (below : List (Frame α))
    (st : State α) : Prop :=
  ∃ frame', frame' :: below <:+ st.stack ∧ R frame frame'

variable {m sink} {below rest : List (Frame α)} {result : Option α} {frame : Frame α}
  {schema : SchemaRef} {st : State α}

theorem Leads.imp {R R' : Frame α → Frame α → Prop} (h : Leads R frame below st)
    (hr : ∀ {frame'}, R frame frame' → R' frame frame') : Leads R' frame below st :=
  Exists.imp (fun _ => .imp_right hr) h

theorem Above.of_stack (h : st.stack = frame :: below) : Above below st.result st :=
  ⟨⟨frame, below, h, List.suffix_rfl⟩, rfl⟩

theorem Above.mono (h : Above rest result st) (hs : below <:+ rest) : Above below result st :=
  ⟨h.stack.imp fun _ => .imp fun _ h => ⟨h.1, hs.trans h.2⟩, h.result⟩

theorem above_push (frame : Frame α) (st : State α) : Above st.stack st.result (push frame st) :=
  ⟨⟨frame, st.stack, rfl, List.suffix_rfl⟩, rfl⟩

/-- Only the innermost container changes. -/
theorem Above.withTop {top : Frame α} (h : Above below result st)
    (hst : st.stack = frame :: rest) : Above below result { st with stack := top :: rest } := by
  obtain ⟨⟨top', rest', hst', hs⟩, hr⟩ := h
  obtain ⟨-, rfl⟩ := List.cons.inj (hst.symm.trans hst')
  exact ⟨⟨top, rest, rfl, hs⟩, hr⟩

/-- A container that is not innermost is still there as long as something is above it. -/
theorem Above.leads {R : Frame α → Frame α → Prop} {frame' : Frame α}
    (h : Above rest result st) (hs : frame' :: below <:+ rest) (hr : R frame frame') :
    Leads R frame below st := by
  obtain ⟨⟨top, rest', hst, hs'⟩, -⟩ := h
  exact ⟨frame', hst ▸ (hs.trans hs').trans (List.suffix_cons ..), hr⟩

/-! ### Handing values on -/

theorem emit_of_stack_cons (schema : SchemaRef) (value : α) (h : st.stack = frame :: below) :
    ∃ frame', (emit m sink schema value st).2 = { st with stack := frame' :: below } ∧
      Placed m sink frame frame' := by
  cases ht : frame.take m sink schema value with
  | ok frame' => exact ⟨frame', by simp only [emit, h, ht], .taken ht⟩
  | error e => exact ⟨frame, by simp only [emit, h, ht]; rw [← h], .same⟩

theorem Above.emitResult (h : Above below result st) (value : Result α) :
    Above below result (emitResult m sink schema value st).2 := by
  cases value with
  | error e => exact h
  | ok value =>
      obtain ⟨top, rest, hst, -⟩ := h.stack
      obtain ⟨top', heq, -⟩ := emit_of_stack_cons schema value hst
      rw [Writer.emitResult, heq]
      exact h.withTop hst

theorem emitResult_leads (h : st.stack = frame :: below) (value : Result α) :
    Leads (Placed m sink) frame below (emitResult m sink schema value st).2 := by
  cases value with
  | error e => exact ⟨frame, h ▸ List.suffix_rfl, .same⟩
  | ok value =>
      obtain ⟨frame', heq, hp⟩ := emit_of_stack_cons schema value h
      exact ⟨frame', by simp [Writer.emitResult, heq], hp⟩

/-- What is written outside of all leaves nothing open. -/
theorem emitResult_result (value : Result α)
    (h : (emitResult m sink schema value st).2.stack ≠ []) :
    (emitResult m sink schema value st).2.result = st.result := by
  cases value with
  | error e => rfl
  | ok value =>
      cases hst : st.stack with
      | nil => simp [Writer.emitResult, emit, hst] at h
      | cons frame below => exact ((Above.of_stack hst).emitResult (.ok value)).result

/-! ### Closing containers -/

section
variable {close : Frame α → Result α}

/-- One container is closed: the one that was opened on `below`, or one above it. -/
theorem Above.pop_eq (m : Model) (sink : Sink α) (schema : SchemaRef)
    (close : Frame α → Result α) (h : Above below result st) :
    ∃ rest value, pop m sink schema close st =
      Writer.emitResult m sink schema value { st with stack := rest } ∧
      (rest = below ∨ ∃ top rest', rest = top :: rest' ∧ below <:+ rest') := by
  obtain ⟨⟨top, rest, hst, hs⟩, -⟩ := h
  refine ⟨rest, close top, by simp only [pop, hst], ?_⟩
  cases rest with
  | nil => exact .inl (List.suffix_nil.mp hs).symm
  | cons top' rest' =>
      exact (List.suffix_cons_iff.mp hs).imp Eq.symm fun hs => ⟨top', rest', rfl, hs⟩

/-- Closing a container that was opened inside of others leaves those in place. -/
theorem Above.pop (h : Above (frame :: rest) result st) (hs : below <:+ rest) :
    Above below result (pop m sink schema close st).2 := by
  obtain ⟨rest', value, heq, hrest⟩ := h.pop_eq m sink schema close
  rw [heq]
  suffices habove : Above below result { st with stack := rest' } from habove.emitResult value
  obtain rfl | ⟨top, rest'', rfl, hs'⟩ := hrest
  · exact ⟨⟨frame, rest, rfl, hs⟩, h.result⟩
  · exact ⟨⟨top, rest'', rfl, (hs.trans (List.suffix_cons ..)).trans hs'⟩, h.result⟩

theorem Above.pop_leads (h : Above (frame :: below) result st) :
    Leads (Placed m sink) frame below (Writer.pop m sink schema close st).2 := by
  obtain ⟨rest, value, heq, rfl | ⟨top, rest, rfl, hs⟩⟩ := h.pop_eq m sink schema close
  · exact heq ▸ emitResult_leads rfl value
  · -- what was opened on `frame` is left open, and the value goes there or above
    rw [heq]
    have habove : Above rest st.result { st with stack := top :: rest } :=
      ⟨⟨top, rest, rfl, List.suffix_rfl⟩, rfl⟩
    exact (habove.emitResult value).leads hs .same

theorem Above.pop_result (h : Above below result st)
    (hne : (Writer.pop m sink schema close st).2.stack ≠ []) :
    (Writer.pop m sink schema close st).2.result = result := by
  obtain ⟨rest, value, heq, -⟩ := h.pop_eq m sink schema close
  rw [heq] at hne ⊢
  exact (emitResult_result value hne).trans h.result

end

/-! ### Runs -/

theorem andThen_snd {P : State α → Prop} {outcome : Outcome α} {next : State α → Outcome α}
    (h : P outcome.2) (hnext : P (next outcome.2).2) : P (andThen outcome next).2 := by
  obtain ⟨⟨⟩ | ⟨⟩, st⟩ := outcome
  · exact h
  · exact hnext

@[simp]
theorem passOver_stack (outcome : Outcome α) : (passOver outcome).2.stack = outcome.2.stack := by
  obtain ⟨⟨⟩ | ⟨⟩, st⟩ := outcome <;> rfl

@[simp]
theorem passOver_result (outcome : Outcome α) :
    (passOver outcome).2.result = outcome.2.result := by
  obtain ⟨⟨⟩ | ⟨⟩, st⟩ := outcome <;> rfl

theorem Above.passOver {outcome : Outcome α} (h : Above below result outcome.2) :
    Above below result (passOver outcome).2 := by
  obtain ⟨hs, hr⟩ := h
  exact ⟨by simpa using hs, by simpa using hr⟩

/-- Parts are written on top of what is open, and then some container is closed. -/
theorem Above.parts {close : Frame α → Result α} {outcome : Outcome α}
    (h : Above below result st) (hp : Above st.stack st.result outcome.2) :
    Above below result (andThen outcome (Writer.pop m sink schema close)).2 := by
  obtain ⟨⟨top, rest, hst, hs⟩, hr⟩ := h
  rw [hst, hr] at hp
  exact andThen_snd (hp.mono (hs.trans (List.suffix_cons ..))) (hp.pop hs)

/-- A key is set in a map that is innermost, or nothing happens. -/
theorem setKey_cases (key : String) (st : State α) :
    (∃ written old rest, st.stack = .entries written old :: rest ∧
      setKey key st = (.ok (), { st with stack := .entries written (some key) :: rest })) ∨
    ∃ e, setKey key st = (.error e, st) := by
  match hst : st.stack with
  | .entries written old :: rest =>
      exact .inl ⟨written, old, rest, rfl, by simp only [setKey, hst]⟩
  | [] | .members _ :: _ | .elements _ :: _ => exact .inr ⟨_, by simp only [setKey, hst]; rfl⟩

theorem Above.setKey (h : Above below result st) (key : String) :
    Above below result (setKey key st).2 := by
  obtain ⟨written, old, rest, hst, heq⟩ | ⟨e, heq⟩ := setKey_cases key st
  · exact heq ▸ h.withTop hst
  · exact heq ▸ h

mutual

/-- Whatever a call does, it leaves open what was open around it. -/
theorem Above.run : ∀ (call : Call) {below : List (Frame α)} {result : Option α}
    {st : State α}, Above below result st → Above below result (run m sink call st).2
  | .scalar schema value, _, _, _, h => by rw [Writer.run]; exact h.emitResult _
  | .null schema, _, _, _, h => by rw [Writer.run]; exact h.emitResult (.ok _)
  | .document schema value, _, _, _, h => by rw [Writer.run]; exact h.emitResult _
  | .structure schema members, _, _, st, h => by
      rw [Writer.run]
      exact h.parts (Above.runAll members (above_push _ st))
  | .list schema elements, _, _, st, h => by
      rw [Writer.run]
      exact h.parts (Above.runAll elements (above_push _ st))
  | .map schema entries, _, _, st, h => by
      rw [Writer.run]
      exact h.parts (Above.runAll entries (above_push _ st))
  | .entry key value, _, _, _, h => by
      rw [Writer.run]
      exact andThen_snd (h.setKey key) (Above.runAll value (h.setKey key))
  | .attempt call, _, _, _, h => by
      rw [Writer.run]
      exact (Above.run call h).passOver
  | .fail e, _, _, _, h => by rw [Writer.run]; exact h

theorem Above.runAll : ∀ (calls : List Call) {below : List (Frame α)} {result : Option α}
    {st : State α}, Above below result st → Above below result (runAll m sink calls st).2
  | [], _, _, _, h => by rw [Writer.runAll]; exact h
  | call :: calls, _, _, _, h => by
      rw [Writer.runAll]
      exact andThen_snd (Above.run call h) (Above.runAll calls (Above.run call h))

end

theorem above_runAll_push (calls : List Call) (frame : Frame α) (st : State α) :
    Above st.stack st.result (runAll m sink calls (push frame st)).2 :=
  (above_push frame st).runAll calls

theorem Above.after (calls : List Call) (h : Above below result st) :
    Above below result (after m sink calls st) := by
  induction calls generalizing st with
  | nil => exact h
  | cons call calls ih => exact ih (h.run call)

/-! ### What the innermost container takes -/

/-- Parts are written on top of a container, which takes what is closed then, if anything. -/
theorem parts_leads {close : Frame α → Result α} {outcome : Outcome α}
    (h : st.stack = frame :: below) (hp : Above st.stack st.result outcome.2) :
    Leads (Placed m sink) frame below (andThen outcome (pop m sink schema close)).2 := by
  rw [h] at hp
  exact andThen_snd (hp.leads List.suffix_rfl .same) hp.pop_leads

/-- A call that is no entry hands at most one value to the container it is made in. -/
theorem run_leads : ∀ (call : Call) {st : State α}, call.isEntry = false →
    st.stack = frame :: below → Leads (Placed m sink) frame below (run m sink call st).2
  | .scalar .., _, _, h => by rw [run]; exact emitResult_leads h _
  | .null _, _, _, h => by rw [run]; exact emitResult_leads h (.ok _)
  | .document .., _, _, h => by rw [run]; exact emitResult_leads h _
  | .structure _ members, _, _, h => by
      rw [run]; exact parts_leads h (above_runAll_push members _ _)
  | .list _ elements, _, _, h => by
      rw [run]; exact parts_leads h (above_runAll_push elements _ _)
  | .map _ entries, _, _, h => by
      rw [run]; exact parts_leads h (above_runAll_push entries _ _)
  | .entry .., _, hc, _ => by simp [Call.isEntry] at hc
  | .attempt call, _, hc, h => by
      rw [run, Leads, passOver_stack]
      exact run_leads call (by simpa only [Call.isEntry] using hc) h
  | .fail _, _, _, h => by rw [run]; exact ⟨frame, h ▸ List.suffix_rfl, .same⟩

/-- A map that has taken a value has no key for another. -/
theorem take_entries {written : Entries α} {key : Option String} {value : α} {frame' : Frame α}
    (h : Frame.take m sink schema value (.entries written key) = .ok frame') :
    ∃ written', frame' = .entries written' none := by
  cases key with
  | none => cases h
  | some key => exact ⟨_, (Except.ok.inj h).symm⟩

theorem Placed.of_entries_none {written : Entries α} {frame' : Frame α}
    (h : Placed m sink (.entries written none) frame') : frame' = .entries written none := by
  cases h with
  | same => rfl
  | taken h => cases h

/-- The calls that write the value of an entry hand at most one value to the map. -/
theorem runAll_leads {calls : List Call} (hc : ∀ call ∈ calls, call.isEntry = false) :
    ∀ {written : Entries α} {key : Option String} {st : State α},
      st.stack = .entries written key :: below →
      Leads (Placed m sink) (.entries written key) below (runAll m sink calls st).2 := by
  induction calls with
  | nil => intro written key st h; rw [runAll]; exact ⟨_, h ▸ List.suffix_rfl, .same⟩
  | cons call calls ih =>
      intro written key st h
      obtain ⟨hcall, hcalls⟩ := List.forall_mem_cons.mp hc
      have hfirst : Leads (Placed m sink) _ below _ := run_leads call hcall h
      rw [runAll]
      refine andThen_snd hfirst ?_
      obtain ⟨frame, hs, hp⟩ := hfirst
      generalize (run m sink call st).2 = st' at hs ⊢
      obtain ⟨top, rest, hst⟩ : ∃ top rest, st'.stack = top :: rest :=
        List.exists_cons_of_ne_nil fun hnil => by simp [hnil] at hs
      rw [hst] at hs
      obtain heq | hs := List.suffix_cons_iff.mp hs
      · obtain ⟨rfl, rfl⟩ := List.cons.inj heq
        cases hp with
        | same => exact ih hcalls hst
        | taken ht =>
            obtain ⟨written', rfl⟩ := take_entries ht
            obtain ⟨frame', hs, hp⟩ := ih hcalls hst
            exact ⟨frame', hs, hp.of_entries_none ▸ .taken ht⟩
      · -- the map is no longer innermost, and takes nothing more
        exact ((Above.of_stack hst).runAll calls).leads hs hp

/-- A call touches no container but the innermost, with at most one key and one value. -/
theorem run_touches : ∀ (call : Call) {st : State α}, call.keysOnce = true →
    st.stack = frame :: below → Leads (Touched m sink) frame below (run m sink call st).2
  | .entry key value, st, hc, h => by
      rw [run]
      obtain ⟨written, old, rest, hst, heq⟩ | ⟨e, heq⟩ := setKey_cases key st
      · obtain ⟨rfl, rfl⟩ := List.cons.inj (hst.symm.trans h)
        have hvalue : ∀ call ∈ value, call.isEntry = false := by
          simpa [Call.keysOnce] using hc
        rw [heq, andThen]
        have hkeyed : { st with stack := .entries written (some key) :: rest : State α }.stack =
            .entries written (some key) :: rest := rfl
        obtain ⟨frame', hs, hp⟩ := runAll_leads hvalue hkeyed
        exact ⟨frame', hs, .keyed hp⟩
      · exact ⟨frame, by simp only [heq, andThen, h, List.suffix_rfl], .placed .same⟩
  | .attempt call, _, hc, h => by
      rw [run, Leads, passOver_stack]
      exact run_touches call (by simpa only [Call.keysOnce] using hc) h
  | .scalar schema value, _, _, h => (run_leads (.scalar schema value) rfl h).imp .placed
  | .null schema, _, _, h => (run_leads (.null schema) rfl h).imp .placed
  | .document schema d, _, _, h => (run_leads (.document schema d) rfl h).imp .placed
  | .structure schema parts, _, _, h =>
      (run_leads (.structure schema parts) rfl h).imp .placed
  | .list schema parts, _, _, h => (run_leads (.list schema parts) rfl h).imp .placed
  | .map schema parts, _, _, h => (run_leads (.map schema parts) rfl h).imp .placed
  | .fail e, _, _, h => (run_leads (.fail e) rfl h).imp .placed

/-! ### Results -/

theorem parts_result {close : Frame α → Result α} {outcome : Outcome α}
    (hp : Above st.stack st.result outcome.2) :
    (andThen outcome (pop m sink schema close)).2.stack ≠ [] →
      (andThen outcome (pop m sink schema close)).2.result = st.result :=
  andThen_snd (P := fun st' => st'.stack ≠ [] → st'.result = st.result)
    (fun _ => hp.result) hp.pop_result

/-- A call that leaves something open has not written the result. -/
theorem run_result : ∀ {call : Call} {st : State α}, (run m sink call st).2.stack ≠ [] →
    (run m sink call st).2.result = st.result
  | .scalar .., _, h => by rw [run] at h ⊢; exact emitResult_result _ h
  | .null schema, st, h => by rw [run] at h ⊢; exact emitResult_result (.ok _) h
  | .document .., _, h => by rw [run] at h ⊢; exact emitResult_result _ h
  | .structure .., _, h => by rw [run] at h ⊢; exact parts_result (above_runAll_push ..) h
  | .list .., _, h => by rw [run] at h ⊢; exact parts_result (above_runAll_push ..) h
  | .map .., _, h => by rw [run] at h ⊢; exact parts_result (above_runAll_push ..) h
  | .entry key value, st, h => by
      -- outside of all there is no map to set a key in
      obtain ⟨_, _, _, hst, -⟩ | ⟨e, heq⟩ := setKey_cases key st
      · exact ((Above.of_stack hst).run (.entry key value)).result
      · rw [run, heq, andThen]
  | .attempt call, _, h => by
      rw [run, passOver_stack] at h
      rw [run, passOver_result]
      exact run_result h
  | .fail _, _, _ => by rw [run]

/-- Once something is open, nothing that is written later becomes the result. -/
theorem finish_after (calls : List Call) (h : st.stack ≠ []) :
    finish (after m sink calls st) = finish st := by
  obtain ⟨frame, below, hst⟩ := List.exists_cons_of_ne_nil h
  rw [finish, finish, ((Above.of_stack hst).after calls).result]

/--
A failed write never leads to a wrong value. From any state, whatever the parts of a call fail with
or pass over, the call closes nothing that was open before: what is below the innermost container
is as it was, and the innermost has at most been given a key and taken one value. If anything is
open after the call, the call has not written the result, and no later call does.
-/
theorem failed_write_keeps_result (m : Model) (sink : Sink α) {call : Call}
    (hc : call.keysOnce = true) (st : State α) :
    st.stack.length ≤ (run m sink call st).2.stack.length ∧
      (∀ frame below, st.stack = frame :: below →
        ∃ above frame', (run m sink call st).2.stack = above ++ frame' :: below ∧
          Touched m sink frame frame') ∧
      ((run m sink call st).2.stack ≠ [] → finish (run m sink call st).2 = finish st ∧
        ∀ later, finish (after m sink later (run m sink call st).2) = finish st) := by
  have htop : ∀ frame below, st.stack = frame :: below →
      ∃ above frame', (run m sink call st).2.stack = above ++ frame' :: below ∧
        Touched m sink frame frame' := by
    intro frame below h
    obtain ⟨frame', ⟨above, hs⟩, ht⟩ := run_touches call hc h
    exact ⟨above, frame', hs.symm, ht⟩
  refine ⟨?_, htop, fun hne => ?_⟩
  · cases hst : st.stack with
    | nil => exact Nat.zero_le _
    | cons frame below =>
        obtain ⟨above, frame', hs, -⟩ := htop frame below hst
        simp [hs]
  · have hkept : finish (run m sink call st).2 = finish st := by
      rw [finish, finish, run_result hne]
    exact ⟨hkept, fun later => (finish_after later hne).trans hkept⟩

/-- A list whose only element fails unnoticed: it closes the structure instead of itself. -/
def strayedCall : Call :=
  .list (.prelude .documentList)
    [.attempt (.structure (.prelude .documentMap) [.fail (.serialization "no members")])]

/-- What was written before is still the result after a list that stays open and takes a string. -/
theorem failed_write_keeps_result_strayed :
    strayedCall.keysOnce = true ∧
      (run {} (Json.Scope.sink { model := {}, config := {} }) strayedCall
        { result := some .null }).2.stack ≠ [] ∧
      finish (after {} (Json.Scope.sink { model := {}, config := {} })
        [.scalar (.scalar .string) (.string "x")]
        (run {} (Json.Scope.sink { model := {}, config := {} }) strayedCall
          { result := some .null }).2) = .ok .null :=
  have hopen : (run {} (Json.Scope.sink { model := {}, config := {} }) strayedCall
      { result := some .null }).2.stack ≠ [] := List.cons_ne_nil _ _
  ⟨rfl, hopen, ((failed_write_keeps_result {} _ rfl _).2.2 hopen).2 _⟩

end Writer
end ShapeCodec
