import ShapeCodec.Proofs.Denotation
import ShapeCodec.Writer.Json

/-!
# Nothing stays open

A call that stands for a value closes every container that it opens, so the error about containers
that do not match is met by no one. What a call needs from the containers around it is a key.
-/

namespace ShapeCodec.Writer

variable {α : Type} {m : Model} {sink : Sink α}

/-! ### Where errors come from -/

theorem of_denoteMembers_eq_error {calls : List Call} {e : Error}
    (h : denoteMembers m sink calls = .error e) :
    (∃ call ∈ calls, denote m sink call = .error e) ∨ ∃ s, memberKey m sink s = .error e := by
  induction calls with
  | nil => rw [denoteMembers] at h; cases h
  | cons call calls ih =>
      rw [denoteMembers] at h
      rcases Result.bind_eq_error.mp h with h | ⟨⟨s, value⟩, -, h⟩
      · exact .inl ⟨call, List.mem_cons_self .., h⟩
      rcases Result.bind_eq_error.mp h with h | ⟨key, -, h⟩
      · exact .inr ⟨s, h⟩
      rcases Result.bind_eq_error.mp h with h | ⟨pairs, -, h⟩
      · rcases ih h with ⟨call, hc, h⟩ | hkey
        · exact .inl ⟨call, List.mem_cons_of_mem _ hc, h⟩
        · exact .inr hkey
      · cases h

theorem of_denoteElements_eq_error {calls : List Call} {e : Error}
    (h : denoteElements m sink calls = .error e) :
    ∃ call ∈ calls, denote m sink call = .error e := by
  induction calls with
  | nil => rw [denoteElements] at h; cases h
  | cons call calls ih =>
      rw [denoteElements] at h
      rcases Result.bind_eq_error.mp h with h | ⟨⟨s, value⟩, -, h⟩
      · exact ⟨call, List.mem_cons_self .., h⟩
      rcases Result.bind_eq_error.mp h with h | ⟨values, -, h⟩
      · obtain ⟨call, hc, h⟩ := ih h
        exact ⟨call, List.mem_cons_of_mem _ hc, h⟩
      · cases h

theorem of_denoteEntry_eq_error {key : String} {calls : List Call} {e : Error}
    (h : denoteEntry m sink key calls = .error e) :
    (∃ call ∈ calls, denote m sink call = .error e) ∨ e = withoutKey := by
  match calls, h with
  | [], h => rw [denoteEntry] at h; cases h
  | [call], h =>
      rw [denoteEntry] at h
      rcases Result.bind_eq_error.mp h with h | ⟨p, -, h⟩
      · exact .inl ⟨call, List.mem_cons_self .., h⟩
      · cases h
  | call :: second :: calls, h =>
      rw [denoteEntry] at h
      rcases Result.bind_eq_error.mp h with h | ⟨p, -, h⟩
      · exact .inl ⟨call, List.mem_cons_self .., h⟩
      rcases Result.bind_eq_error.mp h with h | ⟨p, -, h⟩
      · exact .inl ⟨second, by simp, h⟩
      · exact .inr (Except.error.inj h).symm

theorem of_denoteEntries_eq_error {entries : List Call} {e : Error}
    (hf : ∀ entry ∈ entries, (∃ e, entry = .fail e) ∨ ∃ key value, entry = .entry key value)
    (h : denoteEntries m sink entries = .error e) :
    .fail e ∈ entries ∨
      ∃ key value, .entry key value ∈ entries ∧ denoteEntry m sink key value = .error e := by
  induction entries with
  | nil => rw [denoteEntries] at h; cases h
  | cons entry entries ih =>
      obtain ⟨⟨e', rfl⟩ | ⟨key, value, rfl⟩, hrest⟩ := List.forall_mem_cons.mp hf
      · rw [denoteEntries] at h
        obtain rfl := Except.error.inj h
        exact .inl (List.mem_cons_self ..)
      rw [denoteEntries] at h
      rcases Result.bind_eq_error.mp h with h | ⟨pairs, -, h⟩
      · exact .inr ⟨key, value, List.mem_cons_self .., h⟩
      rcases Result.bind_eq_error.mp h with h | ⟨pairs', -, h⟩
      · rcases ih hrest h with hfail | ⟨key, value, hm, h⟩
        · exact .inl (List.mem_cons_of_mem _ hfail)
        · exact .inr ⟨key, value, List.mem_cons_of_mem _ hm, h⟩
      · cases h

/-- What is asked of a sink: the errors of leaves are not about frames. -/
structure Steady (sink : Sink α) : Prop where
  scalar : ∀ schema v, sink.scalar schema v ≠ .error (unbalanced sink)
  document : ∀ schema d, sink.document schema d ≠ .error (unbalanced sink)

theorem withoutKey_ne_unbalanced : withoutKey ≠ unbalanced sink := by
  intro h
  have htext := congrArg String.toList (Error.serialization.inj h)
  simp [toString, String.toList_append] at htext

theorem memberKey_ne_unbalanced (s : SchemaRef) :
    memberKey m sink s ≠ .error (unbalanced sink) := by
  intro h
  unfold memberKey at h
  split at h
  · cases h
  · -- one text ends in "member", the other in "frames"
    have htext := congrArg (fun t => t.toList.reverse.head?)
      (Error.serialization.inj (Except.error.inj h))
    simp [toString, String.toList_append] at htext

/-- The error about frames comes out of a value only if a call for a part of it failed with it. -/
theorem raises_of_denote_eq_error (hs : Steady sink) {call : Call} (h : call.isValue = true) :
    denote m sink call = .error (unbalanced sink) → call.Raises (unbalanced sink) := by
  refine Call.isValue_induct (motive := fun call =>
    denote m sink call = .error (unbalanced sink) → call.Raises (unbalanced sink))
    ?scalar ?null ?document ?fail ?record ?list ?map call h
  case scalar =>
      intro schema v hd
      rw [denote] at hd
      rcases Result.bind_eq_error.mp hd with hd | ⟨value, -, hd⟩
      · exact absurd hd (hs.scalar schema v)
      · cases hd
  case null =>
      intro schema hd
      rw [denote] at hd
      cases hd
  case document =>
      intro schema d hd
      rw [denote] at hd
      rcases Result.bind_eq_error.mp hd with hd | ⟨value, -, hd⟩
      · exact absurd hd (hs.document schema d)
      · cases hd
  case fail =>
      intro e hd
      rw [denote] at hd
      exact Except.error.inj hd ▸ .fail
  case record =>
      intro schema members ih hd
      rw [denote] at hd
      rcases Result.bind_eq_error.mp hd with hd | ⟨pairs, -, hd⟩
      · rcases of_denoteMembers_eq_error hd with ⟨call, hc, hd⟩ | ⟨s, hd⟩
        · exact .member hc (ih call hc hd)
        · exact absurd hd (memberKey_ne_unbalanced s)
      · dsimp only at hd
        split at hd
        · simp [unbalanced] at hd
        · cases hd
  case list =>
      intro schema elements ih hd
      rw [denote] at hd
      rcases Result.bind_eq_error.mp hd with hd | ⟨values, -, hd⟩
      · obtain ⟨call, hc, hd⟩ := of_denoteElements_eq_error hd
        exact .element hc (ih call hc hd)
      · cases hd
  case map =>
      intro schema entries ih hd
      rw [denote] at hd
      rcases Result.bind_eq_error.mp hd with hd | ⟨pairs, -, hd⟩
      · have hform : ∀ entry ∈ entries, (∃ e, entry = .fail e) ∨
            ∃ key value, entry = .entry key value := by
          intro entry he
          rcases ih entry he with hfail | ⟨key, value, heq, -⟩
          · exact .inl hfail
          · exact .inr ⟨key, value, heq⟩
        rcases of_denoteEntries_eq_error hform hd with he | ⟨key, value, he, hd⟩
        · exact .entry he .fail
        obtain ⟨e, heq⟩ | ⟨key', value', heq, ih⟩ := ih _ he
        · cases heq
        · cases heq
          rcases of_denoteEntry_eq_error hd with ⟨call, hc, hd⟩ | hd
          · exact .entry he (.value hc (ih call hc hd))
          · exact absurd hd.symm withoutKey_ne_unbalanced
      · cases hd

/-- A sound call, on its own, does not come to the error about frames. -/
theorem write_ne_unbalanced (hs : Steady sink) {call : Call} (h : call.Sound) :
    write m sink call ≠ .error (unbalanced sink) := by
  rw [write_eq_denote h.isValue]
  intro he
  exact h.quiet _ (raises_of_denote_eq_error hs h.isValue (Result.map_eq_error.mp he))

end Writer

/-! ### Documents and JSON -/

theorem Document.steady_sink (m : Model) : Writer.Steady (Document.sink m) where
  scalar := fun _ _ => by simp [Document.sink]
  document := fun _ _ => by simp [Document.sink]

namespace Json.Scope

variable (s : Scope)

/-- A sink for JSON is steady if writing whole documents is. -/
theorem steady_sinkWith {document : Document → Result Json}
    (h : ∀ d, document d ≠ .error (Writer.unbalanced s.sink)) :
    Writer.Steady (s.sinkWith document) where
  scalar := fun _ _ => by simp [sinkWith]
  document := fun _ d => h d

theorem of_entriesWith_eq_error {document : Document → Result Json} {e : Error}
    {entries : List (String × Document)} (h : entriesWith document entries = .error e) :
    ∃ d, document d = .error e := by
  induction entries with
  | nil => cases h
  | cons entry entries ih =>
      rcases Result.bind_eq_error.mp h with h | ⟨j, -, h⟩
      · exact ⟨entry.2, h⟩
      rcases Result.bind_eq_error.mp h with h | ⟨rest, -, h⟩
      · exact ih h
      · cases h

theorem documentAt_ne_unbalanced (fuel : Nat) (d : Document) :
    s.documentAt fuel d ≠ .error (Writer.unbalanced s.sink) := by
  induction fuel generalizing d with
  | zero =>
      intro h
      have htext := congrArg String.toList (Error.serialization.inj (Except.error.inj h))
      simp [toString, sink, sinkWith] at htext
  | succ fuel ih =>
      intro h
      unfold documentAt at h
      split at h
      · cases d with
        | null l => cases h
        | leaf l v => cases h
        | list l items =>
            rcases Result.bind_eq_error.mp h with h | ⟨js, -, h⟩
            · obtain ⟨d, -, h⟩ := Result.of_mapM_eq_error h
              exact ih d h
            · cases h
        | map l entries =>
            rcases Result.bind_eq_error.mp h with h | ⟨js, -, h⟩
            · obtain ⟨d, h⟩ := of_entriesWith_eq_error h
              exact ih d h
            · cases h
      · exact Writer.write_ne_unbalanced (s.steady_sinkWith ih) (d.calls_sound d.schema) h

theorem steady_sink : Writer.Steady s.sink :=
  s.steady_sinkWith fun d => s.documentAt_ne_unbalanced d.height d

end Json.Scope

/-! ### What a run leads to -/

namespace Writer

section
variable {α : Type} (m : Model) (sink : Sink α) (schema : SchemaRef)

/-- The state after a value has been taken by what is open, or has become the result. -/
inductive Receives (value : α) : State α → State α → Prop
  | result {old : Option α} {passedOver : List Error} :
      Receives value ⟨[], old, passedOver⟩ ⟨[], some value, passedOver⟩
  | member {key : String} {written : Entries α} {below : List (Frame α)} {old : Option α}
      {passedOver : List Error} : sink.memberKey? schema = some key →
      Receives value ⟨.members written :: below, old, passedOver⟩
        ⟨.members (written.insert key value) :: below, old, passedOver⟩
  | element {written : List α} {below : List (Frame α)} {old : Option α}
      {passedOver : List Error} :
      Receives value ⟨.elements written :: below, old, passedOver⟩
        ⟨.elements (written ++ [value]) :: below, old, passedOver⟩
  | entry {key : String} {written : Entries α} {below : List (Frame α)} {old : Option α}
      {passedOver : List Error} :
      Receives value ⟨.entries written (some key) :: below, old, passedOver⟩
        ⟨.entries (Entries.insert key value written) none :: below, old, passedOver⟩

/-- A structure takes nothing but members, and a map takes nothing without a key. -/
inductive Refuses : State α → Error → Prop
  | member {written : Entries α} {below : List (Frame α)} {old : Option α}
      {passedOver : List Error} : sink.memberKey? schema = none →
      Refuses ⟨.members written :: below, old, passedOver⟩
        (.serialization s!"{(m.id schema).text} written inside a structure is not a member")
  | entry {written : Entries α} {below : List (Frame α)} {old : Option α}
      {passedOver : List Error} :
      Refuses ⟨.entries written none :: below, old, passedOver⟩ withoutKey

variable {m sink schema}

theorem receives_iff {value : α} {st st' : State α} :
    Receives sink schema value st st' ↔ emit m sink schema value st = (.ok (), st') := by
  constructor
  · intro h
    cases h with
    | result => rfl
    | member hk => simp [emit, Frame.take, memberKey_eq_ok_iff.mpr hk]
    | element => rfl
    | entry => rfl
  · intro h
    obtain ⟨stack, old, passedOver⟩ := st
    rcases stack with _ | ⟨written | written | ⟨written, _ | key⟩, below⟩
    · exact (Prod.mk.inj h).2 ▸ .result
    · cases hk : memberKey m sink schema with
      | ok key =>
          simp only [emit, Frame.take, hk, Result.ok_bind, Result.pure_eq_ok] at h
          exact (Prod.mk.inj h).2 ▸ .member (memberKey_eq_ok_iff.mp hk)
      | error e => simp [emit, Frame.take, hk] at h
    · exact (Prod.mk.inj h).2 ▸ .element
    · cases h
    · exact (Prod.mk.inj h).2 ▸ .entry

theorem Refuses.emit_eq {value : α} {st : State α} {e : Error} (h : Refuses m sink schema st e) :
    emit m sink schema value st = (.error e, st) := by
  cases h with
  | member hk => simp [emit, Frame.take, memberKey, hk]
  | entry => rfl

theorem refuses_of_emit {value : α} {st : State α} {e : Error}
    (h : (emit m sink schema value st).1 = .error e) : Refuses m sink schema st e := by
  obtain ⟨stack, old, passedOver⟩ := st
  rcases stack with _ | ⟨written | written | ⟨written, _ | key⟩, below⟩
  · cases h
  · cases hk : sink.memberKey? schema with
    | some key => simp [emit, Frame.take, memberKey, hk] at h
    | none =>
        simp only [emit, Frame.take, memberKey, hk, Result.error_bind] at h
        exact Except.error.inj h ▸ .member hk
  · cases h
  · exact Except.error.inj h ▸ .entry
  · cases h

theorem Refuses.ne_unbalanced {st : State α} {e : Error} (h : Refuses m sink schema st e) :
    e ≠ unbalanced sink := by
  cases h with
  | member hk =>
      intro he
      have hkey : memberKey m sink schema = .error (unbalanced sink) := by
        simp [memberKey, hk, he]
      exact memberKey_ne_unbalanced schema hkey
  | entry => exact withoutKey_ne_unbalanced

end

/-- What a run of a call comes to, by the value that the call stands for. -/
structure RunsAs {α : Type} (m : Model) (sink : Sink α) (call : Call) (st : State α) : Prop where
  /-- It succeeds if there is a value that is taken, once, by what was open or as the result. -/
  succeeds_iff : ∀ st', run m sink call st = (.ok (), st') ↔
    ∃ schema value, denote m sink call = .ok (schema, value) ∧ Receives sink schema value st st'
  /-- If there is no value, it fails with the first error on the way. -/
  fails : ∀ e, denote m sink call = .error e → (run m sink call st).1 = .error e
  /-- If the value is not taken, that is the error, and all is as before. -/
  refuses : ∀ schema value e, denote m sink call = .ok (schema, value) →
    Refuses m sink schema st e → run m sink call st = (.error e, st)
  /-- Those are all the ways. -/
  balanced : (run m sink call st).1 = .error (unbalanced sink) → call.Raises (unbalanced sink)

theorem runsAs_of_steady {α : Type} {m : Model} {sink : Sink α} (hs : Steady sink) {call : Call}
    (h : call.isValue = true) (st : State α) : RunsAs m sink call st := by
  have hcall := computes_of_isValue m sink h
  cases hd : denote m sink call with
  | error e =>
      have hrun : (run m sink call st).1 = .error e := hcall.error hd st
      refine ⟨fun st' => ⟨fun hok => ?_, ?_⟩, fun e' he => ?_, ?_, fun hu => ?_⟩
      · simp [hok] at hrun
      · rintro ⟨schema, value, heq, -⟩
        simp [hd] at heq
      · obtain rfl : e = e' := by simpa [hd] using he
        exact hrun
      · intro schema value e' heq
        simp [hd] at heq
      · obtain rfl : e = unbalanced sink := Except.error.inj (hrun.symm.trans hu)
        exact raises_of_denote_eq_error hs h hd
  | ok p =>
      obtain ⟨schema, value⟩ := p
      have hrun := hcall.ok hd st
      refine ⟨fun st' => ⟨fun hok => ?_, ?_⟩, ?_, ?_, fun hu => ?_⟩
      · exact ⟨schema, value, hd, receives_iff.mpr (hrun ▸ hok)⟩
      · rintro ⟨schema', value', heq, hr⟩
        obtain ⟨rfl, rfl⟩ : schema = schema' ∧ value = value' := by simpa [hd] using heq
        exact hrun.trans (receives_iff.mp hr)
      · intro e heq
        simp [hd] at heq
      · intro schema' value' e heq hr
        obtain ⟨rfl, rfl⟩ : schema = schema' ∧ value = value' := by simpa [hd] using heq
        exact hrun.trans hr.emit_eq
      · exact absurd rfl (refuses_of_emit (hrun ▸ hu)).ne_unbalanced

/--
Documents and JSON are written as the calls say. From any state, with anything open, a call that
stands for a value hands it on to what is innermost, or fails with its first error. Only if the
value comes where none is taken there is an error besides. No frames are ever out of balance, but
for a call that fails saying so.
-/
theorem call_computes_value (m : Model) (s : Json.Scope) {call : Call} (h : call.isValue = true) :
    (∀ st, RunsAs m (Document.sink m) call st) ∧ ∀ st, RunsAs s.model s.sink call st :=
  ⟨runsAs_of_steady (Document.steady_sink m) h, runsAs_of_steady s.steady_sink h⟩

/-- A map with a second value for its key, and a value after it. -/
def crowdedCalls : Call × Call :=
  (.map (.prelude .documentMap)
      [.entry "k"
        [.scalar (.scalar .string) (.string "x"), .scalar (.scalar .string) (.string "y")]],
    .scalar (.scalar .string) (.string "z"))

/-- The map comes to an error. -/
theorem call_computes_value_crowded :
    crowdedCalls.1.isValue = true ∧
      (run {} (Document.sink {}) crowdedCalls.1 { stack := [.elements []] }).1 =
        .error withoutKey :=
  ⟨by decide, ((call_computes_value {} { model := {}, config := {} } (by decide)).1 _).fails _ rfl⟩

/-- What the failure leaves open does not take the value that comes after, though it is one. -/
theorem value_refused_after_failure :
    ∃ st, (run {} (Document.sink {}) crowdedCalls.1 {}).2 = st ∧
      denote {} (Document.sink {}) crowdedCalls.2 =
        .ok (.scalar .string, .leaf { schema := .scalar .string } (.string "z")) ∧
      ∀ st', run {} (Document.sink {}) crowdedCalls.2 st ≠ (.ok (), st') :=
  ⟨_, rfl, rfl, fun _ h => by cases (Prod.mk.inj h).1⟩

end Writer
end ShapeCodec
