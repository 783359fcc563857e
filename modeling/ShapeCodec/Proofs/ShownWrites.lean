import ShapeCodec.Proofs.Showing
import ShapeCodec.Proofs.SinkMaps
import ShapeCodec.Proofs.WrittenUnder

/-!
# What is shown of a document that has been written

The text of a document can be written by the machine itself, without the document. So what a hidden
part was written from is gone before anything else is written: calls that differ in such parts lead
to the same text.
-/

namespace ShapeCodec

/-! ### Texts in place of documents -/

open Document.inspectWalk (guarded) in
/-- Writes the texts of documents. -/
def Document.texts (m : Model) : Sink String where
  name := (Document.sink m).name
  memberKey? := m.memberName?
  null := fun schema => guarded m { schema } "Null"
  scalar := fun schema value => .ok (guarded m { schema } value.inspect)
  document := fun _ value => .ok (value.inspect m)
  list := fun schema items => guarded m { schema } (bracketed items)
  map := fun schema entries => guarded m { schema } (Document.braced entries)

theorem Document.carries_inspect (m : Model) :
    Sink.Carries (inspect m) (Document.sink m) (texts m) where
  name := rfl
  memberKey? := rfl
  null := fun _ => (inspect_null _).symm
  scalar := fun _ v => congrArg Except.ok (inspect_leaf _ v).symm
  document := fun _ _ => rfl
  list := fun _ items => (inspect_list _ items).symm
  map := fun _ entries => (inspect_map _ entries).symm

/-! ### Calls that are told apart by nothing that is shown -/

/-- The call is for a document that is kept as it is. -/
def Call.keeps : Call → Bool
  | .document .. => true
  | _ => false

/-- A value is written under a schema, and what is made of it carries that schema. -/
structure Call.WrittenAt (S : SchemaRef) (call : Call) : Prop where
  isValue : call.isValue = true
  schema : ∀ schema, call.schema? = some schema → schema = S
  keeps : call.keeps = false

/--
Calls that differ in nothing but what they write under sensitive schemas. Documents that are kept as
they are have to show the same by themselves.
-/
inductive Call.Alike (m : Model) : Call → Call → Prop
  | same (call : Call) : Alike m call call
  | hidden {S : SchemaRef} {call call' : Call} :
      m.isSensitive S = true → call.WrittenAt S → call'.WrittenAt S → Alike m call call'
  | kept {S : SchemaRef} {d e : Document} :
      d.inspect m = e.inspect m → Alike m (.document S d) (.document S e)
  | members {S : SchemaRef} {parts : List (Call × Call)} :
      (∀ p ∈ parts, Alike m p.1 p.2) →
      Alike m (.structure S (parts.map Prod.fst)) (.structure S (parts.map Prod.snd))
  | elements {S : SchemaRef} {parts : List (Call × Call)} :
      (∀ p ∈ parts, Alike m p.1 p.2) →
      Alike m (.list S (parts.map Prod.fst)) (.list S (parts.map Prod.snd))
  | entries {S : SchemaRef} {parts : List (Call × Call)} :
      (∀ p ∈ parts, Alike m p.1 p.2) →
      Alike m (.map S (parts.map Prod.fst)) (.map S (parts.map Prod.snd))
  | value {key : String} {parts : List (Call × Call)} :
      (∀ p ∈ parts, Alike m p.1 p.2) →
      Alike m (.entry key (parts.map Prod.fst)) (.entry key (parts.map Prod.snd))

section
variable {m : Model} {ι : Type} {S : SchemaRef} {items : List ι} {left right : ι → Call}
  (h : ∀ i ∈ items, (left i).Alike m (right i))
include h

/-- Calls for the same things, place by place, are pairs of calls. -/
private theorem Call.Alike.exists_pairs : ∃ parts : List (Call × Call),
    items.map left = parts.map Prod.fst ∧ items.map right = parts.map Prod.snd ∧
      ∀ p ∈ parts, p.1.Alike m p.2 :=
  ⟨items.map fun i => (left i, right i), by simp, by simp, List.forall_mem_map.mpr h⟩

theorem Call.Alike.structure_map :
    (Call.structure S (items.map left)).Alike m (.structure S (items.map right)) := by
  obtain ⟨parts, hleft, hright, hparts⟩ := exists_pairs h
  exact hleft ▸ hright ▸ .members hparts

theorem Call.Alike.list_map :
    (Call.list S (items.map left)).Alike m (.list S (items.map right)) := by
  obtain ⟨parts, hleft, hright, hparts⟩ := exists_pairs h
  exact hleft ▸ hright ▸ .elements hparts

/-- Maps with the same keys, each with one value. -/
theorem Call.Alike.map_entries (key : ι → String) :
    (Call.map S (items.map fun i => .entry (key i) [left i])).Alike m
      (.map S (items.map fun i => .entry (key i) [right i])) := by
  have hentry : ∀ i ∈ items,
      (Call.entry (key i) [left i]).Alike m (.entry (key i) [right i]) := by
    intro i hi
    have hvalue : ∀ p ∈ [(left i, right i)], p.1.Alike m p.2 :=
      List.forall_mem_singleton.mpr (h i hi)
    exact .value hvalue
  obtain ⟨parts, hleft, hright, hparts⟩ := exists_pairs hentry
  exact hleft ▸ hright ▸ .entries hparts

end

namespace Writer

variable {m : Model}

theorem andThen_eq_ok {α : Type} {outcome : Outcome α} {next : State α → Outcome α}
    {st : State α} : andThen outcome next = (.ok (), st) ↔
      ∃ st', outcome = (.ok (), st') ∧ next st' = (.ok (), st) := by
  obtain ⟨r, st'⟩ := outcome
  cases r <;> simp [andThen]

/-- What is written under a sensitive schema has the notice for its text. -/
theorem denote_texts_of_sensitive {S schema : SchemaRef} (hS : m.isSensitive S = true)
    {call : Call} (hcall : call.WrittenAt S) {text : String}
    (h : denote m (Document.texts m) call = .ok (schema, text)) :
    schema = S ∧ text = Document.redacted := by
  obtain rfl := hcall.schema schema (schema?_of_denote h)
  refine ⟨rfl, ?_⟩
  have hguarded (inner : String) : Document.inspectWalk.guarded m { schema } inner =
      Document.redacted := Document.guarded_of_sensitive hS inner
  cases call with
  | document s d => cases hcall.keeps
  | «structure» s members =>
      obtain ⟨rfl, pairs, -, rfl⟩ := of_denote_structure h
      exact hguarded _
  | null s =>
      rw [denote] at h
      obtain ⟨rfl, rfl⟩ := Prod.mk.inj (Except.ok.inj h)
      exact hguarded _
  | scalar s v =>
      rw [denote] at h
      obtain ⟨rfl, rfl⟩ := Prod.mk.inj (Except.ok.inj h)
      exact hguarded _
  | list s elements =>
      rw [denote] at h
      obtain ⟨rfl, items, rfl⟩ := of_return h
      exact hguarded _
  | map s entries =>
      rw [denote] at h
      obtain ⟨rfl, pairs, rfl⟩ := of_return h
      exact hguarded _
  | entry key value => rw [denote] at h; cases h
  | attempt call => rw [denote] at h; cases h
  | fail e => rw [denote] at h; cases h

theorem run_of_sensitive {S : SchemaRef} (hS : m.isSensitive S = true) {call : Call}
    (hcall : call.WrittenAt S) {st st' : State String}
    (h : run m (Document.texts m) call st = (.ok (), st')) :
    emit m (Document.texts m) S Document.redacted st = (.ok (), st') := by
  have hcomputes := computes_of_isValue m (Document.texts m) hcall.isValue
  cases hd : denote m (Document.texts m) call with
  | error e =>
      have he : (run m (Document.texts m) call st).1 = .error e := hcomputes.error hd st
      rw [h] at he
      cases he
  | ok p =>
      obtain ⟨schema, text⟩ := p
      obtain ⟨rfl, rfl⟩ := denote_texts_of_sensitive hS hcall hd
      rw [← hcomputes.ok hd st, h]

/-- Runs that start alike and succeed are in the same state again. -/
def EndsAlike (m : Model) (call call' : Call) : Prop :=
  ∀ {st a b}, run m (Document.texts m) call st = (.ok (), a) →
    run m (Document.texts m) call' st = (.ok (), b) → a = b

theorem runAll_endsAlike {parts : List (Call × Call)}
    (h : ∀ p ∈ parts, EndsAlike m p.1 p.2) {st a b : State String}
    (ha : runAll m (Document.texts m) (parts.map Prod.fst) st = (.ok (), a))
    (hb : runAll m (Document.texts m) (parts.map Prod.snd) st = (.ok (), b)) : a = b := by
  induction parts generalizing st with
  | nil => exact (Prod.mk.inj (ha.symm.trans hb)).2
  | cons p parts ih =>
      obtain ⟨hp, h⟩ := List.forall_mem_cons.mp h
      rw [List.map_cons, runAll, andThen_eq_ok] at ha hb
      obtain ⟨a', hfirst, ha⟩ := ha
      obtain ⟨b', hfirst', hb⟩ := hb
      obtain rfl := hp hfirst hfirst'
      exact ih h ha hb

/-- One step after two runs that end alike. -/
theorem andThen_endsAlike {outcome outcome' : Outcome String} {next : State String → Outcome String}
    {a b : State String}
    (h : ∀ {a b}, outcome = (.ok (), a) → outcome' = (.ok (), b) → a = b)
    (ha : andThen outcome next = (.ok (), a)) (hb : andThen outcome' next = (.ok (), b)) :
    a = b := by
  obtain ⟨a', ha', ha⟩ := andThen_eq_ok.mp ha
  obtain ⟨b', hb', hb⟩ := andThen_eq_ok.mp hb
  obtain rfl := h ha' hb'
  exact (Prod.mk.inj (ha.symm.trans hb)).2

theorem endsAlike_of_alike {call call' : Call} (h : call.Alike m call') :
    EndsAlike m call call' := by
  induction h with
  | same call => exact fun ha hb => (Prod.mk.inj (ha.symm.trans hb)).2
  | hidden hS hcall hcall' =>
      intro st a b ha hb
      have hemit := run_of_sensitive hS hcall ha
      exact (Prod.mk.inj (hemit.symm.trans (run_of_sensitive hS hcall' hb))).2
  | kept htext =>
      intro st a b ha hb
      simp only [run, Document.texts, htext] at ha hb
      exact (Prod.mk.inj (ha.symm.trans hb)).2
  | members _ ih | elements _ ih | entries _ ih =>
      intro st a b ha hb
      rw [run] at ha hb
      exact andThen_endsAlike (fun ha hb => runAll_endsAlike ih ha hb) ha hb
  | value _ ih =>
      intro st a b ha hb
      rw [run] at ha hb
      obtain ⟨st', hset, ha⟩ := andThen_eq_ok.mp ha
      obtain ⟨st'', hset', hb⟩ := andThen_eq_ok.mp hb
      obtain rfl : st' = st'' := (Prod.mk.inj (hset.symm.trans hset')).2
      exact runAll_endsAlike ih ha hb

end Writer

/-- Documents that are written by calls alike show the same. -/
theorem Document.inspect_ofCall_eq {m : Model} {call call' : Call} (h : call.Alike m call')
    {d e : Document} (hd : ofCall m call = .ok d) (he : ofCall m call' = .ok e) :
    d.inspect m = e.inspect m := by
  have hwrite {call : Call} {d : Document} (hd : ofCall m call = .ok d) :
      ∃ st, Writer.run m (texts m) call {} = (.ok (), st) ∧ st.result = some (d.inspect m) := by
    have htext : Writer.write m (texts m) call = .ok (d.inspect m) := by
      rw [Writer.write_map (carries_inspect m)]
      exact congrArg (Except.map (inspect m)) hd
    unfold Writer.write Writer.finish at htext
    split at htext
    · rename_i st hrun
      refine ⟨st, hrun, ?_⟩
      cases hst : st.result with
      | some text => simpa [hst] using htext
      | none => simp [hst] at htext
    · cases htext
  obtain ⟨st, hrun, hresult⟩ := hwrite hd
  obtain ⟨st', hrun', hresult'⟩ := hwrite he
  obtain rfl := Writer.endsAlike_of_alike h hrun hrun'
  exact Option.some.inj (hresult.symm.trans hresult')

end ShapeCodec
