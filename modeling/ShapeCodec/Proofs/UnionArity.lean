import Mathlib.Data.List.Dedup
import ShapeCodec.Proofs.UnionTags
import ShapeCodec.Proofs.Medium

/-!
# How many members a union has

Writers count the members of a union by the keys that were written, readers by the entries that are
not null and that do not go by the reserved key. Where keys are distinct, writing therefore fails
with the number of members that were written, unless that is one; and what it hands on for the one
member is read as that member exactly if a reader counts it.
-/

namespace ShapeCodec

open ShapeCodec.Tree (Visited)
open Source (Chosen)

theorem Entries.ofList_concat {α : Type} (pairs : List (String × α)) (key : String) (value : α) :
    ofList (pairs ++ [(key, value)]) = (ofList pairs).insert key value := by
  simp [ofList]

/-- Where one key is set over and over, the value that was set last stays. -/
theorem Entries.ofList_of_getLast? {α : Type} {pairs : List (String × α)} {key : String} {value : α}
    (hkey : ∀ p ∈ pairs, p.1 = key) (hlast : pairs.getLast? = some (key, value)) :
    ofList pairs = [(key, value)] := by
  obtain ⟨before, rfl⟩ := List.getLast?_eq_some_iff.mp hlast
  have hn := nodup_keys_ofList before
  have hbefore : ∀ e ∈ ofList before, e.1 = key := fun e he =>
    hkey e (List.mem_append_left _ (mem_of_mem_ofList he))
  rw [ofList_concat]
  -- before the last value there was nothing, or an earlier value of the same key
  match hes : ofList before, hn, hbefore with
  | [], _, _ => rfl
  | [(k, v)], _, hb =>
      obtain rfl : k = key := hb (k, v) (List.mem_singleton_self _)
      simp [insert]
  | (k, v) :: (k', v') :: es, hn, hb =>
      have hk : k = key := hb (k, v) (by simp)
      have hk' : k' = key := hb (k', v') (by simp)
      simp [keys, hk, hk'] at hn

namespace Medium

variable {Label Leaf : Type} {M : Medium Label Leaf} {S : SchemaRef}

/-! ### Writing members -/

variable (M S) in
/-- A member of a schema, and a call that writes a value for it. -/
structure MemberWrite where
  member : SchemaRef
  call : Call
  value : Tree Label Leaf
  isMember : member ∈ M.model.members S
  writes : M.Writes call member value

namespace MemberWrite

/-- A scalar that is written for a member. -/
def ofScalar {member : SchemaRef} (v : Scalar) {value : Tree Label Leaf}
    (hmem : member ∈ M.model.members S) (hv : M.sink.scalar member v = .ok value) :
    M.MemberWrite S :=
  ⟨member, .scalar member v, value, hmem, Writer.writes_scalar hv⟩

/-- A null that is written for a member. -/
def ofNull {member : SchemaRef} (hmem : member ∈ M.model.members S) : M.MemberWrite S :=
  ⟨member, .null member, .null (M.label member), hmem, writes_null member⟩

/-- The call for a structure or union of which these members are written. -/
def inside (ws : List (M.MemberWrite S)) : Call :=
  .structure S (ws.map MemberWrite.call)

/-- The members that are written, each once. -/
def touched (ws : List (M.MemberWrite S)) : List SchemaRef :=
  (ws.map MemberWrite.member).dedup

/-- The entries that come of it. -/
def entries (ws : List (M.MemberWrite S)) : Entries (Tree Label Leaf) :=
  Entries.ofList (ws.map fun w => (M.keyOf w.member, w.value))

/-- The value of a union that holds what was written for a member. -/
def union (w : M.MemberWrite S) : Tree Label Leaf :=
  .map (M.label S) [(M.keyOf w.member, w.value)]

/-- A reader counts what was written: it is not null and does not go by a key that is skipped. -/
def Counts (w : M.MemberWrite S) : Prop :=
  w.value.isNull = false ∧ M.source.ignoresKey (M.keyOf w.member) = false

end MemberWrite

open MemberWrite

variable (M S) in
/-- Every member has a key to be written under, and is found under it. -/
def Finds : Prop :=
  ∀ member ∈ M.model.members S, M.sink.memberKey? member = some (M.keyOf member) ∧
    M.source.member? S (M.keyOf member) = some member

variable (M) in
/-- What a union is found to hold, at a depth. -/
def unionMember (depth : Nat) (S : SchemaRef) (t : Tree Label Leaf) :
    Result (Chosen (Visited Label Leaf Unit)) :=
  M.source.openUnion M.scope depth S t.parts

/-- Writing a union agrees with reading it on the number of its members. -/
structure ArityAgrees (ws : List (M.MemberWrite S)) : Prop where
  /-- If writing succeeds, one member was written, and its last value is handed on. -/
  written : ∀ st, (Writer.run M.model M.sink (inside ws) st).1 = .ok () →
    ∃ w, ws.getLast? = some w ∧ touched ws = [w.member] ∧ M.Writes (inside ws) S w.union
  /-- What is handed on is read as the member that was written if it counts. -/
  known : ∀ w ∈ ws, w.Counts → ∀ depth < M.config.maxDepth,
    M.unionMember depth S w.union = .ok (.known w.member ⟨w.value, ()⟩)
  /-- If it does not count, a reader finds no member. -/
  absent : ∀ w ∈ ws, ¬ w.Counts → ∀ depth < M.config.maxDepth,
    M.unionMember depth S w.union = .error (.unionArity (M.model.shapeId S) 0)
  /-- Writing another number of members fails with that number. -/
  refused : (touched ws).length ≠ 1 → ∀ st, (Writer.run M.model M.sink (inside ws) st).1 =
    .error (.unionArity (M.model.shapeId S) (touched ws).length)

theorem Finds.keyOf_inj (h : M.Finds S) {a b : SchemaRef} (ha : a ∈ M.model.members S)
    (hb : b ∈ M.model.members S) (hkey : M.keyOf a = M.keyOf b) : a = b := by
  have hfound := (h a ha).2
  rw [hkey, (h b hb).2] at hfound
  exact (Option.some.inj hfound).symm

theorem mem_members_of_mem_touched {ws : List (M.MemberWrite S)} {member : SchemaRef}
    (h : member ∈ touched ws) : member ∈ M.model.members S := by
  obtain ⟨w, -, rfl⟩ := List.mem_map.mp (List.mem_dedup.mp h)
  exact w.isMember

/-- Members that go by different keys leave one entry each. -/
theorem Finds.length_written (h : M.Finds S) (ws : List (M.MemberWrite S)) :
    (entries ws).length = (touched ws).length := by
  have hkeys : ((touched ws).map M.keyOf).Nodup :=
    (List.nodup_dedup _).map_on fun a ha b hb => h.keyOf_inj (mem_members_of_mem_touched ha)
      (mem_members_of_mem_touched hb)
  have hperm : (Entries.keys (entries ws)).Perm ((touched ws).map M.keyOf) := by
    refine (List.perm_ext_iff_of_nodup (Entries.nodup_keys_ofList _) hkeys).mpr fun key => ?_
    refine Entries.mem_keys_ofList.trans ?_
    simp [Entries.keys, touched]
  simpa [Entries.keys] using hperm.length_eq

/-- The stack is back where it was when the union is closed. -/
theorem Finds.run_inside (h : M.Finds S) (ws : List (M.MemberWrite S)) (st : Writer.State _) :
    Writer.run M.model M.sink (inside ws) st = Writer.emitResult M.model M.sink S
      (Writer.closeStructure M.model M.sink S (.members (entries ws))) st := by
  let parts := ws.map fun w => (w.member, w.call, M.keyOf w.member, w.value)
  have hwrites : ∀ p ∈ parts, M.Writes p.2.1 p.1 p.2.2.2 :=
    List.forall_mem_map.mpr fun w _ => w.writes
  have hkeys : ∀ p ∈ parts, M.sink.memberKey? p.1 = some p.2.2.1 :=
    List.forall_mem_map.mpr fun w _ => (h w.member w.isMember).1
  have hcalls : (parts.map fun p => p.2.1) = ws.map MemberWrite.call := by
    simp [parts, Function.comp_def]
  have hentries : (parts.map fun p => p.2.2) = ws.map fun w => (M.keyOf w.member, w.value) := by
    simp [parts, Function.comp_def]
  have hrun := Writer.runAll_members hwrites hkeys [] st
  rw [hcalls, hentries] at hrun
  rw [inside, Writer.run, hrun]
  rfl

theorem Finds.run_refused (h : M.Finds S) (hu : M.model.typeOf S = .union)
    {ws : List (M.MemberWrite S)} (hn : (touched ws).length ≠ 1) (st : Writer.State _) :
    (Writer.run M.model M.sink (inside ws) st).1 =
      .error (.unionArity (M.model.shapeId S) (touched ws).length) := by
  rw [h.run_inside, Writer.closeStructure, h.length_written, if_pos ⟨hu, hn⟩]
  rfl

/-- If all that is written is one member, the union holds the value that was written last. -/
theorem Finds.writes_union (h : M.Finds S) {ws : List (M.MemberWrite S)} {w : M.MemberWrite S}
    (hlast : ws.getLast? = some w) (hone : touched ws = [w.member]) :
    M.Writes (inside ws) S w.union := by
  have hkey : ∀ p ∈ ws.map fun w => (M.keyOf w.member, w.value), p.1 = M.keyOf w.member := by
    refine List.forall_mem_map.mpr fun v hv => ?_
    have hmem : v.member ∈ touched ws := List.mem_dedup.mpr (List.mem_map_of_mem hv)
    rw [hone, List.mem_singleton] at hmem
    exact congrArg M.keyOf hmem
  have hwritten : entries ws = [(M.keyOf w.member, w.value)] :=
    Entries.ofList_of_getLast? hkey (by simp [hlast])
  intro st
  rw [h.run_inside, Writer.closeStructure, hwritten, if_neg (by simp), M.map_eq]
  rfl

/-! ### Reading what was written -/

theorem unionMember_eq (depth : Nat) (hd : depth < M.config.maxDepth)
    (entries : List (String × Tree Label Leaf)) :
    M.unionMember depth S (.map (M.label S) entries) =
      M.source.choose M.model S Visited.isNull (entries.map fun e => (e.1, ⟨e.2, ()⟩)) := by
  have henter : M.scope.enter depth = .ok () := M.scope.enter_eq_ok.mpr hd
  rw [unionMember, Source.openUnion, henter]
  rfl

theorem Finds.unionMember_of_counts (h : M.Finds S) {w : M.MemberWrite S} (hw : w.Counts)
    {depth : Nat} (hd : depth < M.config.maxDepth) :
    M.unionMember depth S w.union = .ok (.known w.member ⟨w.value, ()⟩) := by
  have hfound := (h w.member w.isMember).2
  rw [MemberWrite.union, unionMember_eq depth hd]
  simp [Source.choose, Source.candidates, Visited.isNull, hw.1, hw.2, hfound]

theorem unionMember_of_not_counts {w : M.MemberWrite S} (hw : ¬ w.Counts) {depth : Nat}
    (hd : depth < M.config.maxDepth) :
    M.unionMember depth S w.union = .error (.unionArity (M.model.shapeId S) 0) := by
  have hskipped : (!w.value.isNull && !M.source.ignoresKey (M.keyOf w.member)) = false := by
    simpa [Counts] using hw
  rw [MemberWrite.union, unionMember_eq depth hd]
  simp [Source.choose, Source.candidates, Visited.isNull, hskipped]

/-- In any medium in which members are found under their keys, arities agree. -/
theorem Finds.arityAgrees (h : M.Finds S) (hu : M.model.typeOf S = .union)
    (ws : List (M.MemberWrite S)) : ArityAgrees ws where
  written := by
    intro st hok
    by_cases hone : (touched ws).length = 1
    · obtain ⟨member, htouched⟩ := List.length_eq_one_iff.mp hone
      cases hlast : ws.getLast? with
      | none =>
          obtain rfl := List.getLast?_eq_none_iff.mp hlast
          simp [touched] at htouched
      | some w =>
          have hmem : w.member ∈ touched ws :=
            List.mem_dedup.mpr (List.mem_map_of_mem (List.mem_of_getLast? hlast))
          rw [htouched, List.mem_singleton] at hmem
          have htouched : touched ws = [w.member] := hmem ▸ htouched
          exact ⟨w, rfl, htouched, h.writes_union hlast htouched⟩
    · rw [h.run_refused hu hone] at hok
      nomatch hok
  known w _ hw depth hd := h.unionMember_of_counts hw hd
  absent w _ hw depth hd := unionMember_of_not_counts hw hd
  refused hn st := h.run_refused hu hn st

end Medium

/-! ### JSON and documents -/

theorem Document.finds {m : Model} {S : SchemaRef}
    (hn : ((m.declarations S).map Member.name).Nodup) (config : Config) :
    (Document.medium m config).Finds S := by
  intro member hmem
  obtain ⟨name, hname⟩ := Model.memberName?_of_mem (m := m) hmem
  have hkey : (Document.medium m config).keyOf member = name := by
    rw [Medium.keyOf]
    show (m.memberName? member).getD "" = name
    rw [hname, Option.getD_some]
  rw [hkey]
  exact ⟨hname, Model.member?_of_mem hn hmem hname⟩

theorem Codec.finds {c : Codec} {m : Model} {S : SchemaRef}
    (hn : ((m.declarations S).map (Member.key c.wireNames)).Nodup) : (c.medium m).Finds S := by
  intro member hmem
  obtain ⟨d, -, hd⟩ := Model.declarationOf?_of_mem (m := m) hmem
  have hwrite : (c.scope m).memberKey? member = some (d.key c.wireNames) :=
    Model.memberKey?_of_declarationOf? hd
  have hkey : (c.medium m).keyOf member = d.key c.wireNames := by
    rw [Medium.keyOf]
    show ((c.scope m).memberKey? member).getD "" = _
    rw [hwrite, Option.getD_some]
  rw [hkey]
  refine ⟨hwrite, Model.memberByKey?_of_mem hn hmem ?_⟩
  rw [hd]
  rfl

/--
Writers and readers agree on the number of members of a union, in JSON and in documents and in
either key mode, whatever is written and however often. What has been written is not found again
only if it is null, or in JSON goes by the reserved key.
-/
theorem union_arity_agrees {m : Model} {S : SchemaRef} (hu : m.typeOf S = .union)
    (hn : ((m.declarations S).map Member.name).Nodup)
    (hw : ((m.declarations S).map Member.wireName).Nodup) (c : Codec) (config : Config) :
    (∀ ws : List ((c.medium m).MemberWrite S), Medium.ArityAgrees ws) ∧
      ∀ ws : List ((Document.medium m config).MemberWrite S), Medium.ArityAgrees ws := by
  have hkeys : ((m.declarations S).map (Member.key c.wireNames)).Nodup := by
    cases hmode : c.wireNames with
    | true => exact hw
    | false => exact hn
  exact ⟨fun ws => (Codec.finds hkeys).arityAgrees hu ws,
    fun ws => (Document.finds hn config).arityAgrees hu ws⟩

/-- One member that is written twice is one member, two members are two, null or not. -/
theorem union_arity_agrees_choice :
    (∃ j, ({} : Codec).toJson Gallery.model (.structure Gallery.choice
        [.scalar (.member (.declared 13) 0) (.string "a"),
          .scalar (.member (.declared 13) 0) (.string "b")]) = .ok j ∧
      ({} : Codec).unionMember Gallery.model Gallery.choice j =
        .ok (.known (.member (.declared 13) 0) ⟨Json.string "b", ()⟩)) ∧
    (Writer.run Gallery.model (Document.sink Gallery.model) (.structure Gallery.choice
        [.scalar (.member (.declared 13) 0) (.string "a"), .null (.member (.declared 13) 1)])
      {}).1 = .error (.unionArity ⟨"t#Choice"⟩ 2) := by
  have htext : .member (.declared 13) 0 ∈ Gallery.model.members Gallery.choice := by decide
  have hnumber : .member (.declared 13) 1 ∈ Gallery.model.members Gallery.choice := by
    decide
  obtain ⟨hjson, hdocument⟩ := union_arity_agrees (m := Gallery.model) (S := Gallery.choice)
    (by decide) (by decide) (by decide) {} {}
  constructor
  · have h := hjson [.ofScalar (.string "a") htext rfl, .ofScalar (.string "b") htext rfl]
    obtain ⟨w, hlast, -, hwrites⟩ := h.written {} rfl
    obtain rfl := Option.some.inj hlast
    refine ⟨_, hwrites.write_eq_ok, ?_⟩
    exact h.known _ (by simp) ⟨rfl, rfl⟩ 0 (by decide)
  · have h := hdocument [.ofScalar (.string "a") htext rfl, .ofNull hnumber]
    exact h.refused (show 2 ≠ 1 by decide) {}

/-- A member that is written as null is one member to a writer and none to a reader. -/
theorem null_choice_not_found :
    (∃ j, ({} : Codec).toJson Gallery.model
        (.structure Gallery.choice [.null (.member (.declared 13) 0)]) = .ok j ∧
      ({} : Codec).unionMember Gallery.model Gallery.choice j =
        .error (.unionArity ⟨"t#Choice"⟩ 0)) ∧
    ∃ d, Document.ofCall Gallery.model
        (.structure Gallery.choice [.null (.member (.declared 13) 0)]) = .ok d ∧
      d.unionMember Gallery.model {} Gallery.choice = .error (.unionArity ⟨"t#Choice"⟩ 0) :=
  ⟨⟨_, rfl, rfl⟩, _, rfl, rfl⟩

end ShapeCodec
