import Mathlib.Data.List.Basic
import ShapeCodec.Document.Update
import ShapeCodec.Proofs.Entries
import ShapeCodec.Proofs.Result

/-!
# Showing documents

The text of a document, node by node: a node whose schema hides it shows nothing of what is in it,
and any other shows all of its parts. So two documents that differ in one part are told apart by
their texts exactly where the parts are, unless something around them is hidden.
-/

namespace ShapeCodec

/-! ### One element among others -/

theorem exists_intercalate_eq (sep : String) (before after : List String) :
    ∃ left right, ∀ x, sep.intercalate (before ++ x :: after) = left ++ x ++ right := by
  have hfirst : ∃ right, ∀ x, sep.intercalate (x :: after) = x ++ right := by
    cases after with
    | nil => exact ⟨"", by simp⟩
    | cons y after => exact ⟨sep ++ sep.intercalate (y :: after), by simp [String.append_assoc]⟩
  obtain ⟨right, hright⟩ := hfirst
  induction before with
  | nil => exact ⟨"", right, by simpa using hright⟩
  | cons y before ih =>
      obtain ⟨left, right, h⟩ := ih
      refine ⟨y ++ sep ++ left, right, fun x => ?_⟩
      rw [List.cons_append, String.intercalate_cons_of_ne_nil (by simp), h]
      simp only [String.append_assoc]

/-- Between the same texts, two texts can be told apart. -/
theorem append_append_inj {left right x y : String} :
    left ++ x ++ right = left ++ y ++ right ↔ x = y := by
  simp only [← String.toList_inj, String.toList_append, List.append_cancel_right_eq,
    List.append_cancel_left_eq]

namespace Document

variable {m : Model}

/-! ### One node -/

open inspectWalk (guarded)

theorem guarded_of_sensitive {l : Label} (h : m.isSensitive l.schema = true) (text : String) :
    guarded m l text = redacted :=
  if_pos h

theorem guarded_eq_iff {l : Label} {a b : String} :
    guarded m l a = guarded m l b ↔ m.isSensitive l.schema = true ∨ a = b := by
  unfold guarded
  by_cases h : m.isSensitive l.schema = true <;> simp [h]

theorem inspect_null (l : Label) : inspect m (.null l) = guarded m l "Null" :=
  Tree.walk_null ..

theorem inspect_leaf (l : Label) (v : Scalar) : inspect m (.leaf l v) = guarded m l v.inspect :=
  Tree.walk_leaf ..

theorem inspect_list (l : Label) (items : List Document) :
    inspect m (.list l items) = guarded m l (bracketed (items.map (inspect m))) := by
  rw [inspect, Tree.walk_list]
  simp only [inspectWalk, List.map_map]
  rfl

theorem inspect_map (l : Label) (entries : List (String × Document)) :
    inspect m (.map l entries) =
      guarded m l (braced (entries.map fun e => (e.1, e.2.inspect m))) := by
  rw [inspect, Tree.walk_map]
  simp only [inspectWalk, List.map_map]
  rfl

/-- A hidden document shows nothing, whatever it holds. -/
theorem inspect_of_sensitive {d : Document} (h : m.isSensitive d.schema = true) :
    d.inspect m = redacted := by
  cases d with
  | null l => exact (inspect_null l).trans (guarded_of_sensitive h _)
  | leaf l v => exact (inspect_leaf l v).trans (guarded_of_sensitive h _)
  | list l items => exact (inspect_list l items).trans (guarded_of_sensitive h _)
  | map l entries => exact (inspect_map l entries).trans (guarded_of_sensitive h _)

/-! ### A part among others -/

/-- A node around a part of a document, without that part. -/
inductive Around where
  | item (label : Label) (before after : List Document)
  | entry (label : Label) (before : Entries Document) (key : String) (after : Entries Document)

namespace Around

def schema : Around → SchemaRef
  | item label .. | entry label .. => label.schema

/-- The node with a part in its place. -/
def fill (d : Document) : Around → Document
  | item label before after => .list label (before ++ d :: after)
  | entry label before key after => .map label (before ++ (key, d) :: after)

theorem inspect_fill_eq_iff {x y : Document} (a : Around) :
    (a.fill x).inspect m = (a.fill y).inspect m ↔
      m.isSensitive a.schema = true ∨ x.inspect m = y.inspect m := by
  cases a with
  | item label before after =>
      obtain ⟨left, right, h⟩ :=
        exists_intercalate_eq ", " (before.map (inspect m)) (after.map (inspect m))
      simp only [fill, inspect_list, guarded_eq_iff, schema, bracketed, List.map_append,
        List.map_cons, h, append_append_inj]
  | entry label before key after =>
      obtain ⟨left, right, h⟩ := exists_intercalate_eq ", "
        (before.map fun e => s!"{Text.quote e.1}: {e.2.inspect m}")
        (after.map fun e => s!"{Text.quote e.1}: {e.2.inspect m}")
      have hentry (t u : String) :
          s!"{Text.quote key}: {t}" = s!"{Text.quote key}: {u}" ↔ t = u := by
        simp [← String.toList_inj, toString]
      simp only [fill, inspect_map, guarded_eq_iff, schema, braced, List.map_append, List.map_cons,
        List.map_map, Function.comp_def, h, append_append_inj, hentry]

end Around

/-- A document inside the nodes around it, innermost first. -/
def within (d : Document) (around : List Around) : Document :=
  around.foldl Around.fill d

/-- Some node around a document hides what is in it. -/
def Covered (m : Model) (around : List Around) : Prop :=
  ∃ a ∈ around, m.isSensitive a.schema = true

/-- Parts at one place show through the nodes around them unless one of these is hidden. -/
theorem inspect_within_eq_iff {x y : Document} (around : List Around) :
    (x.within around).inspect m = (y.within around).inspect m ↔
      Covered m around ∨ x.inspect m = y.inspect m := by
  induction around generalizing x y with
  | nil => simp [within, Covered]
  | cons a around ih =>
      have hinner := ih (x := a.fill x) (y := a.fill y)
      rw [a.inspect_fill_eq_iff] at hinner
      refine hinner.trans ?_
      simp only [Covered, List.mem_cons, exists_eq_or_imp, or_assoc]
      exact or_left_comm

/-! ### Where constructors put their values -/

theorem of_ofMembers {schema : SchemaRef} {entries : Entries Document} {d : Document}
    (h : ofMembers m schema entries = .ok d) : d = .map { schema } entries := by
  unfold ofMembers at h
  dsimp only at h
  split at h
  · cases h
  obtain ⟨_, -, h⟩ := Result.bind_eq_ok.mp h
  obtain ⟨_, -, h⟩ := Result.bind_eq_ok.mp h
  split at h
  · cases h
  · exact (Except.ok.inj h).symm

/-- Setting a key puts the value as it is at one place of a node with the schema of the document. -/
theorem withEntry_eq_fill (m : Model) (d : Document) (key : String) :
    ∃ a : Around, a.schema = d.schema ∧
      ∀ value d', d.withEntry m key value = .ok d' → d' = a.fill value := by
  cases hentries : d.entries m with
  | error e =>
      refine ⟨.entry d.label [] key [], rfl, fun value d' h => ?_⟩
      rw [withEntry, hentries] at h
      cases h
  | ok entries =>
      obtain ⟨before, after, hinsert⟩ := Entries.exists_insert_eq key entries
      by_cases hunion : m.typeOf d.schema = .union
      · refine ⟨.entry d.label [] key [], rfl, fun value d' h => ?_⟩
        rw [withEntry, hentries] at h
        simp only [Result.ok_bind, hunion] at h
        obtain ⟨changed, hchanged, h⟩ := Result.bind_eq_ok.mp h
        obtain rfl := of_ofMembers hchanged
        exact (Except.ok.inj h).symm
      · refine ⟨.entry d.label before key after, rfl, fun value d' h => ?_⟩
        have hd : d' = .map d.label (entries.insert key value) := by
          rw [withEntry, hentries] at h
          simp only [Result.ok_bind] at h
          split at h
          · contradiction
          · obtain ⟨_, -, h⟩ := Result.bind_eq_ok.mp h
            exact (Except.ok.inj h).symm
          · exact (Except.ok.inj h).symm
        rw [hd, hinsert]
        rfl

end Document
end ShapeCodec
