import ShapeCodec.Document.Basic
import ShapeCodec.Proofs.Entries
import ShapeCodec.Schema.Members

/-!
# Documents up to the order of members

Writing follows the order of the schema, and reading that of the input, so documents come back with
the members of structures in another order. That is the only difference allowed here: labels,
leaves, the elements of lists and the keys of maps stay as they are and where they are.
-/

namespace ShapeCodec.Document

variable {m : Model}

/-- The keys of a structure are the same in some order, those of any other map in the same order. -/
def KeysAgree (m : Model) (l : Label) (keys keys' : List String) : Prop :=
  keys = keys' ∨ (m.typeOf l.schema).form = .structure ∧ keys.Perm keys'

/-- The same document but for the order in which its structures hold their members. -/
inductive Reordered (m : Model) : Document → Document → Prop
  | refl (d : Document) : Reordered m d d
  | list {l : Label} {items items' : List Document} :
      items.length = items'.length →
      (∀ (i : Nat) (d d' : Document), items[i]? = some d → items'[i]? = some d' →
        Reordered m d d') →
      Reordered m (.list l items) (.list l items')
  | map {l : Label} {entries entries' : List (String × Document)} :
      KeysAgree m l (Entries.keys entries) (Entries.keys entries') →
      (∀ e ∈ entries, ∀ e' ∈ entries', e.1 = e'.1 → Reordered m e.2 e'.2) →
      Reordered m (.map l entries) (.map l entries')

/-! ### Keys -/

namespace KeysAgree

variable {l : Label} {keys keys' keys'' : List String}

theorem perm (h : KeysAgree m l keys keys') : keys.Perm keys' := by
  rcases h with rfl | ⟨-, h⟩
  · exact .refl _
  · exact h

theorem symm (h : KeysAgree m l keys keys') : KeysAgree m l keys' keys :=
  h.imp Eq.symm fun ⟨hf, h⟩ => ⟨hf, h.symm⟩

theorem trans (h : KeysAgree m l keys keys') (h' : KeysAgree m l keys' keys'') :
    KeysAgree m l keys keys'' := by
  rcases h with rfl | ⟨hf, h⟩
  · exact h'
  · exact .inr ⟨hf, h.trans h'.perm⟩

end KeysAgree

/-! ### An equivalence -/

namespace Reordered

variable {a b c : Document}

theorem symm (h : Reordered m a b) : Reordered m b a := by
  induction h with
  | refl d => exact .refl d
  | list hl _ ih => exact .list hl.symm fun i d' d hd' hd => ih i d d' hd hd'
  | map hk _ ih => exact .map hk.symm fun e' he' e he hkey => ih e he e' he' hkey.symm

theorem trans (h : Reordered m a b) (h' : Reordered m b c) : Reordered m a c := by
  induction h generalizing c with
  | refl d => exact h'
  | @list l items items' hl h ih =>
      cases h' with
      | refl => exact .list hl h
      | list hl' h' =>
          refine .list (hl.trans hl') fun i d d'' hd hd'' => ?_
          -- the element in between, at the same place
          obtain ⟨hi, -⟩ := List.getElem?_eq_some_iff.mp hd
          have hd' : items'[i]? = some items'[i] := List.getElem?_eq_getElem (hl ▸ hi)
          exact ih i d _ hd hd' (h' i _ d'' hd' hd'')
  | @map l entries entries' hk h ih =>
      cases h' with
      | refl => exact .map hk h
      | map hk' h' =>
          refine .map (hk.trans hk') fun e he e'' he'' hkey => ?_
          -- the entry in between, under the same key
          obtain ⟨e', he', hkey'⟩ :=
            List.mem_map.mp (hk.perm.mem_iff.mp (Entries.mem_keys_of_mem he))
          exact ih e he e' he' hkey'.symm (h' e' he' e'' he'' (hkey'.trans hkey))

/-! ### Part by part -/

variable {l : Label}

theorem list_parts {parts : List (Document × Document)} (h : ∀ p ∈ parts, Reordered m p.1 p.2) :
    Reordered m (.list l (parts.map Prod.fst)) (.list l (parts.map Prod.snd)) := by
  refine .list (by simp) fun i d d' hd hd' => ?_
  rw [List.getElem?_map] at hd hd'
  obtain ⟨p, hp, rfl⟩ := Option.map_eq_some_iff.mp hd
  obtain rfl : p.2 = d' := by simpa [hp] using hd'
  exact h p (List.mem_of_getElem? hp)

/-- Values that are the same up to order, under keys that each occur once. -/
theorem map_parts {parts : List (String × Document × Document)} (hn : (parts.map Prod.fst).Nodup)
    (h : ∀ p ∈ parts, Reordered m p.2.1 p.2.2) :
    Reordered m (.map l (parts.map fun p => (p.1, p.2.1)))
      (.map l (parts.map fun p => (p.1, p.2.2))) := by
  refine .map (.inl (by simp [Entries.keys, Function.comp_def])) fun e he e' he' hkey => ?_
  obtain ⟨p, hp, rfl⟩ := List.mem_map.mp he
  obtain ⟨q, hq, rfl⟩ := List.mem_map.mp he'
  obtain rfl : p = q := List.inj_on_of_nodup_map hn hp hq hkey
  exact h p hp

/-- Nothing but one element differs. -/
theorem list_at (before after : List Document) (h : Reordered m a b) :
    Reordered m (.list l (before ++ a :: after)) (.list l (before ++ b :: after)) := by
  let same (ds : List Document) : List (Document × Document) := ds.map fun d => (d, d)
  have hsame : ∀ ds, ∀ p ∈ same ds, Reordered m p.1 p.2 := fun ds =>
    List.forall_mem_map.mpr fun d _ => .refl d
  have hparts : ∀ p ∈ same before ++ (a, b) :: same after, Reordered m p.1 p.2 :=
    List.forall_mem_append.mpr ⟨hsame before, List.forall_mem_cons.mpr ⟨h, hsame after⟩⟩
  simpa [same, Function.comp_def] using list_parts (l := l) hparts

/-- Nothing but one value differs. -/
theorem map_at (before after : List (String × Document)) {key : String}
    (hn : (Entries.keys (before ++ (key, a) :: after)).Nodup) (h : Reordered m a b) :
    Reordered m (.map l (before ++ (key, a) :: after)) (.map l (before ++ (key, b) :: after)) := by
  let same (es : List (String × Document)) : List (String × Document × Document) :=
    es.map fun e => (e.1, e.2, e.2)
  have hsame : ∀ es, ∀ p ∈ same es, Reordered m p.2.1 p.2.2 := fun es =>
    List.forall_mem_map.mpr fun e _ => .refl e.2
  have hparts : ∀ p ∈ same before ++ (key, a, b) :: same after, Reordered m p.2.1 p.2.2 :=
    List.forall_mem_append.mpr ⟨hsame before, List.forall_mem_cons.mpr ⟨h, hsame after⟩⟩
  have hkeys : ((same before ++ (key, a, b) :: same after).map Prod.fst).Nodup := by
    simpa [same, Entries.keys, Function.comp_def] using hn
  simpa [same, Function.comp_def] using map_parts (l := l) hkeys hparts

end Reordered
end ShapeCodec.Document
