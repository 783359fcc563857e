import ShapeCodec.Proofs.Printing

/-!
# How deep a text may nest

The limit on nesting is all that keeps a printed value from being read back. A parser with a higher
limit reads whatever one with a lower limit does, so the parser that gets through a printed
container has read every part of it, and each part nests less deep.
-/

namespace ShapeCodec.Json

namespace Scanner

variable {α β : Type}

theorem bind_eq_ok {s : Scanner α} {f : α → Scanner β} {input rest : Bytes} {b : β} :
    (s >>= f) input = .ok (b, rest) ↔
      ∃ a left, s input = .ok (a, left) ∧ f a left = .ok (b, rest) := by
  show (s input >>= fun p => f p.1 p.2) = _ ↔ _
  rw [Result.bind_eq_ok]
  exact Prod.exists

theorem skip_cons (b : UInt8) (rest : Bytes) : skip (b :: rest) = .ok ((), rest) := rfl

/-- Whatever one scanner reads is read by another one too. -/
def Extends (v w : Scanner α) : Prop :=
  ∀ input a rest, v input = .ok (a, rest) → w input = .ok (a, rest)

theorem elements_extends {v w : Scanner α} (h : Extends v w) (fuel : Nat) (first : Bool) :
    Extends (elements v fuel first) (elements w fuel first) := by
  induction fuel generalizing first with
  | zero =>
      intro _ _ _ he
      rw [elements] at he
      cases he
  | succ fuel ih =>
      intro input items rest he
      rw [elements] at he ⊢
      obtain ⟨more, left, hmore, he⟩ := bind_eq_ok.mp he
      refine (bind_of_ok hmore).trans ?_
      cases more with
      | false => exact he
      | true =>
          obtain ⟨a, left', ha, he⟩ := bind_eq_ok.mp he
          obtain ⟨items', left'', hitems, hend⟩ := bind_eq_ok.mp he
          exact (bind_of_ok (h _ _ _ ha)).trans ((bind_of_ok (ih false _ _ _ hitems)).trans hend)

theorem members_extends {v w : Scanner α} (h : Extends v w) (fuel : Nat) (first : Bool) :
    Extends (members v fuel first) (members w fuel first) := by
  induction fuel generalizing first with
  | zero =>
      intro _ _ _ he
      rw [members] at he
      cases he
  | succ fuel ih =>
      intro input pairs rest he
      rw [members] at he ⊢
      obtain ⟨more, left, hmore, he⟩ := bind_eq_ok.mp he
      refine (bind_of_ok hmore).trans ?_
      cases more with
      | false =>
          rw [if_neg Bool.false_ne_true] at he ⊢
          exact he
      | true =>
          obtain ⟨_, left₁, hskip, he⟩ := bind_eq_ok.mp he
          obtain ⟨key, left₂, hkey, he⟩ := bind_eq_ok.mp he
          obtain ⟨_, left₃, hcolon, he⟩ := bind_eq_ok.mp he
          obtain ⟨a, left₄, ha, he⟩ := bind_eq_ok.mp he
          obtain ⟨pairs', left₅, hpairs, hend⟩ := bind_eq_ok.mp he
          rw [if_pos rfl, bind_of_ok hskip, bind_of_ok hkey, bind_of_ok hcolon,
            bind_of_ok (h _ _ _ ha), bind_of_ok (ih false _ _ _ hpairs)]
          exact hend

/-- A higher limit on nesting reads the same and more. -/
theorem value_extends {depth deeper : Nat} (hd : depth ≤ deeper) :
    Extends (value depth) (value deeper) := by
  induction depth generalizing deeper with
  | zero =>
      intro input j rest h
      rw [value] at h
      obtain ⟨b?, left, hblanks, h⟩ := bind_eq_ok.mp h
      cases b? with
      | none => cases h
      | some b =>
          dsimp only at h
          split at h
          · cases h
          rename_i hb
          cases deeper with
          | zero =>
              rw [value]
              refine (bind_of_ok hblanks).trans ?_
              simp only [if_neg hb, h]
          | succ deeper =>
              rw [not_or] at hb
              rw [value]
              refine (bind_of_ok hblanks).trans ?_
              simp only [if_neg hb.1, if_neg hb.2, h]
  | succ depth ih =>
      obtain ⟨deeper, rfl⟩ := Nat.exists_eq_succ_of_ne_zero (Nat.ne_of_gt (Nat.zero_lt_of_lt hd))
      have hle : depth ≤ deeper := Nat.le_of_succ_le_succ hd
      intro input j rest h
      rw [value] at h ⊢
      obtain ⟨b?, left, hblanks, h⟩ := bind_eq_ok.mp h
      refine (bind_of_ok hblanks).trans ?_
      cases b? with
      | none => cases h
      | some b =>
          dsimp only at h ⊢
          split at h
          · rename_i hb
            obtain ⟨_, left₁, hskip, h⟩ := bind_eq_ok.mp h
            obtain ⟨n, left₂, hbudget, h⟩ := bind_eq_ok.mp h
            obtain ⟨items, left₃, hitems, h⟩ := bind_eq_ok.mp h
            rw [if_pos hb]
            refine (bind_of_ok hskip).trans ((bind_of_ok hbudget).trans ?_)
            exact (bind_of_ok (elements_extends (ih hle) _ _ _ _ _ hitems)).trans h
          split at h
          · rename_i hl hb
            obtain ⟨_, left₁, hskip, h⟩ := bind_eq_ok.mp h
            obtain ⟨n, left₂, hbudget, h⟩ := bind_eq_ok.mp h
            obtain ⟨pairs, left₃, hpairs, h⟩ := bind_eq_ok.mp h
            rw [if_neg hl, if_pos hb]
            refine (bind_of_ok hskip).trans ((bind_of_ok hbudget).trans ?_)
            exact (bind_of_ok (members_extends (ih hle) _ _ _ _ _ hpairs)).trans h
          · rename_i hl hb
            rw [if_neg hl, if_neg hb, h]

/-! ### Through the parts of a container -/

section
variable {v w : Scanner α} (hvw : Extends v w)
include hvw

/-- A scanner that reads from where another one reads all of a part reads all of it too. -/
theorem eq_of_extends {input rest left : Bytes} {a b : α} (hw : w input = .ok (a, rest))
    (hv : v input = .ok (b, left)) : b = a ∧ left = rest := by
  obtain ⟨rfl, rfl⟩ := Prod.mk.inj (Except.ok.inj ((hvw _ _ _ hv).symm.trans hw))
  exact ⟨rfl, rfl⟩

variable {margin : Nat → Bytes} (hm : ∀ n, AllBlank (margin n))
include hm

theorem through_elements {parts : List (Bytes × α)} (hs : ∀ p ∈ parts, Starts p.1)
    (hw : ∀ p ∈ parts, ∀ rest, Delimited rest → w (p.1 ++ rest) = .ok (p.2, rest))
    {fuel indent : Nat} {rest : Bytes} {r : List α × Bytes}
    (h : elements v fuel false (parts.flatMap (fun p => byte ',' :: (margin (indent + 1) ++ p.1)) ++
      (margin indent ++ byte ']' :: rest)) = .ok r) :
    ∀ p ∈ parts, ∃ rest, Delimited rest ∧ v (p.1 ++ rest) = .ok (p.2, rest) := by
  induction parts generalizing fuel r with
  | nil => exact nofun
  | cons p parts ih =>
      obtain ⟨hsp, hs⟩ := List.forall_mem_cons.mp hs
      obtain ⟨hwp, hw⟩ := List.forall_mem_cons.mp hw
      cases fuel with
      | zero => cases h
      | succ fuel =>
          rw [List.flatMap_cons, List.append_assoc, List.cons_append, List.append_assoc, elements,
            bind_of_ok (moreElements_next (hm (indent + 1)) hsp)] at h
          obtain ⟨a, left, ha, h⟩ := bind_eq_ok.mp h
          have hclose : Delimited [byte ']'] := delimited_cons (by decide) []
          have hrest := delimited_parts (hm indent) hclose parts
            (fun p => margin (indent + 1) ++ p.1) rest
          obtain ⟨rfl, rfl⟩ := eq_of_extends hvw (hwp _ hrest) ha
          obtain ⟨items, left, hitems, -⟩ := bind_eq_ok.mp h
          exact List.forall_mem_cons.mpr ⟨⟨_, hrest, ha⟩, ih hs hw hitems⟩

/-- Getting through a list takes reading each of its elements. -/
theorem through_list {parts : List (Bytes × α)} (hs : ∀ p ∈ parts, Starts p.1)
    (hw : ∀ p ∈ parts, ∀ rest, Delimited rest → w (p.1 ++ rest) = .ok (p.2, rest))
    {fuel indent : Nat} {rest : Bytes} {r : List α × Bytes}
    (h : elements v fuel true ((enclosed '[' ']' margin indent (parts.map Prod.fst)).drop 1 ++
      rest) = .ok r) :
    ∀ p ∈ parts, ∃ rest, Delimited rest ∧ v (p.1 ++ rest) = .ok (p.2, rest) := by
  cases fuel with
  | zero => cases h
  | succ fuel =>
      cases parts with
      | nil => exact nofun
      | cons p parts =>
          rw [elements_enclosed_cons hm (hs p (List.mem_cons_self ..))] at h
          exact through_elements hvw hm hs hw h

theorem through_members {gap : Bytes} {parts : List (String × Bytes × α)}
    (hw : ∀ p ∈ parts, ∀ rest, Delimited rest →
      w (gap ++ (p.2.1 ++ rest)) = .ok (p.2.2, rest))
    {fuel indent : Nat} {rest : Bytes} {r : List (String × α) × Bytes}
    (h : members v fuel false
      (parts.flatMap (fun p => byte ',' :: (margin (indent + 1) ++ memberBytes gap p.1 p.2.1)) ++
        (margin indent ++ byte '\x7d' :: rest)) = .ok r) :
    ∀ p ∈ parts, ∃ rest, Delimited rest ∧ v (gap ++ (p.2.1 ++ rest)) = .ok (p.2.2, rest) := by
  induction parts generalizing fuel r with
  | nil => exact nofun
  | cons p parts ih =>
      obtain ⟨hwp, hw⟩ := List.forall_mem_cons.mp hw
      cases fuel with
      | zero => cases h
      | succ fuel =>
          rw [List.flatMap_cons, List.append_assoc, List.cons_append, List.append_assoc,
            memberBytes_eq, members, bind_of_ok (moreMembers_next (hm (indent + 1)) _)] at h
          simp only [if_true] at h
          rw [bind_of_ok (skip_cons _ _), bind_of_ok (string_append p.1 _),
            bind_of_ok (colon_cons _)] at h
          obtain ⟨a, left, ha, h⟩ := bind_eq_ok.mp h
          have hclose : Delimited [byte '\x7d'] := delimited_cons (by decide) []
          have hrest := delimited_parts (hm indent) hclose parts
            (fun p => margin (indent + 1) ++ memberBytes gap p.1 p.2.1) rest
          obtain ⟨rfl, rfl⟩ := eq_of_extends hvw (hwp _ hrest) ha
          obtain ⟨pairs, left, hpairs, -⟩ := bind_eq_ok.mp h
          exact List.forall_mem_cons.mpr ⟨⟨_, hrest, ha⟩, ih hw hpairs⟩

/-- Getting through an object takes reading each of its values. -/
theorem through_object {gap : Bytes} {parts : List (String × Bytes × α)}
    (hw : ∀ p ∈ parts, ∀ rest, Delimited rest →
      w (gap ++ (p.2.1 ++ rest)) = .ok (p.2.2, rest))
    {fuel indent : Nat} {rest : Bytes} {r : List (String × α) × Bytes}
    (h : members v fuel true ((enclosed '\x7b' '\x7d' margin indent
      (parts.map fun p => memberBytes gap p.1 p.2.1)).drop 1 ++ rest) = .ok r) :
    ∀ p ∈ parts, ∃ rest, Delimited rest ∧ v (gap ++ (p.2.1 ++ rest)) = .ok (p.2.2, rest) := by
  cases fuel with
  | zero => cases h
  | succ fuel =>
      cases parts with
      | nil => exact nofun
      | cons p parts =>
          rw [members_enclosed_cons hm] at h
          exact through_members hvw hm hw h

end

/-- Nothing opens a container where none is allowed. -/
theorem exists_depth_of_value {b : UInt8} (hb : b = byte '[' ∨ b = byte '\x7b') {depth : Nat}
    {input : Bytes} {r : Json × Bytes} (h : value depth (b :: input) = .ok r) :
    ∃ n, depth = n + 1 := by
  have hblank : isBlank b = false := by rcases hb with rfl | rfl <;> decide
  cases depth with
  | zero =>
      rw [value, bind_of_ok (blanks_cons hblank input)] at h
      simp only [if_pos hb] at h
      cases h
  | succ depth => exact ⟨depth, rfl⟩

/-- Reading an array takes reading its elements. -/
theorem of_value_array {depth : Nat} {input : Bytes} {r : Json × Bytes}
    (h : value (depth + 1) (byte '[' :: input) = .ok r) :
    ∃ items, elements (value depth) (input.length + 1) true input = .ok items := by
  rw [value, bind_of_ok (blanks_cons (by decide) _)] at h
  simp only [if_true] at h
  rw [bind_of_ok (skip_cons _ _), bind_of_ok (rfl : budget _ = .ok (input.length, input))] at h
  obtain ⟨items, left, hitems, -⟩ := bind_eq_ok.mp h
  exact ⟨_, hitems⟩

/-- Reading an object takes reading its members. -/
theorem of_value_object {depth : Nat} {input : Bytes} {r : Json × Bytes}
    (h : value (depth + 1) (byte '\x7b' :: input) = .ok r) :
    ∃ pairs, members (value depth) (input.length + 1) true input = .ok pairs := by
  have hne : byte '\x7b' ≠ byte '[' := by decide
  rw [value, bind_of_ok (blanks_cons (by decide) _)] at h
  simp only [hne, if_false, if_true] at h
  rw [bind_of_ok (skip_cons _ _), bind_of_ok (rfl : budget _ = .ok (input.length, input))] at h
  obtain ⟨pairs, left, hpairs, -⟩ := bind_eq_ok.mp h
  exact ⟨_, hpairs⟩

end Scanner

/-! ### The limit -/

section
variable {margin : Nat → Bytes} {gap : Bytes} (hm : ∀ n, Scanner.AllBlank (margin n))
  (hg : Scanner.AllBlank gap)
include hm hg

/-- A value that is read from its spelling nests no deeper than allowed. -/
theorem nesting_le_of_value_spell (j : Json) {depth indent : Nat} {rest : Bytes}
    {r : Json × Bytes}
    (h : Scanner.value depth (spell margin gap j indent ++ rest) = .ok r) : j.nesting ≤ depth := by
  induction j using Tree.induct_kind generalizing depth indent rest r with
  | null l => simp [Tree.nesting]
  | leaf l v => simp [Tree.nesting]
  | list l items ih =>
      rw [spell_list, enclosed_eq_cons, List.cons_append] at h
      obtain ⟨depth, rfl⟩ := Scanner.exists_depth_of_value (.inl rfl) h
      obtain ⟨r, h⟩ := Scanner.of_value_array h
      refine Tree.nesting_list_le l fun j hj => ?_
      -- a parser with a limit as high as the value needs reads each element
      have hvw := Scanner.value_extends (Nat.le_max_left depth (Tree.list l items).nesting)
      let part (j : Json) := (spell margin gap j (indent + 1), j.merged)
      have hs : ∀ p ∈ items.map part, Scanner.Starts p.1 := by
        intro p hp
        obtain ⟨j, -, rfl⟩ := List.mem_map.mp hp
        exact starts_spell margin gap j (indent + 1)
      have hw : ∀ p ∈ items.map part, ∀ rest, Scanner.Delimited rest →
          Scanner.value (max depth (Tree.list l items).nesting) (p.1 ++ rest) =
            .ok (p.2, rest) := by
        intro p hp rest hrest
        obtain ⟨j, hj, rfl⟩ := List.mem_map.mp hp
        have hn := Tree.nesting_item_lt (l := l) hj
        exact value_spell hm hg j (by omega) (indent + 1) hrest
      have hspelled : (items.map fun j => spell margin gap j (indent + 1)) =
          (items.map part).map Prod.fst := by
        rw [List.map_map]
        rfl
      rw [hspelled] at h
      obtain ⟨rest, -, hread⟩ := Scanner.through_list hvw hm hs hw h (part j)
        (List.mem_map_of_mem hj)
      exact ih j hj hread
  | map l members ih =>
      rw [spell_map, enclosed_eq_cons, List.cons_append] at h
      obtain ⟨depth, rfl⟩ := Scanner.exists_depth_of_value (.inr rfl) h
      obtain ⟨r, h⟩ := Scanner.of_value_object h
      refine Tree.nesting_map_le l fun e he => ?_
      have hvw := Scanner.value_extends (Nat.le_max_left depth (Tree.map l members).nesting)
      let part (e : String × Json) := (e.1, spell margin gap e.2 (indent + 1), merged e.2)
      have hw : ∀ p ∈ members.map part, ∀ rest, Scanner.Delimited rest →
          Scanner.value (max depth (Tree.map l members).nesting) (gap ++ (p.2.1 ++ rest)) =
            .ok (p.2.2, rest) := by
        intro p hp rest hrest
        obtain ⟨e, he, rfl⟩ := List.mem_map.mp hp
        have hn := Tree.nesting_entry_lt (l := l) he
        rw [Scanner.value_blanks hg]
        exact value_spell hm hg e.2 (by omega) (indent + 1) hrest
      have hspelled : (members.map fun e => memberBytes gap e.1 (spell margin gap e.2 (indent + 1)))
          = (members.map part).map fun p => memberBytes gap p.1 p.2.1 := by
        rw [List.map_map]
        rfl
      rw [hspelled] at h
      obtain ⟨rest, -, hread⟩ := Scanner.through_object hvw hm hw h (part e)
        (List.mem_map_of_mem he)
      rw [Scanner.value_blanks hg] at hread
      exact ih e he hread

end

theorem exists_value_of_parse {bytes : Bytes} {j : Json} (h : Codec.parse bytes = .ok j) :
    ∃ rest, Scanner.value maxDepth bytes = .ok (j, rest) := by
  unfold Codec.parse parse Scanner.run at h
  dsimp only at h
  split at h
  · rename_i j' hparse
    obtain rfl := Except.ok.inj h
    split at hparse
    · rename_i left hall
      obtain rfl := Except.ok.inj hparse
      obtain ⟨j, left, hvalue, hend⟩ := Scanner.bind_eq_ok.mp hall
      obtain ⟨_, left', -, hend⟩ := Scanner.bind_eq_ok.mp hend
      obtain ⟨rfl, -⟩ := Prod.mk.inj (Except.ok.inj hend)
      exact ⟨left, hvalue⟩
    · cases hparse
  · cases h

/-- A printed value is read back if and only if it nests no deeper than the limit. -/
theorem parse_print_iff (c : Codec) {j j' : Json} :
    Codec.parse (Bytes.ofString (c.print j)) = .ok j' ↔
      j' = j.merged ∧ j.nesting ≤ maxDepth := by
  constructor
  · intro h
    obtain ⟨rest, hvalue⟩ := exists_value_of_parse h
    obtain ⟨margin, gap, hm, hg, hprint⟩ := ofString_print c
    rw [hprint, ← List.append_nil (spell ..)] at hvalue
    have hd := nesting_le_of_value_spell hm hg j hvalue
    rw [parse_print c hd] at h
    exact ⟨(Except.ok.inj h).symm, hd⟩
  · rintro ⟨rfl, hd⟩
    exact parse_print c hd

end ShapeCodec.Json
