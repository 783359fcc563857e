import ShapeCodec.Codec
import ShapeCodec.Proofs.Entries
import ShapeCodec.Proofs.Scanning
import ShapeCodec.Proofs.Tree

/-!
# Printed JSON read back

What is printed, on one line or on many, denotes the value that was printed, with each key once. The
two layouts differ in the blanks between the words only, so both are spelled by one walk, which the
parser follows.
-/

namespace ShapeCodec.Json

open ShapeCodec.Tree (Visited)

/-! ### Spelling -/

/-- The bytes of a container: its parts, each on its margin, with commas between them. -/
def enclosed (opening closing : Char) (margin : Nat → Bytes) (indent : Nat) : List Bytes → Bytes
  | [] => [Scanner.byte opening, Scanner.byte closing]
  | part :: parts =>
    Scanner.byte opening :: (margin (indent + 1) ++ part
      ++ parts.flatMap (fun p => Scanner.byte ',' :: (margin (indent + 1) ++ p))
      ++ margin indent ++ [Scanner.byte closing])

/-- Past the opening mark of a container, its parts stand as if each had a comma in front of it. -/
theorem enclosed_append {β : Type} (opening closing : Char) (margin : Nat → Bytes) (indent : Nat)
    (f : β → Bytes) (p : β) (parts : List β) (rest : Bytes) :
    (enclosed opening closing margin indent ((p :: parts).map f)).drop 1 ++ rest =
      margin (indent + 1) ++ (f p ++
        (parts.flatMap (fun p => Scanner.byte ',' :: (margin (indent + 1) ++ f p)) ++
          (margin indent ++ Scanner.byte closing :: rest))) := by
  simp [enclosed, List.flatMap_map]

/-- The bytes of a member: its key, a colon, a gap and its value. -/
def memberBytes (gap : Bytes) (key : String) (value : Bytes) : Bytes :=
  Bytes.ofString (stringText key) ++ Scanner.byte ':' :: (gap ++ value)

/-- How each kind of value is spelled at an indentation. -/
def spellWalk (margin : Nat → Bytes) (gap : Bytes) : Tree.Walk Unit Leaf (Nat → Bytes) where
  null := fun _ _ => Bytes.ofString "null"
  leaf := fun _ v _ => Bytes.ofString v.text
  list := fun _ items indent =>
    enclosed '[' ']' margin indent (items.map fun v => v.result (indent + 1))
  map := fun _ members indent =>
    enclosed '\x7b' '\x7d' margin indent
      (members.map fun e => memberBytes gap e.1 (e.2.result (indent + 1)))

/-- The bytes of a value, with given margins and gaps. -/
def spell (margin : Nat → Bytes) (gap : Bytes) (j : Json) (indent : Nat) : Bytes :=
  j.walk (spellWalk margin gap) indent

section
variable (margin : Nat → Bytes) (gap : Bytes) (indent : Nat)

theorem spell_list (l : Unit) (items : List Json) : spell margin gap (.list l items) indent =
    enclosed '[' ']' margin indent (items.map fun j => spell margin gap j (indent + 1)) := by
  rw [spell, Tree.walk_list]
  simp only [spellWalk, List.map_map]
  rfl

theorem spell_map (l : Unit) (members : List (String × Json)) :
    spell margin gap (.map l members) indent = enclosed '\x7b' '\x7d' margin indent
      (members.map fun e => memberBytes gap e.1 (spell margin gap e.2 (indent + 1))) := by
  rw [spell, Tree.walk_map]
  simp only [spellWalk, List.map_map]
  rfl

end

theorem ofString_intercalate (sep x : String) (xs : List String) :
    Bytes.ofString (sep.intercalate (x :: xs)) =
      Bytes.ofString x ++ xs.flatMap fun y => Bytes.ofString sep ++ Bytes.ofString y := by
  induction xs generalizing x with
  | nil => simp
  | cons y xs ih => simp [ih]

/-- Lines between brackets, each behind its margin. -/
theorem ofString_lines {opening closing : String} {a b : Char} {margin : Nat → Bytes}
    {indent : Nat} {inner outer : String} (ha : Bytes.ofString opening = [Scanner.byte a])
    (hb : Bytes.ofString closing = [Scanner.byte b])
    (hinner : Bytes.ofString inner = margin (indent + 1))
    (houter : Bytes.ofString outer = margin indent) (line : String) (lines : List String) :
    Bytes.ofString (opening ++ inner ++ ("," ++ inner).intercalate (line :: lines) ++ outer
      ++ closing) = enclosed a b margin indent ((line :: lines).map Bytes.ofString) := by
  have hcomma : Bytes.ofString "," = [Scanner.byte ','] := rfl
  simp only [Bytes.ofString_append, ofString_intercalate, ha, hb, hinner, houter, hcomma, enclosed,
    List.map_cons, List.flatMap_map, List.append_assoc, List.cons_append, List.nil_append]

/-- A container on one line. -/
theorem ofString_row {opening closing : String} {a b : Char} (indent : Nat)
    (ha : Bytes.ofString opening = [Scanner.byte a])
    (hb : Bytes.ofString closing = [Scanner.byte b]) (parts : List String) :
    Bytes.ofString (opening ++ ",".intercalate parts ++ closing) =
      enclosed a b (fun _ => []) indent (parts.map Bytes.ofString) := by
  cases parts with
  | nil => simp [ha, hb, enclosed]
  | cons part parts =>
      have h : Bytes.ofString (opening ++ "" ++ ("," ++ "").intercalate (part :: parts) ++ ""
          ++ closing) = enclosed a b (fun _ => []) indent ((part :: parts).map Bytes.ofString) :=
        ofString_lines ha hb rfl rfl part parts
      simpa using h

/-- On one line there are no margins and no gaps. -/
theorem ofString_compact (j : Json) (indent : Nat) :
    Bytes.ofString j.compact = spell (fun _ => []) [] j indent := by
  induction j using Tree.induct_kind generalizing indent with
  | null l => rfl
  | leaf l v => rfl
  | list l items ih =>
      rw [spell_list, compact, Tree.walk_list]
      refine (ofString_row indent rfl rfl _).trans (congrArg _ ?_)
      simp only [List.map_map]
      exact List.map_congr_left fun j hj => ih j hj (indent + 1)
  | map l members ih =>
      rw [spell_map, compact, Tree.walk_map]
      refine (ofString_row indent rfl rfl _).trans (congrArg _ ?_)
      simp only [List.map_map]
      refine List.map_congr_left fun e he => ?_
      have hvalue : Bytes.ofString (e.2.walk compactWalk) = _ := ih e he (indent + 1)
      simp only [Function.comp_apply, Bytes.ofString_append, hvalue, memberBytes]
      simp
      rfl

/-- The margin of a line. -/
def lineMargin (n : Nat) : Bytes :=
  10 :: List.replicate (2 * n) 32

theorem ofString_margin (n : Nat) :
    Bytes.ofString ("\n" ++ "".pushn ' ' (2 * n)) = lineMargin n := by
  have hblanks : Bytes.ofString ("".pushn ' ' (2 * n)) = List.replicate (2 * n) 32 := by
    rw [String.pushn_eq_repeat_push]
    induction 2 * n with
    | zero => rfl
    | succ k ih =>
        rw [Nat.repeat, String.push_eq_append, Bytes.ofString_append, ih, List.replicate_succ']
        rfl
  rw [Bytes.ofString_append, hblanks]
  rfl

/-- A container on many lines. -/
theorem ofString_block {opening closing : String} {a b : Char} (indent : Nat)
    (ha : Bytes.ofString opening = [Scanner.byte a])
    (hb : Bytes.ofString closing = [Scanner.byte b]) (lines : List String) :
    Bytes.ofString (block opening closing indent lines) =
      enclosed a b lineMargin indent (lines.map Bytes.ofString) := by
  cases lines with
  | nil => simp [block, ha, hb, enclosed]
  | cons line lines =>
      have h := ofString_lines ha hb (ofString_margin (indent + 1)) (ofString_margin indent) line
        lines
      rw [← h, block]
      simp [String.append_assoc]

theorem ofString_pretty (j : Json) (indent : Nat) :
    Bytes.ofString (j.walk prettyWalk indent) = spell lineMargin [32] j indent := by
  induction j using Tree.induct_kind generalizing indent with
  | null l => rfl
  | leaf l v => rfl
  | list l items ih =>
      rw [spell_list, Tree.walk_list]
      refine (ofString_block indent rfl rfl _).trans (congrArg _ ?_)
      simp only [List.map_map]
      exact List.map_congr_left fun j hj => ih j hj (indent + 1)
  | map l members ih =>
      rw [spell_map, Tree.walk_map]
      refine (ofString_block indent rfl rfl _).trans (congrArg _ ?_)
      simp only [List.map_map]
      refine List.map_congr_left fun e he => ?_
      simp only [Function.comp_apply, Bytes.ofString_append, ih e he (indent + 1), memberBytes]
      simp
      rfl

/-! ### Parsing what was spelled -/

namespace Scanner

/-- Nothing but blanks. -/
def AllBlank (bytes : Bytes) : Prop :=
  ∀ b ∈ bytes, isBlank b = true

theorem allBlank_nil : AllBlank [] := by
  intro b hb
  simp at hb

/-- Bytes that start with something that is not passed over and closes no list. -/
def Starts (bytes : Bytes) : Prop :=
  ∃ b rest, bytes = b :: rest ∧ isBlank b = false ∧ b ≠ byte ']'

theorem blanks_append {bytes : Bytes} (h : AllBlank bytes) (input : Bytes) :
    blanks (bytes ++ input) = blanks input := by
  unfold blanks
  rw [List.dropWhile_append_of_pos h]

theorem blanks_cons {b : UInt8} (h : isBlank b = false) (rest : Bytes) :
    blanks (b :: rest) = .ok (some b, b :: rest) := by
  unfold blanks
  rw [List.dropWhile_cons_of_neg (by simp [h])]
  rfl

/-- Past blanks a byte is found that is none. -/
theorem blanks_append_cons {bytes : Bytes} (h : AllBlank bytes) {b : UInt8}
    (hb : isBlank b = false) (rest : Bytes) :
    blanks (bytes ++ b :: rest) = .ok (some b, b :: rest) := by
  rw [blanks_append h, blanks_cons hb]

theorem delimited_cons {b : UInt8} (h : digit? b = none ∧ b ≠ byte '.' ∧ b ≠ byte 'e' ∧
    b ≠ byte 'E') (rest : Bytes) : Delimited (b :: rest) := by
  intro b' hb
  obtain rfl : b = b' := by simpa using hb
  exact h

theorem delimited_nil : Delimited [] := by
  intro b hb
  simp at hb

theorem delimited_append {bytes rest : Bytes} (h : AllBlank bytes) (hr : Delimited rest) :
    Delimited (bytes ++ rest) := by
  cases bytes with
  | nil => exact hr
  | cons b bytes =>
      have hb := h b (List.mem_cons_self ..)
      simp only [isBlank, Bool.or_eq_true, decide_eq_true_eq] at hb
      refine delimited_cons ?_ _
      rcases hb with ((rfl | rfl) | rfl) | rfl <;> decide

/-- After a part comes a comma, or blanks and the end of the container. -/
theorem delimited_parts {α : Type} {tail : Bytes} (ht : AllBlank tail) {closing : UInt8}
    (hc : Delimited [closing]) (parts : List α) (f : α → Bytes) (rest : Bytes) :
    Delimited (parts.flatMap (fun p => byte ',' :: f p) ++ (tail ++ closing :: rest)) := by
  cases parts with
  | nil =>
      rw [List.flatMap_nil, List.nil_append]
      exact delimited_append ht (delimited_cons (hc closing rfl) _)
  | cons p parts => exact delimited_cons (by decide) _

/-! #### Lists -/

theorem moreElements_first {margin part rest : Bytes} (hm : AllBlank margin) (hp : Starts part) :
    moreElements true (margin ++ (part ++ rest)) = .ok (true, part ++ rest) := by
  obtain ⟨b, bytes, rfl, hb, hend⟩ := hp
  unfold moreElements
  refine (bind_of_ok (blanks_append_cons hm hb _)).trans ?_
  simp only [hend, if_false, if_true]
  rfl

theorem moreElements_next {margin part rest : Bytes} (hm : AllBlank margin) (hp : Starts part) :
    moreElements false (byte ',' :: (margin ++ (part ++ rest))) = .ok (true, part ++ rest) := by
  obtain ⟨b, bytes, rfl, hb, hend⟩ := hp
  unfold moreElements
  refine (bind_of_ok (blanks_cons (by decide) _)).trans ?_
  have hcomma : byte ',' ≠ byte ']' := by decide
  simp only [hcomma, if_false, if_true, Bool.false_eq_true]
  refine (bind_of_ok (rfl : skip _ = .ok ((), _))).trans ?_
  refine (bind_of_ok (blanks_append_cons hm hb _)).trans ?_
  simp only [hend, if_false]
  rfl

theorem moreElements_end {tail : Bytes} (ht : AllBlank tail) (first : Bool) (rest : Bytes) :
    moreElements first (tail ++ byte ']' :: rest) = .ok (false, byte ']' :: rest) := by
  unfold moreElements
  refine (bind_of_ok (blanks_append_cons ht (by decide) _)).trans ?_
  simp only [if_true]
  rfl

/-- The first element is read as if a comma stood in front of it. -/
theorem elements_enclosed_cons {α β : Type} {value : Scanner α} {margin : Nat → Bytes}
    (hm : ∀ n, AllBlank (margin n)) {f : β → Bytes} {p : β} (hp : Starts (f p)) (parts : List β)
    (fuel indent : Nat) (rest : Bytes) :
    elements value (fuel + 1) true
      ((enclosed '[' ']' margin indent ((p :: parts).map f)).drop 1 ++ rest) =
    elements value (fuel + 1) false
      ((p :: parts).flatMap (fun p => byte ',' :: (margin (indent + 1) ++ f p)) ++
        (margin indent ++ byte ']' :: rest)) := by
  rw [enclosed_append, List.flatMap_cons, List.append_assoc, List.cons_append, List.append_assoc,
    elements, elements, bind_of_ok (moreElements_first (hm (indent + 1)) hp),
    bind_of_ok (moreElements_next (hm (indent + 1)) hp)]

section
variable {α : Type} {value : Scanner α} {margin : Nat → Bytes} (hm : ∀ n, AllBlank (margin n))
include hm

/-- A scanner that reads each part reads all of them, up to the end of the list. -/
theorem elements_next {parts : List (Bytes × α)} (hs : ∀ p ∈ parts, Starts p.1)
    (hv : ∀ p ∈ parts, ∀ rest, Delimited rest → value (p.1 ++ rest) = .ok (p.2, rest))
    {fuel : Nat} (hf : parts.length < fuel) (indent : Nat) (rest : Bytes) :
    elements value fuel false (parts.flatMap (fun p => byte ',' :: (margin (indent + 1) ++ p.1)) ++
      (margin indent ++ byte ']' :: rest)) = .ok (parts.map Prod.snd, rest) := by
  induction parts generalizing fuel with
  | nil =>
      obtain ⟨fuel, rfl⟩ := Nat.exists_eq_succ_of_ne_zero (Nat.ne_of_gt hf)
      rw [elements]
      refine (bind_of_ok (moreElements_end (hm indent) false rest)).trans ?_
      rfl
  | cons p parts ih =>
      obtain ⟨hsp, hs⟩ := List.forall_mem_cons.mp hs
      obtain ⟨hvp, hv⟩ := List.forall_mem_cons.mp hv
      obtain ⟨fuel, rfl⟩ := Nat.exists_eq_succ_of_ne_zero (Nat.ne_of_gt (Nat.zero_lt_of_lt hf))
      rw [List.flatMap_cons, List.append_assoc, List.cons_append, List.append_assoc, elements]
      refine (bind_of_ok (moreElements_next (hm (indent + 1)) hsp)).trans ?_
      simp only [if_true]
      refine (bind_of_ok (hvp _ (delimited_parts (hm indent) ?_ _ _ _))).trans ?_
      · exact delimited_cons (by decide) []
      · exact bind_of_ok (ih hs hv (by simpa using hf))

/-- A list is read from its opening bracket on. -/
theorem elements_enclosed {parts : List (Bytes × α)} (hs : ∀ p ∈ parts, Starts p.1)
    (hv : ∀ p ∈ parts, ∀ rest, Delimited rest → value (p.1 ++ rest) = .ok (p.2, rest))
    {fuel : Nat} (hf : parts.length < fuel) (indent : Nat) (rest : Bytes) :
    elements value fuel true ((enclosed '[' ']' margin indent (parts.map Prod.fst)).drop 1 ++
      rest) = .ok (parts.map Prod.snd, rest) := by
  obtain ⟨fuel, rfl⟩ := Nat.exists_eq_succ_of_ne_zero (Nat.ne_of_gt (Nat.zero_lt_of_lt hf))
  cases parts with
  | nil =>
      rw [elements]
      refine (bind_of_ok (moreElements_end allBlank_nil true rest)).trans ?_
      rfl
  | cons p parts =>
      rw [elements_enclosed_cons hm (hs p (List.mem_cons_self ..))]
      exact elements_next hm hs hv hf indent rest

end

/-! #### Objects -/

theorem moreMembers_first {margin : Bytes} (hm : AllBlank margin) (rest : Bytes) :
    moreMembers true (margin ++ byte '"' :: rest) = .ok (true, byte '"' :: rest) := by
  unfold moreMembers
  refine (bind_of_ok (blanks_append_cons hm (by decide) _)).trans ?_
  have hquote : byte '"' ≠ byte '\x7d' := by decide
  simp only [hquote, if_false, if_true]
  rfl

theorem moreMembers_next {margin : Bytes} (hm : AllBlank margin) (rest : Bytes) :
    moreMembers false (byte ',' :: (margin ++ byte '"' :: rest)) =
      .ok (true, byte '"' :: rest) := by
  unfold moreMembers
  refine (bind_of_ok (blanks_cons (by decide) _)).trans ?_
  have hcomma : byte ',' ≠ byte '\x7d' := by decide
  simp only [hcomma, if_false, if_true, Bool.false_eq_true]
  refine (bind_of_ok (rfl : skip _ = .ok ((), _))).trans ?_
  refine (bind_of_ok (blanks_append_cons hm (by decide) _)).trans ?_
  simp only [if_true]
  rfl

theorem moreMembers_end {tail : Bytes} (ht : AllBlank tail) (first : Bool) (rest : Bytes) :
    moreMembers first (tail ++ byte '\x7d' :: rest) = .ok (false, byte '\x7d' :: rest) := by
  unfold moreMembers
  refine (bind_of_ok (blanks_append_cons ht (by decide) _)).trans ?_
  simp only [if_true]
  rfl

theorem colon_cons (rest : Bytes) : colon (byte ':' :: rest) = .ok ((), rest) := by
  unfold colon
  refine (bind_of_ok (blanks_cons (by decide) _)).trans ?_
  simp only [if_true]
  rfl

/-- The bytes of a member, from the quote that opens its key on. -/
theorem memberBytes_eq (gap : Bytes) (key : String) (value rest : Bytes) :
    memberBytes gap key value ++ rest = byte '"' ::
      (contentBytes key.toList ++ byte '"' :: byte ':' :: (gap ++ (value ++ rest))) := by
  simp [memberBytes, ofString_stringText]

/-- The first member is read as if a comma stood in front of it. -/
theorem members_enclosed_cons {α : Type} {value : Scanner α} {margin : Nat → Bytes}
    (hm : ∀ n, AllBlank (margin n)) (gap : Bytes) (p : String × Bytes × α)
    (parts : List (String × Bytes × α)) (fuel indent : Nat) (rest : Bytes) :
    members value (fuel + 1) true ((enclosed '\x7b' '\x7d' margin indent
      ((p :: parts).map fun p => memberBytes gap p.1 p.2.1)).drop 1 ++ rest) =
    members value (fuel + 1) false ((p :: parts).flatMap
      (fun p => byte ',' :: (margin (indent + 1) ++ memberBytes gap p.1 p.2.1)) ++
        (margin indent ++ byte '\x7d' :: rest)) := by
  rw [enclosed_append, List.flatMap_cons, List.append_assoc, List.cons_append, List.append_assoc,
    memberBytes_eq, members, members, bind_of_ok (moreMembers_first (hm (indent + 1)) _),
    bind_of_ok (moreMembers_next (hm (indent + 1)) _)]

section
variable {α : Type} {value : Scanner α} {margin : Nat → Bytes} {gap : Bytes}
  (hm : ∀ n, AllBlank (margin n))
include hm

/-- A scanner that reads the value of each member reads all of them, up to the end. -/
theorem members_next {parts : List (String × Bytes × α)}
    (hv : ∀ p ∈ parts, ∀ rest, Delimited rest →
      value (gap ++ (p.2.1 ++ rest)) = .ok (p.2.2, rest))
    {fuel : Nat} (hf : parts.length < fuel) (indent : Nat) (rest : Bytes) :
    members value fuel false
      (parts.flatMap (fun p => byte ',' :: (margin (indent + 1) ++ memberBytes gap p.1 p.2.1)) ++
        (margin indent ++ byte '\x7d' :: rest)) =
      .ok (parts.map fun p => (p.1, p.2.2), rest) := by
  induction parts generalizing fuel with
  | nil =>
      obtain ⟨fuel, rfl⟩ := Nat.exists_eq_succ_of_ne_zero (Nat.ne_of_gt hf)
      rw [members]
      refine (bind_of_ok (moreMembers_end (hm indent) false rest)).trans ?_
      rfl
  | cons p parts ih =>
      obtain ⟨hvp, hv⟩ := List.forall_mem_cons.mp hv
      obtain ⟨fuel, rfl⟩ := Nat.exists_eq_succ_of_ne_zero (Nat.ne_of_gt (Nat.zero_lt_of_lt hf))
      rw [List.flatMap_cons, List.append_assoc, List.cons_append, List.append_assoc,
        memberBytes_eq, members]
      refine (bind_of_ok (moreMembers_next (hm (indent + 1)) _)).trans ?_
      simp only [if_true]
      refine (bind_of_ok (rfl : skip _ = .ok ((), _))).trans ?_
      refine (bind_of_ok (string_append p.1 _)).trans ?_
      refine (bind_of_ok (colon_cons _)).trans ?_
      refine (bind_of_ok (hvp _ (delimited_parts (hm indent) ?_ _ _ _))).trans ?_
      · exact delimited_cons (by decide) []
      · exact bind_of_ok (ih hv (by simpa using hf))

/-- An object is read from its opening brace on. -/
theorem members_enclosed {parts : List (String × Bytes × α)}
    (hv : ∀ p ∈ parts, ∀ rest, Delimited rest →
      value (gap ++ (p.2.1 ++ rest)) = .ok (p.2.2, rest))
    {fuel : Nat} (hf : parts.length < fuel) (indent : Nat) (rest : Bytes) :
    members value fuel true ((enclosed '\x7b' '\x7d' margin indent
      (parts.map fun p => memberBytes gap p.1 p.2.1)).drop 1 ++ rest) =
      .ok (parts.map fun p => (p.1, p.2.2), rest) := by
  obtain ⟨fuel, rfl⟩ := Nat.exists_eq_succ_of_ne_zero (Nat.ne_of_gt (Nat.zero_lt_of_lt hf))
  cases parts with
  | nil =>
      rw [members]
      refine (bind_of_ok (moreMembers_end allBlank_nil true rest)).trans ?_
      rfl
  | cons p parts =>
      rw [members_enclosed_cons hm]
      exact members_next hm hv hf indent rest

end

/-! #### Values -/

/-- Blanks in front of a value are passed over. -/
theorem value_blanks {bytes : Bytes} (h : AllBlank bytes) (depth : Nat) (input : Bytes) :
    value depth (bytes ++ input) = value depth input := by
  have hbind : ∀ f : Option UInt8 → Scanner Json,
      (blanks >>= f) (bytes ++ input) = (blanks >>= f) input := by
    intro f
    show (blanks (bytes ++ input) >>= fun p => f p.1 p.2) = (blanks input >>= fun p => f p.1 p.2)
    rw [blanks_append h]
  cases depth <;> exact hbind _

theorem value_plain {b : UInt8} (hb : isBlank b = false) (hlist : b ≠ byte '[')
    (hobject : b ≠ byte '\x7b') (depth : Nat) (rest : Bytes) :
    value depth (b :: rest) = plainValue b (b :: rest) := by
  cases depth with
  | zero =>
      rw [value]
      refine (bind_of_ok (blanks_cons hb rest)).trans ?_
      simp only [hlist, hobject, or_self, if_false]
  | succ depth =>
      rw [value]
      refine (bind_of_ok (blanks_cons hb rest)).trans ?_
      simp only [hlist, hobject, if_false]

theorem value_array (depth : Nat) {input rest : Bytes} {items : List Json}
    (h : elements (value depth) (input.length + 1) true input = .ok (items, rest)) :
    value (depth + 1) (byte '[' :: input) = .ok (.array items, rest) := by
  rw [value]
  refine (bind_of_ok (blanks_cons (by decide) _)).trans ?_
  simp only [if_true]
  refine (bind_of_ok (rfl : skip _ = .ok ((), input))).trans ?_
  refine (bind_of_ok (rfl : budget _ = .ok (input.length, input))).trans ?_
  exact bind_of_ok h

theorem value_object (depth : Nat) {input rest : Bytes} {pairs : List (String × Json)}
    (h : members (value depth) (input.length + 1) true input = .ok (pairs, rest)) :
    value (depth + 1) (byte '\x7b' :: input) = .ok (.object (Entries.ofList pairs), rest) := by
  rw [value]
  refine (bind_of_ok (blanks_cons (by decide) _)).trans ?_
  have hne : byte '\x7b' ≠ byte '[' := by decide
  simp only [hne, if_false, if_true]
  refine (bind_of_ok (rfl : skip _ = .ok ((), input))).trans ?_
  refine (bind_of_ok (rfl : budget _ = .ok (input.length, input))).trans ?_
  exact bind_of_ok h

theorem value_null (depth : Nat) (rest : Bytes) :
    value depth (Bytes.ofString "null" ++ rest) = .ok (.null, rest) := by
  refine (value_plain (by decide) (by decide) (by decide) depth _).trans ?_
  refine (bind_of_ok (rfl : skip _ = .ok ((), _))).trans ?_
  exact bind_of_ok (name_byte ['u', 'l', 'l'] rest)

/-- A number without a sign starts with a digit, by which it is known. -/
theorem value_digit {d : Digit} {bytes rest : Bytes} {n : Numeral} (depth : Nat)
    (h : number false (byte d.toChar :: bytes) = .ok (n, rest)) :
    value depth (byte d.toChar :: bytes) = .ok (.number n, rest) := by
  have key : ∀ d : Digit, isBlank (byte d.toChar) = false ∧ byte d.toChar ≠ byte '[' ∧
      byte d.toChar ≠ byte '\x7b' ∧ byte d.toChar ≠ byte 'n' ∧ byte d.toChar ≠ byte 't' ∧
      byte d.toChar ≠ byte 'f' ∧ byte d.toChar ≠ byte '-' := by decide
  obtain ⟨hblank, hlist, hobject, hn, ht, hf, hminus⟩ := key d
  rw [value_plain hblank hlist hobject]
  unfold plainValue
  simp only [hn, ht, hf, hminus, digit?_toChar, Option.isSome_some, if_false, if_true]
  exact bind_of_ok h

theorem value_leaf (v : Leaf) (depth : Nat) {rest : Bytes} (h : Delimited rest) :
    value depth (Bytes.ofString v.text ++ rest) = .ok (.leaf () v, rest) := by
  cases v with
  | boolean b =>
      cases b with
      | false =>
          refine (value_plain (by decide) (by decide) (by decide) depth _).trans ?_
          refine (bind_of_ok (rfl : skip _ = .ok ((), _))).trans ?_
          exact bind_of_ok (name_byte ['a', 'l', 's', 'e'] rest)
      | true =>
          refine (value_plain (by decide) (by decide) (by decide) depth _).trans ?_
          refine (bind_of_ok (rfl : skip _ = .ok ((), _))).trans ?_
          exact bind_of_ok (name_byte ['r', 'u', 'e'] rest)
  | number n =>
      have hnumber := number_append n h
      rw [Leaf.text, ofString_numeral]
      cases hs : n.negative with
      | true =>
          rw [hs] at hnumber
          simp only [if_true, List.append_assoc, List.cons_append, List.nil_append] at hnumber ⊢
          refine (value_plain (by decide) (by decide) (by decide) depth _).trans ?_
          refine (bind_of_ok (rfl : skip _ = .ok ((), _))).trans ?_
          exact bind_of_ok hnumber
      | false =>
          obtain ⟨d, ds, htext, -, -⟩ := exists_digits n.whole
          rw [hs, htext] at hnumber
          rw [htext]
          simp only [Bool.false_eq_true, if_false, List.nil_append]
          exact value_digit depth hnumber
  | string s =>
      rw [Leaf.text, ofString_stringText, List.cons_append, List.append_assoc]
      refine (value_plain (by decide) (by decide) (by decide) depth _).trans ?_
      refine (bind_of_ok (rfl : skip _ = .ok ((), _))).trans ?_
      exact bind_of_ok (string_append s rest)

end Scanner

/-! ### What was spelled is read back -/

/-- How each kind of value is merged. -/
def mergeWalk : Tree.Walk Unit Leaf Json where
  null := Tree.null
  leaf := Tree.leaf
  list := fun l items => .list l (items.map Visited.result)
  map := fun l members => .map l (Entries.ofList (members.map fun e => (e.1, e.2.result)))

/-- The value with each key once: in its first place and with its last value. -/
def merged (j : Json) : Json :=
  j.walk mergeWalk

@[simp] theorem merged_null (l : Unit) : merged (Tree.null l) = Tree.null l := by
  rw [merged, Tree.walk_null]
  rfl

@[simp] theorem merged_leaf (l : Unit) (v : Leaf) :
    merged (Tree.leaf l v) = Tree.leaf l v := by
  rw [merged, Tree.walk_leaf]
  rfl

theorem merged_list (l : Unit) (items : List Json) :
    merged (.list l items) = .list l (items.map merged) := by
  rw [merged, Tree.walk_list]
  simp only [mergeWalk, List.map_map]
  rfl

theorem merged_map (l : Unit) (members : List (String × Json)) :
    merged (.map l members) =
      .map l (Entries.ofList (members.map fun e => (e.1, merged e.2))) := by
  rw [merged, Tree.walk_map]
  simp only [mergeWalk, List.map_map]
  rfl

theorem enclosed_eq_cons (opening closing : Char) (margin : Nat → Bytes) (indent : Nat)
    (parts : List Bytes) : enclosed opening closing margin indent parts =
      Scanner.byte opening :: (enclosed opening closing margin indent parts).drop 1 := by
  cases parts <;> rfl

/-- There are bytes for each part after the opening mark of a container. -/
theorem length_le_enclosed (opening closing : Char) (margin : Nat → Bytes) (indent : Nat)
    (parts : List Bytes) :
    parts.length ≤ ((enclosed opening closing margin indent parts).drop 1).length := by
  cases parts with
  | nil => exact Nat.zero_le _
  | cons part parts =>
      have hparts : ∀ m : Bytes, parts.length ≤
          (parts.flatMap fun p => Scanner.byte ',' :: (m ++ p)).length := by
        intro m
        induction parts with
        | nil => exact Nat.zero_le _
        | cons p parts ih =>
            rw [List.flatMap_cons, List.length_append, List.length_cons, List.length_cons]
            omega
      have := hparts (margin (indent + 1))
      simp only [enclosed, List.drop_succ_cons, List.drop_zero, List.length_append,
        List.length_cons, List.length_nil]
      omega

section
variable {margin : Nat → Bytes} {gap : Bytes} (hm : ∀ n, Scanner.AllBlank (margin n))
  (hg : Scanner.AllBlank gap)

theorem starts_enclosed {opening closing : Char}
    (hb : Scanner.isBlank (Scanner.byte opening) = false)
    (he : Scanner.byte opening ≠ Scanner.byte ']') (margin : Nat → Bytes) (indent : Nat)
    (parts : List Bytes) : Scanner.Starts (enclosed opening closing margin indent parts) := by
  cases parts with
  | nil => exact ⟨_, _, rfl, hb, he⟩
  | cons part parts => exact ⟨_, _, rfl, hb, he⟩

theorem starts_leaf (v : Leaf) : Scanner.Starts (Bytes.ofString v.text) := by
  cases v with
  | boolean b => cases b <;> exact ⟨_, _, rfl, by decide, by decide⟩
  | number n =>
      rw [Leaf.text, Scanner.ofString_numeral]
      cases n.negative with
      | true => exact ⟨_, _, rfl, by decide, by decide⟩
      | false =>
          obtain ⟨d, ds, htext, -, -⟩ := Scanner.exists_digits n.whole
          have key : ∀ d : Digit, Scanner.isBlank (Scanner.byte d.toChar) = false ∧
              Scanner.byte d.toChar ≠ Scanner.byte ']' := by decide
          rw [htext]
          exact ⟨_, _, rfl, key d⟩
  | string s =>
      rw [Leaf.text, Scanner.ofString_stringText]
      exact ⟨_, _, rfl, by decide, by decide⟩

theorem starts_spell (margin : Nat → Bytes) (gap : Bytes) (j : Json) (indent : Nat) :
    Scanner.Starts (spell margin gap j indent) := by
  cases j with
  | null l => exact ⟨_, _, rfl, by decide, by decide⟩
  | leaf l v => exact starts_leaf v
  | list l items => exact spell_list margin gap indent l items ▸
      starts_enclosed (by decide) (by decide) ..
  | map l members => exact spell_map margin gap indent l members ▸
      starts_enclosed (by decide) (by decide) ..

include hm

/-- A list is read back from its spelling, if its elements are from theirs with one level less. -/
theorem value_spell_list (l : Unit) {items : List Json} {depth indent : Nat}
    (h : ∀ j ∈ items, ∀ rest, Scanner.Delimited rest →
      Scanner.value depth (spell margin gap j (indent + 1) ++ rest) = .ok (j.merged, rest))
    (rest : Bytes) :
    Scanner.value (depth + 1) (spell margin gap (.list l items) indent ++ rest) =
      .ok (merged (.list l items), rest) := by
  let parts := items.map fun j => (spell margin gap j (indent + 1), j.merged)
  have hs : ∀ p ∈ parts, Scanner.Starts p.1 :=
    List.forall_mem_map.mpr fun j _ => starts_spell margin gap j (indent + 1)
  have hv : ∀ p ∈ parts, ∀ rest, Scanner.Delimited rest →
      Scanner.value depth (p.1 ++ rest) = .ok (p.2, rest) := List.forall_mem_map.mpr h
  have hspell : spell margin gap (.list l items) indent =
      enclosed '[' ']' margin indent (parts.map Prod.fst) := by
    rw [spell_list, List.map_map]
    rfl
  have hitems : parts.map Prod.snd = items.map merged := by
    rw [List.map_map]
    rfl
  have hlength := length_le_enclosed '[' ']' margin indent (parts.map Prod.fst)
  rw [List.length_map] at hlength
  rw [hspell, enclosed_eq_cons, List.cons_append]
  refine (Scanner.value_array depth
    (Scanner.elements_enclosed hm hs hv ?_ indent rest)).trans ?_
  · rw [List.length_append]
    omega
  · rw [hitems, merged_list]
    rfl

include hg

/-- An object is read back from its spelling, if its values are from theirs with one level less. -/
theorem value_spell_map (l : Unit) {members : List (String × Json)} {depth indent : Nat}
    (h : ∀ e ∈ members, ∀ rest, Scanner.Delimited rest →
      Scanner.value depth (spell margin gap e.2 (indent + 1) ++ rest) = .ok (merged e.2, rest))
    (rest : Bytes) :
    Scanner.value (depth + 1) (spell margin gap (.map l members) indent ++ rest) =
      .ok (merged (.map l members), rest) := by
  let parts := members.map fun e => (e.1, spell margin gap e.2 (indent + 1), merged e.2)
  have hv : ∀ p ∈ parts, ∀ rest, Scanner.Delimited rest →
      Scanner.value depth (gap ++ (p.2.1 ++ rest)) = .ok (p.2.2, rest) := by
    refine List.forall_mem_map.mpr fun e he rest hrest => ?_
    rw [Scanner.value_blanks hg]
    exact h e he rest hrest
  have hspell : spell margin gap (.map l members) indent =
      enclosed '\x7b' '\x7d' margin indent
        (parts.map fun p => memberBytes gap p.1 p.2.1) := by
    rw [spell_map, List.map_map]
    rfl
  have hmembers : parts.map (fun p => (p.1, p.2.2)) =
      members.map fun e => (e.1, merged e.2) := by
    rw [List.map_map]
    rfl
  have hlength := length_le_enclosed '\x7b' '\x7d' margin indent
    (parts.map fun p => memberBytes gap p.1 p.2.1)
  rw [List.length_map] at hlength
  rw [hspell, enclosed_eq_cons, List.cons_append]
  refine (Scanner.value_object depth (Scanner.members_enclosed hm hv ?_ indent rest)).trans ?_
  · rw [List.length_append]
    omega
  · rw [hmembers, merged_map]
    rfl

/-- A value that nests no deeper than allowed is read back from its spelling. -/
theorem value_spell (j : Json) {depth : Nat} (hd : j.nesting ≤ depth) (indent : Nat)
    {rest : Bytes} (h : Scanner.Delimited rest) :
    Scanner.value depth (spell margin gap j indent ++ rest) = .ok (j.merged, rest) := by
  induction j using Tree.induct_kind generalizing depth indent rest with
  | null l => exact merged_null l ▸ Scanner.value_null depth rest
  | leaf l v => exact merged_leaf l v ▸ Scanner.value_leaf v depth h
  | list l items ih =>
      obtain ⟨depth, rfl⟩ : ∃ n, depth = n + 1 := by
        rw [Tree.nesting_list] at hd
        exact ⟨depth - 1, by omega⟩
      refine value_spell_list hm l (fun j hj rest hrest => ?_) rest
      have hn := Tree.nesting_item_lt (l := l) hj
      exact ih j hj (by omega) (indent + 1) hrest
  | map l members ih =>
      obtain ⟨depth, rfl⟩ : ∃ n, depth = n + 1 := by
        rw [Tree.nesting_map] at hd
        exact ⟨depth - 1, by omega⟩
      refine value_spell_map hm hg l (fun e he rest hrest => ?_) rest
      have hn := Tree.nesting_entry_lt (l := l) he
      exact ih e he (by omega) (indent + 1) hrest

end

/-- A scanner that takes all of the bytes and leaves nothing has read them. -/
theorem Scanner.run_eq_ok {α : Type} {scanner : Scanner α} {bytes : Bytes} {a : α}
    (h : scanner bytes = .ok (a, [])) : scanner.run bytes = .ok a := by
  have hall : (do
      let result ← scanner
      finish
      return result : Scanner α) bytes = .ok (a, []) := by
    refine (bind_of_ok h).trans ?_
    rfl
  unfold run
  dsimp only
  rw [hall]

theorem allBlank_lineMargin (n : Nat) : Scanner.AllBlank (lineMargin n) := by
  refine List.forall_mem_cons.mpr ⟨by decide, fun b hb => ?_⟩
  obtain rfl := List.eq_of_mem_replicate hb
  decide

/-- The text of a value, in either layout, spells it. -/
theorem ofString_print (c : Codec) : ∃ margin gap, (∀ n, Scanner.AllBlank (margin n)) ∧
    Scanner.AllBlank gap ∧ ∀ j, Bytes.ofString (c.print j) = spell margin gap j 0 := by
  unfold Codec.print
  cases c.pretty with
  | true =>
      have hgap : Scanner.AllBlank [32] := fun b hb => List.mem_singleton.mp hb ▸ rfl
      refine ⟨lineMargin, [32], allBlank_lineMargin, hgap, fun j => ?_⟩
      rw [if_pos rfl, pretty, ofString_pretty]
  | false =>
      refine ⟨fun _ => [], [], fun _ => Scanner.allBlank_nil, Scanner.allBlank_nil, fun j => ?_⟩
      rw [if_neg Bool.false_ne_true, ofString_compact j 0]

/-- The text of a value denotes it. -/
theorem parse_print (c : Codec) {j : Json} (hd : j.nesting ≤ maxDepth) :
    Codec.parse (Bytes.ofString (c.print j)) = .ok j.merged := by
  obtain ⟨margin, gap, hm, hg, hprint⟩ := ofString_print c
  have hvalue := value_spell hm hg j hd 0 Scanner.delimited_nil
  rw [List.append_nil, ← hprint] at hvalue
  unfold Codec.parse parse
  rw [Scanner.run_eq_ok hvalue]

end ShapeCodec.Json
