import Mathlib.Data.List.TakeDrop
import Mathlib.Data.List.TakeWhile
import ShapeCodec.Error

/-!
# The parts of shape ids

An id that is accepted is spelled in one way: a namespace, a `#`, a name, and after a `$` perhaps a
member. Names hold neither mark, but nothing keeps a `$` out of a namespace. The member is cut out
at the first `$` of the whole text, so the parts of an id make up its text, and the id takes other
members, exactly if its namespace has no `$`.
-/

namespace ShapeCodec.ShapeId

/-! ### Cutting at a mark -/

section
variable {mark : Char} {cs before : List Char}

theorem all_ne_of_notMem (h : mark ∉ cs) : ∀ c ∈ cs, (c != mark) = true := by
  intro c hc
  have hne : c ≠ mark := fun he => h (he ▸ hc)
  simpa using hne

theorem takeWhile_of_notMem (h : mark ∉ cs) : cs.takeWhile (· != mark) = cs :=
  List.takeWhile_eq_self_iff.mpr (all_ne_of_notMem h)

theorem takeWhile_append_mark (h : mark ∉ before) (after : List Char) :
    (before ++ mark :: after).takeWhile (· != mark) = before := by
  rw [List.takeWhile_append_of_pos (all_ne_of_notMem h)]
  simp

theorem cut?_of_notMem (h : mark ∉ cs) : cut? mark cs = none := by
  have hdrop : cs.dropWhile (· != mark) = [] := List.dropWhile_eq_nil_iff.mpr (all_ne_of_notMem h)
  rw [cut?, List.span_eq_takeWhile_dropWhile, hdrop]

theorem cut?_append_mark (h : mark ∉ before) (after : List Char) :
    cut? mark (before ++ mark :: after) = some (before, after) := by
  have hdrop : (before ++ mark :: after).dropWhile (· != mark) = mark :: after := by
    rw [List.dropWhile_append_of_pos (all_ne_of_notMem h)]
    simp
  rw [cut?, List.span_eq_takeWhile_dropWhile, hdrop, takeWhile_append_mark h]

end

/-! ### Spellings -/

/-- What can be put behind the `$` of an id. -/
def IsMember (cs : List Char) : Prop :=
  cs ≠ [] ∧ '#' ∉ cs ∧ cs.getLast? ≠ some '$'

/-- The parts of a well-formed id. A `$` may stand in the namespace and in the member. -/
structure Spelling where
  space : List Char
  name : List Char
  member : Option (List Char)
  space_ne_nil : space ≠ []
  hash_notMem_space : '#' ∉ space
  name_ne_nil : name ≠ []
  hash_notMem_name : '#' ∉ name
  dollar_notMem_name : '$' ∉ name
  isMember : ∀ cs, member = some cs → IsMember cs

namespace Spelling

/-- What follows the name. -/
def tail (p : Spelling) : List Char :=
  match p.member with
  | none => []
  | some cs => '$' :: cs

/-- The characters of the id with these parts. -/
def chars (p : Spelling) : List Char :=
  p.space ++ '#' :: (p.name ++ p.tail)

/-- The id of another member of the same shape. -/
def withMember (p : Spelling) (cs : List Char) (h : IsMember cs) : Spelling :=
  { p with member := some cs, isMember := fun _ he => Option.some.inj he ▸ h }

theorem hash_notMem_tail (p : Spelling) : '#' ∉ p.tail := by
  rw [tail]
  cases hm : p.member with
  | none => simp
  | some cs => simpa using (p.isMember cs hm).2.1

theorem getLast?_name_tail (p : Spelling) : (p.name ++ p.tail).getLast? ≠ some '$' := by
  rw [tail]
  cases hm : p.member with
  | none =>
      rw [List.append_nil]
      exact fun he => p.dollar_notMem_name (List.mem_of_getLast? he)
  | some cs =>
      obtain ⟨hne, -, hlast⟩ := p.isMember cs hm
      obtain ⟨c, hc⟩ := Option.ne_none_iff_exists'.mp (mt List.getLast?_eq_none_iff.mp hne)
      rw [hc] at hlast
      simpa [List.getLast?_cons, hc] using hlast

/-- The name ends at the end of the id or at the `$` of the member. -/
theorem takeWhile_name (p : Spelling) : (p.name ++ p.tail).takeWhile (· != '$') = p.name := by
  rw [tail]
  cases p.member with
  | none => rw [List.append_nil, takeWhile_of_notMem p.dollar_notMem_name]
  | some cs => exact takeWhile_append_mark p.dollar_notMem_name cs

end Spelling

variable {id : ShapeId} {p : Spelling}

theorem cut?_hash (h : id.text.toList = p.chars) :
    cut? '#' id.text.toList = some (p.space, p.name ++ p.tail) := by
  rw [h, Spelling.chars, cut?_append_mark p.hash_notMem_space]

theorem namespacePart_eq (h : id.text.toList = p.chars) :
    id.namespacePart = String.ofList p.space := by
  rw [namespacePart, cut?_hash h]

theorem namePart_eq (h : id.text.toList = p.chars) : id.namePart = String.ofList p.name := by
  rw [namePart, localPart, cut?_hash h]
  show String.ofList ((p.name ++ p.tail).takeWhile (· != '$')) = _
  rw [p.takeWhile_name]

theorem memberPart?_eq (h : id.text.toList = p.chars) (hs : '$' ∉ p.space) :
    id.memberPart? = p.member.map String.ofList := by
  have hhead : '$' ∉ p.space ++ '#' :: p.name := by
    simp [hs, p.dollar_notMem_name]
  rw [memberPart?, h, Spelling.chars, Spelling.tail, ← List.cons_append, ← List.append_assoc]
  cases p.member with
  | none => rw [List.append_nil, cut?_of_notMem hhead]; rfl
  | some cs => rw [cut?_append_mark hhead]; rfl

/-- A `$` in the namespace is taken for the one in front of the member. -/
theorem memberPart?_of_mem (h : id.text.toList = p.chars) (hs : '$' ∈ p.space) :
    ∃ member, id.memberPart? = some member ∧ '#' ∈ member.toList := by
  obtain ⟨before, after, hspace, hbefore⟩ := List.eq_append_cons_of_mem hs
  refine ⟨String.ofList (after ++ '#' :: (p.name ++ p.tail)), ?_, by simp⟩
  rw [memberPart?, h, Spelling.chars, hspace, List.append_assoc, List.cons_append,
    cut?_append_mark hbefore]
  rfl

/-! ### Ids that are accepted -/

theorem wellFormed_iff_of_cut {text : String} {space rest : List Char}
    (h : cut? '#' text.toList = some (space, rest)) :
    wellFormed text = true ↔
      space ≠ [] ∧ rest.takeWhile (· != '$') ≠ [] ∧ '#' ∉ rest ∧ rest.getLast? ≠ some '$' := by
  rw [wellFormed, h]
  simp [and_assoc]

theorem wellFormed_of_spelling {text : String} (h : text.toList = p.chars) :
    wellFormed text = true := by
  have hhash : '#' ∉ p.name ++ p.tail := by
    simp [p.hash_notMem_name, p.hash_notMem_tail]
  have hcut : cut? '#' text.toList = some (p.space, p.name ++ p.tail) := by
    rw [h, Spelling.chars, cut?_append_mark p.hash_notMem_space]
  refine (wellFormed_iff_of_cut hcut).mpr
    ⟨p.space_ne_nil, ?_, hhash, p.getLast?_name_tail⟩
  rw [p.takeWhile_name]
  exact p.name_ne_nil

/-- What follows the `#` of a well-formed id is a name, alone or with a member. -/
theorem exists_spelling_of_rest {space rest : List Char} (hspace : space ≠ [])
    (hhash : '#' ∉ space) (hname : rest.takeWhile (· != '$') ≠ []) (hrest : '#' ∉ rest)
    (hlast : rest.getLast? ≠ some '$') : ∃ p : Spelling, p.chars = space ++ '#' :: rest := by
  by_cases hd : '$' ∈ rest
  · obtain ⟨name, cs, rfl, hn⟩ := List.eq_append_cons_of_mem hd
    rw [takeWhile_append_mark hn] at hname
    simp only [List.mem_append, List.mem_cons, not_or] at hrest
    have hmember : IsMember cs := by
      refine ⟨fun he => hlast (by simp [he]), hrest.2.2, fun he => hlast ?_⟩
      rw [List.getLast?_append, List.getLast?_cons, he]
      rfl
    exact ⟨⟨space, name, some cs, hspace, hhash, hname, hrest.1, hn,
      fun _ he => Option.some.inj he ▸ hmember⟩, rfl⟩
  · rw [takeWhile_of_notMem hd] at hname
    refine ⟨⟨space, rest, none, hspace, hhash, hname, hrest, hd, nofun⟩, ?_⟩
    simp [Spelling.chars, Spelling.tail]

theorem exists_spelling {text : String} (h : wellFormed text = true) :
    ∃ p : Spelling, text.toList = p.chars := by
  by_cases hm : '#' ∈ text.toList
  · obtain ⟨space, rest, htext, hspace⟩ := List.eq_append_cons_of_mem hm
    have hcut : cut? '#' text.toList = some (space, rest) := by
      rw [htext, cut?_append_mark hspace]
    obtain ⟨hne, hname, hrest, hlast⟩ := (wellFormed_iff_of_cut hcut).mp h
    obtain ⟨p, hp⟩ := exists_spelling_of_rest hne hspace hname hrest hlast
    exact ⟨p, htext.trans hp.symm⟩
  · rw [wellFormed, cut?_of_notMem hm] at h
    cases h

/-- The texts that are accepted, by what can be seen of them. -/
theorem wellFormed_iff (id : ShapeId) :
    wellFormed id.text = true ↔
      id.text.toList.count '#' = 1 ∧ id.namespacePart ≠ "" ∧ id.namePart ≠ "" ∧
        id.text.toList.getLast? ≠ some '$' := by
  by_cases hm : '#' ∈ id.text.toList
  · obtain ⟨space, rest, htext, hspace⟩ := List.eq_append_cons_of_mem hm
    have hcut : cut? '#' id.text.toList = some (space, rest) := by
      rw [htext, cut?_append_mark hspace]
    have hcount : id.text.toList.count '#' = 1 ↔ '#' ∉ rest := by
      rw [htext, List.count_append, List.count_cons_self, List.count_eq_zero_of_not_mem hspace,
        ← List.count_eq_zero]
      omega
    have hname : id.namePart = String.ofList (rest.takeWhile (· != '$')) := by
      rw [namePart, localPart, hcut]
    have hlast (hne : rest.takeWhile (· != '$') ≠ []) :
        id.text.toList.getLast? = rest.getLast? := by
      cases rest with
      | nil => simp at hne
      | cons c rest => rw [htext]; simp [List.getLast?_append, List.getLast?_cons]
    rw [wellFormed_iff_of_cut hcut, hcount, namespacePart, hcut, hname]
    simp only [ne_eq, String.ofList_eq_empty_iff]
    constructor
    · rintro ⟨h1, h2, h3, h4⟩
      exact ⟨h3, h1, h2, by rwa [hlast h2]⟩
    · rintro ⟨h3, h1, h2, h4⟩
      exact ⟨h1, h2, h3, by rwa [hlast h2] at h4⟩
  · have hcut := cut?_of_notMem hm
    rw [wellFormed, hcut, namespacePart, hcut]
    simp

/-! ### Parts of an accepted id -/

/-- The parts that an id is cut into make up its text. -/
def Recomposes (id : ShapeId) : Prop :=
  match id.memberPart? with
  | none => id.text = id.namespacePart ++ "#" ++ id.namePart
  | some member =>
    member ≠ "" ∧ id.text = id.namespacePart ++ "#" ++ id.namePart ++ "$" ++ member

/-- Put behind the id of a shape, a name is that of a member of this shape. -/
def Takes (id : ShapeId) (member : String) : Prop :=
  ∃ found, parse (id.withMember member).text = .ok found ∧
    found.namespacePart = id.namespacePart ∧ found.namePart = id.namePart ∧
    found.memberPart? = some member

theorem recomposes_iff (h : id.text.toList = p.chars) : id.Recomposes ↔ '$' ∉ p.space := by
  constructor
  · intro hid hs
    obtain ⟨member, hmember, hhash⟩ := memberPart?_of_mem h hs
    rw [Recomposes, hmember, namespacePart_eq h, namePart_eq h] at hid
    have htext := congrArg String.toList hid.2
    rw [h, Spelling.chars] at htext
    -- the text would go on behind the name with a second `#`
    have htail : p.tail = '$' :: member.toList := by simpa using htext
    exact p.hash_notMem_tail (by simp [htail, hhash])
  · intro hs
    rw [Recomposes, memberPart?_eq h hs, namespacePart_eq h, namePart_eq h]
    have hchars : p.chars = p.space ++ '#' :: (p.name ++ p.tail) := rfl
    rw [Spelling.tail] at hchars
    cases hm : p.member with
    | none =>
        rw [hm] at hchars
        refine String.toList_inj.mp ?_
        simp [h, hchars]
    | some cs =>
        rw [hm] at hchars
        have hne : String.ofList cs ≠ "" := mt String.ofList_eq_empty_iff.mp (p.isMember cs hm).1
        refine ⟨hne, String.toList_inj.mp ?_⟩
        simp [h, hchars]

theorem parse_of_wellFormed {text : String} (h : wellFormed text = true) :
    parse text = .ok ⟨text⟩ := by
  rw [parse, parse?, if_pos h]

theorem parse_of_not_wellFormed {text : String} (h : ¬ wellFormed text = true) :
    parse text = .error (.invalidSchema s!"invalid shape id `{text}`") := by
  rw [parse, parse?, if_neg h]

theorem takes_iff (h : id.text.toList = p.chars) {member : String}
    (hm : IsMember member.toList) : id.Takes member ↔ '$' ∉ p.space := by
  have hchars : id.text.toList = p.space ++ '#' :: (p.name ++ p.tail) := h
  have htext : (id.withMember member).text.toList =
      id.text.toList.takeWhile (· != '$') ++ '$' :: member.toList := by
    simp [withMember]
  constructor
  · rintro ⟨found, hparse, -⟩ hs
    -- what is kept ends in the namespace, before the `#`
    obtain ⟨before, after, hspace, hbefore⟩ := List.eq_append_cons_of_mem hs
    have hhash : '#' ∉ before := fun he => p.hash_notMem_space (by simp [hspace, he])
    rw [hchars, hspace, List.append_assoc, List.cons_append, takeWhile_append_mark hbefore] at htext
    have hnone : ¬ wellFormed (id.withMember member).text = true := by
      rw [wellFormed, htext, cut?_of_notMem (by simp [hhash, hm.2.1])]
      simp
    rw [parse_of_not_wellFormed hnone] at hparse
    cases hparse
  · intro hs
    have hhead : '$' ∉ p.space ++ '#' :: p.name := by
      simp [hs, p.dollar_notMem_name]
    have hkept : id.text.toList.takeWhile (· != '$') = p.space ++ '#' :: p.name := by
      rw [hchars, ← List.cons_append, ← List.append_assoc, Spelling.tail]
      cases p.member with
      | none => rw [List.append_nil, takeWhile_of_notMem hhead]
      | some cs => exact takeWhile_append_mark hhead cs
    have hid : (id.withMember member).text.toList = (p.withMember member.toList hm).chars := by
      rw [htext, hkept]
      simp [Spelling.chars, Spelling.withMember, Spelling.tail]
    refine ⟨id.withMember member, parse_of_wellFormed (wellFormed_of_spelling hid),
      (namespacePart_eq hid).trans (namespacePart_eq h).symm,
      (namePart_eq hid).trans (namePart_eq h).symm, ?_⟩
    refine (memberPart?_eq hid hs).trans ?_
    simp [Spelling.withMember]

/--
A text is refused exactly if it has not one `#`, if its namespace or name is empty, or if it ends in
`$`. The parts of an accepted id make up its text, and the id takes members with any name that could
stand there, exactly if its namespace has no `$`.
-/
theorem parts_recompose (id : ShapeId) :
    (parse id.text = .error (.invalidSchema s!"invalid shape id `{id.text}`") ↔
      id.text.toList.count '#' ≠ 1 ∨ id.namespacePart = "" ∨ id.namePart = "" ∨
        id.text.toList.getLast? = some '$') ∧
    ∀ found, parse id.text = .ok found →
      found = id ∧ id.namespacePart ≠ "" ∧ id.namePart ≠ "" ∧
      (id.Recomposes ↔ '$' ∉ id.namespacePart.toList) ∧
      ∀ member : String, member ≠ "" → '#' ∉ member.toList →
        member.toList.getLast? ≠ some '$' →
          (id.Takes member ↔ '$' ∉ id.namespacePart.toList) := by
  constructor
  · have hiff := not_congr (wellFormed_iff id)
    simp only [not_and_or, not_not] at hiff
    rw [← hiff]
    refine ⟨fun h hw => ?_, parse_of_not_wellFormed⟩
    rw [parse_of_wellFormed hw] at h
    cases h
  · intro found hfound
    by_cases hw : wellFormed id.text = true
    · obtain ⟨p, h⟩ := exists_spelling hw
      obtain ⟨-, hspace, hname, -⟩ := (wellFormed_iff id).mp hw
      rw [parse_of_wellFormed hw] at hfound
      have hpart : id.namespacePart.toList = p.space := by
        rw [namespacePart_eq h, String.toList_ofList]
      rw [hpart]
      refine ⟨(Except.ok.inj hfound).symm, hspace, hname, recomposes_iff h, ?_⟩
      intro member hne hhash hlast
      exact takes_iff h ⟨mt String.toList_eq_nil_iff.mp hne, hhash, hlast⟩
    · rw [parse_of_not_wellFormed hw] at hfound
      cases hfound

/-- An id of a member has its three parts, and takes another member in place of the one it has. -/
theorem parts_recompose_widget :
    parse "example.ns#Widget$name" = .ok ⟨"example.ns#Widget$name"⟩ ∧
      (⟨"example.ns#Widget$name"⟩ : ShapeId).Recomposes ∧
      (⟨"example.ns#Widget$name"⟩ : ShapeId).Takes "count" := by
  have hparse : parse "example.ns#Widget$name" = .ok ⟨"example.ns#Widget$name"⟩ := by
    decide
  obtain ⟨-, h⟩ := parts_recompose ⟨"example.ns#Widget$name"⟩
  obtain ⟨-, -, -, hrecomposes, htakes⟩ := h _ hparse
  refine ⟨hparse, hrecomposes.mpr (by decide), ?_⟩
  exact (htakes "count" (by decide) (by decide) (by decide)).mpr (by decide)

/-- A `$` in a namespace is accepted, but then the id is cut as if it were that of a member. -/
theorem dollar_in_namespace :
    parse "a$b#c" = .ok ⟨"a$b#c"⟩ ∧ (⟨"a$b#c"⟩ : ShapeId).memberPart? = some "b#c" ∧
      ¬ (⟨"a$b#c"⟩ : ShapeId).Recomposes ∧ ¬ (⟨"a$b#c"⟩ : ShapeId).Takes "m" := by
  have hmember : (⟨"a$b#c"⟩ : ShapeId).memberPart? = some "b#c" := by decide
  refine ⟨by decide, hmember, fun h => ?_, ?_⟩
  · rw [Recomposes, hmember] at h
    exact absurd h.2 (by decide)
  · rintro ⟨found, hparse, -⟩
    rw [parse_of_not_wellFormed (by decide)] at hparse
    cases hparse

end ShapeCodec.ShapeId
