import ShapeCodec.Gallery.Unchecked
import ShapeCodec.Proofs.Faults
import ShapeCodec.Proofs.Rereading
import ShapeCodec.Proofs.RoundTrip

/-!
# The depth limit

How deep the walk of a schema goes into a value is a number of the value and the schema alone. A
value that can be read within some limit is read alike within every limit that leaves room for that
number, and refused within any other. What is read from a value nests as deep as the value.
-/

namespace ShapeCodec

open Result (guarded)

variable {Label Leaf α : Type}

/-! ### How deep a walk goes -/

/-- Whether values of a form are containers that a walk goes into. -/
def ShapeType.Form.isAggregate : ShapeType.Form → Bool
  | .structure | .union | .list | .map => true
  | .document | .scalar _ => false

namespace Source

open ShapeCodec.Tree (Parts Visited)

/-- How deep a node nests, by what is known of its parts. -/
def nestingNode (src : Source Label Leaf) (m : Model) (node : Parts Label Leaf (SchemaRef → Nat))
    (schema : SchemaRef) : Nat :=
  if !node.tree.isNull && (m.typeOf schema).form.isAggregate then
    1 + ((src.handedOn m schema node).map fun p => p.2.result p.1).foldr max 0
  else 0

/-- How many containers the walk of a schema goes into, one inside the other, at most. -/
def nestingUnder (src : Source Label Leaf) (m : Model) (schema : SchemaRef)
    (t : Tree Label Leaf) : Nat :=
  t.walk (.ofParts (src.nestingNode m)) schema

variable {src : Source Label Leaf} {m : Model} {schema : SchemaRef} {t : Tree Label Leaf}

theorem nestingUnder_eq : src.nestingUnder m schema t =
    if !t.isNull && (m.typeOf schema).form.isAggregate then
      1 + ((src.partsUnder m schema t).map fun p => src.nestingUnder m p.1 p.2).foldr max 0
    else 0 := by
  rw [nestingUnder, Tree.walk_ofParts, nestingNode, handedOn_partsWith, Tree.partsWith_tree,
    List.map_map]
  rfl

theorem nestingUnder_null (l : Label) : src.nestingUnder m schema (.null l) = 0 := by
  rw [nestingUnder_eq]
  rfl

/-- Values that are not walked nest nothing. -/
theorem nestingUnder_flat (hf : (m.typeOf schema).form.isAggregate = false) :
    src.nestingUnder m schema t = 0 := by
  rw [nestingUnder_eq, hf, Bool.and_false]
  rfl

/-- A container nests one more than its parts. -/
theorem nestingUnder_aggregate (hn : t.isNull = false)
    (hf : (m.typeOf schema).form.isAggregate = true) {parts : List α} {member : α → SchemaRef}
    {part : α → Tree Label Leaf}
    (hp : src.partsUnder m schema t = parts.map fun p => (member p, part p)) :
    src.nestingUnder m schema t =
      1 + (parts.map fun p => src.nestingUnder m (member p) (part p)).foldr max 0 := by
  rw [nestingUnder_eq, hn, hf, hp, List.map_map]
  rfl

section
variable {member : SchemaRef} {l : Label} {entries : List (String × Tree Label Leaf)}

theorem nestingUnder_structure (hf : (m.typeOf schema).form = .structure) {parts : List α}
    {member : α → SchemaRef} {part : α → Tree Label Leaf}
    (hp : src.presentMembers schema Tree.isNull entries =
      parts.map fun p => (member p, part p)) :
    src.nestingUnder m schema (.map l entries) =
      1 + (parts.map fun p => src.nestingUnder m (member p) (part p)).foldr max 0 :=
  nestingUnder_aggregate rfl (by rw [hf]; rfl) ((partsUnder_structure hf).trans hp)

theorem nestingUnder_known (hf : (m.typeOf schema).form = .union) {key : String}
    {u : Tree Label Leaf} (hc : src.candidates Tree.isNull entries = [(key, u)])
    (hm : src.member? schema key = some member) :
    src.nestingUnder m schema (.map l entries) = 1 + src.nestingUnder m member u := by
  have hp : src.partsUnder m schema (.map l entries) = [(member, u)].map fun p => (p.1, p.2) :=
    (partsUnder_union hf).trans (knownMember_of_some hc hm)
  rw [nestingUnder_aggregate rfl (by rw [hf]; rfl) hp]
  simp

theorem nestingUnder_unknown (hf : (m.typeOf schema).form = .union) {tag : String}
    {u : Tree Label Leaf} (hc : src.candidates Tree.isNull entries = [(tag, u)])
    (hm : src.member? schema tag = none) : src.nestingUnder m schema (.map l entries) = 1 := by
  have hp : src.partsUnder m schema (.map l entries) =
      ([] : List (SchemaRef × Tree Label Leaf)).map fun p => (p.1, p.2) :=
    (partsUnder_union hf).trans (knownMember_of_none hc hm)
  rw [nestingUnder_aggregate rfl (by rw [hf]; rfl) hp]
  rfl

theorem nestingUnder_list (hm : m.listMember schema = .ok member)
    {items : List (Tree Label Leaf)} {parts : List α} {part : α → Tree Label Leaf}
    (hk : (items.filter fun u => m.keeps schema u.isNull) = parts.map part) :
    src.nestingUnder m schema (.list l items) =
      1 + (parts.map fun p => src.nestingUnder m member (part p)).foldr max 0 := by
  refine nestingUnder_aggregate rfl (by rw [Model.form_of_listMember hm]; rfl) ?_
  rw [partsUnder_list hm, hk, List.map_map]
  rfl

theorem nestingUnder_map (hm : m.mapValue schema = .ok member) {parts : List α}
    {part : α → String × Tree Label Leaf}
    (hk : (entries.filter fun e => m.keeps schema e.2.isNull) = parts.map part) :
    src.nestingUnder m schema (.map l entries) =
      1 + (parts.map fun p => src.nestingUnder m member (part p).2).foldr max 0 := by
  refine nestingUnder_aggregate rfl (by rw [Model.form_of_mapValue hm]; rfl) ?_
  rw [partsUnder_map hm, hk, List.map_map]
  rfl

end

end Source

/-! ### The fault of too deep a value -/

/-- The same settings with another limit. -/
def Config.limited (config : Config) (n : Nat) : Config :=
  { config with maxDepth := n }

def Scope.limited (s : Scope) (n : Nat) : Scope :=
  { s with config := s.config.limited n }

def Codec.limited (c : Codec) (n : Nat) : Codec :=
  { c with config := c.config.limited n }

/-- What is wrong with going into so many more containers at a depth. -/
def Scope.depthFault? (s : Scope) (depth nesting : Nat) : Option Error :=
  if nesting ≤ s.config.maxDepth - depth then none else some (.nestingTooDeep s.config.maxDepth)

namespace Scope

variable {s : Scope} {depth : Nat}

theorem depthFault?_eq_none {nesting : Nat} :
    s.depthFault? depth nesting = none ↔ nesting ≤ s.config.maxDepth - depth := by
  simp [depthFault?]

theorem depthFault?_max (n k : Nat) :
    s.depthFault? depth (max n k) = (s.depthFault? depth n).or (s.depthFault? depth k) := by
  unfold depthFault?
  by_cases hn : n ≤ s.config.maxDepth - depth
  · simp [hn]
  · simp [hn]

/-- The first part that nests too deep tells whether the deepest does. -/
theorem findSome?_depthFault? (parts : List α) (nesting : α → Nat) :
    (parts.findSome? fun p => s.depthFault? depth (nesting p)) =
      s.depthFault? depth ((parts.map nesting).foldr max 0) := by
  induction parts with
  | nil => simp [depthFault?]
  | cons p parts ih =>
      rw [List.findSome?_cons, List.map_cons, List.foldr_cons, depthFault?_max, ih]
      cases s.depthFault? depth (nesting p) <;> rfl

/-- Going into a container and on to its parts takes one more than the parts do. -/
theorem roomFault?_or (nesting : Nat) :
    (s.roomFault? depth).or (s.depthFault? (depth + 1) nesting) =
      s.depthFault? depth (1 + nesting) := by
  unfold roomFault? depthFault?
  by_cases hd : depth < s.config.maxDepth
  · have hroom : nesting ≤ s.config.maxDepth - (depth + 1) ↔
        1 + nesting ≤ s.config.maxDepth - depth := by omega
    simp only [hd, if_true, Option.none_or, hroom]
  · have hfull : ¬ 1 + nesting ≤ s.config.maxDepth - depth := by omega
    simp only [hd, hfull, if_false, Option.some_or]

theorem roomFault?_or_findSome? (parts : List α) (nesting : α → Nat) :
    (s.roomFault? depth).or (parts.findSome? fun p => s.depthFault? (depth + 1) (nesting p)) =
      s.depthFault? depth (1 + (parts.map nesting).foldr max 0) := by
  rw [findSome?_depthFault?, roomFault?_or]

end Scope

namespace Reader

variable {src : Source Label Leaf} {s : Scope} {depth : Nat} {S : SchemaRef} {t : Tree Label Leaf}
  {d : Document}

/-- What has been read within one limit is read within another if it does not nest too deep. -/
theorem Reads.limited (h : Reads src s depth S t d) (n : Nat) :
    documentAt src (s.limited n) t depth S =
      guarded ((s.limited n).depthFault? depth (src.nestingUnder s.model S t)) d := by
  -- what a part comes to, one level further down
  let fault? (depth : Nat) (S : SchemaRef) (t : Tree Label Leaf) : Option Error :=
    (s.limited n).depthFault? (depth + 1) (src.nestingUnder s.model S t)
  have hflat {depth : Nat} : (s.limited n).depthFault? depth 0 = none :=
    Scope.depthFault?_eq_none.mpr (Nat.zero_le _)
  induction h with
  | null l => rw [documentAt_null, Source.nestingUnder_null, hflat, Result.guarded_none]
  | document hf hnull =>
      rw [Source.nestingUnder_flat (by rw [hf]; rfl), hflat]
      exact (Reads.document (s := s.limited n) hf hnull).run
  | scalar hf hnull hv =>
      rw [Source.nestingUnder_flat (by rw [hf]; rfl), hflat]
      exact (Reads.scalar (s := s.limited n) hf hnull hv).run
  | @members depth S l entries parts hf _ hp _ hc ih =>
      rw [Source.nestingUnder_structure hf hp, ← Scope.roomFault?_or_findSome?]
      exact documentAt_structure_guarded (s := s.limited n) (fault? depth) hf hp ih hc
  | @known depth S member l entries key u d hf _ hc hm _ ih =>
      rw [Source.nestingUnder_known hf hc hm, ← Scope.roomFault?_or]
      exact documentAt_known_guarded (s := s.limited n) (fault? depth) hf hc hm ih
  | @unknown depth S l entries tag u hf _ hc hm =>
      rw [Source.nestingUnder_unknown hf hc hm, ← Nat.add_zero 1, ← Scope.roomFault?_or, hflat,
        Option.or_none]
      exact documentAt_unknown_guarded (s := s.limited n) hf hc hm
  | @list depth S member l items parts hm _ hk _ ih =>
      have hkept := Scope.filter_keeps hk
      rw [Source.nestingUnder_list hm hkept, ← Scope.roomFault?_or_findSome?]
      refine (documentAt_list_guarded (s := s.limited n) (fault? depth) hm hkept ih).trans ?_
      exact congrArg (fun f? => guarded (((s.limited n).roomFault? depth).or f?) _)
        (Scope.findSome?_of_kept hk (fault? depth member))
  | @map depth S member l entries parts hm _ hk _ ih =>
      have hkept := Scope.filter_keeps hk
      rw [Source.nestingUnder_map hm hkept, ← Scope.roomFault?_or_findSome?]
      refine (documentAt_map_guarded (s := s.limited n) (fault? depth) hm hkept ih).trans ?_
      exact congrArg (fun f? => guarded (((s.limited n).roomFault? depth).or f?) _)
        (Scope.findSome?_of_kept hk fun e => fault? depth member e.2)

/-- It does not nest deeper than the limit that it was read within. -/
theorem Reads.nestingUnder_le (h : Reads src s depth S t d) :
    src.nestingUnder s.model S t ≤ s.config.maxDepth - depth := by
  have hsame : guarded (s.depthFault? depth (src.nestingUnder s.model S t)) d = .ok d :=
    (h.limited s.config.maxDepth).symm.trans h.run
  exact Scope.depthFault?_eq_none.mp (Result.guarded_eq_ok.mp hsame).1

/-! ### What has been read nests as deep -/

/-- A value and the document that is read from it nest alike, unless a tag strays. -/
theorem Reads.nestingUnder_eq (h : Reads src s depth S t d) (hl : src.Lawful s.model)
    (ht : t.DistinctKeys) (hback : src.LeadsBack s.model S) (hn : ¬ src.Strays s.model S t) :
    (Document.source s.model).nestingUnder s.model S d = src.nestingUnder s.model S t := by
  induction h with
  | null l => rw [Source.nestingUnder_null, Source.nestingUnder_null]
  | document hf | scalar hf =>
      rw [Source.nestingUnder_flat (by rw [hf]; rfl), Source.nestingUnder_flat (by rw [hf]; rfl)]
  | @members depth S l entries parts hf _ hp hr _ ih =>
      obtain ⟨hkeys, hvalues⟩ := ht.of_map
      have hpresent := presentMembers_read hl
        (hback.here (ShapeType.isStructureLike_iff.mpr (.inl hf))) hkeys hp hr
      rw [Source.nestingUnder_structure hf hpresent, Source.nestingUnder_structure hf hp]
      congr 2
      refine List.map_congr_left fun p hp' => ?_
      obtain ⟨key, he, hkey, -⟩ := src.exists_entry_of_presentMembers_eq hp hp'
      exact ih p hp' (hvalues _ he) (hback.member (hl.mem_members hkey)) fun hs =>
        hn (.member hf (hp ▸ List.mem_map_of_mem hp') hs)
  | @known depth S member l entries key u d hf _ hc hm hr ih =>
      obtain ⟨he, hnull, -⟩ := src.mem_of_candidates hc
      have hname := hback.here (ShapeType.isStructureLike_iff.mpr (.inr hf)) key member hm
      have hone := Document.candidates_singleton (m := s.model)
        ((s.model.memberName? member).getD "") ((hr.isNull hl).trans hnull)
      rw [Source.nestingUnder_known hf hone hname, Source.nestingUnder_known hf hc hm,
        ih (ht.of_map.2 _ he) (hback.member (hl.mem_members hm)) fun hs =>
          hn (.known hf hc hm hs)]
  | @unknown depth S l entries tag u hf _ hc hm =>
      obtain ⟨-, hnull, -⟩ := src.mem_of_candidates hc
      have hone := Document.candidates_singleton (m := s.model) tag
        ((hl.isNull_untyped u).trans hnull)
      rw [Source.nestingUnder_unknown hf hc hm]
      -- a tag that is a name after all belongs to a member that is not walked
      cases hname : s.model.member? S tag with
      | none => exact Source.nestingUnder_unknown hf hone hname
      | some found =>
          have hdoc : (s.model.typeOf found).form = .document := by
            by_contra hdoc
            exact hn (.tag hf hc hm hname hdoc)
          rw [Source.nestingUnder_known hf hone hname,
            Source.nestingUnder_flat (by rw [hdoc]; rfl)]
  | @list depth S member l items parts hm _ hk hr ih =>
      have hkept : s.kept S Tree.isNull (parts.map Prod.snd) = parts.map fun p => .ok p.2 :=
        kept_items_read s hl hk hr
      rw [Source.nestingUnder_list hm (Scope.filter_keeps hkept),
        Source.nestingUnder_list hm (Scope.filter_keeps hk)]
      congr 2
      refine List.map_congr_left fun p hp => ?_
      have hin := (s.mem_of_kept_eq hk hp).1
      exact ih p hp (ht.of_list _ hin) (hback.member (Model.mem_of_listMember hm)) fun hs =>
        hn (.item hm hin hs)
  | @map depth S member l entries parts hm _ hk hr ih =>
      obtain ⟨hkeys, hvalues⟩ := ht.of_map
      have hkept : s.kept S (fun e => e.2.isNull)
          (Entries.ofList (parts.map fun p => (p.1, p.2.2))) =
            parts.map fun p => .ok (p.1, p.2.2) := kept_entries_read s hl hkeys hk hr
      rw [Source.nestingUnder_map hm (Scope.filter_keeps hkept),
        Source.nestingUnder_map hm (Scope.filter_keeps hk)]
      congr 2
      refine List.map_congr_left fun p hp => ?_
      have hin := (s.mem_of_kept_eq hk hp).1
      exact ih p hp (hvalues _ hin) (hback.member (Model.mem_of_mapValue hm)) fun hs =>
        hn (.entry hm hin hs)

end Reader

/-! ### Codecs and documents -/

/-- How deep JSON nests under a schema, for a codec. -/
def Codec.nestingUnder (c : Codec) (m : Model) (S : SchemaRef) (j : Json) : Nat :=
  (c.source m).nestingUnder m S j

/-- How deep a document nests under a schema. -/
def Document.nestingUnder (m : Model) (S : SchemaRef) (d : Document) : Nat :=
  (Document.source m).nestingUnder m S d

/--
Within a limit, a run has a document for its result if the limit leaves room for so many containers,
and is told that the nesting is too deep if not.
-/
def ReadsUpTo (nesting : Nat) (d : Document) (read : Nat → Result Document) : Prop :=
  ∀ n, (nesting ≤ n → read n = .ok d) ∧ (n < nesting → read n = .error (.nestingTooDeep n))

theorem Reader.Reads.readsUpTo {src : Source Label Leaf} {s : Scope} {S : SchemaRef}
    {t : Tree Label Leaf} {d : Document} (h : Reads src s 0 S t d) :
    ReadsUpTo (src.nestingUnder s.model S t) d fun n => Reader.document src (s.limited n) S t := by
  intro n
  have hrun : Reader.document src (s.limited n) S t =
      guarded (if src.nestingUnder s.model S t ≤ n then none else some (.nestingTooDeep n)) d :=
    h.limited n
  constructor
  · intro hle
    exact hrun.trans (by rw [if_pos hle]; rfl)
  · intro hlt
    exact hrun.trans (by rw [if_neg (Nat.not_le.mpr hlt)]; rfl)

/--
The limit on depth is exact. What is read within some limit is read alike within any other that is
no less than its nesting, and refused within any that is; so it nests no deeper than the limit. The
document that is read nests as deep, if no unknown tag is the name of a member and each member that
a key leads to is the one that its name leads to.
-/
theorem depth_limit_exact (m : Model) (S : SchemaRef) :
    (∀ (c : Codec) (j : Json) (d : Document), c.ofJson m S j = .ok d →
      ReadsUpTo (c.nestingUnder m S j) d (fun n => (c.limited n).ofJson m S j) ∧
      c.nestingUnder m S j ≤ c.config.maxDepth ∧
      (j.DistinctKeys → (c.source m).LeadsBack m S → ¬ (c.source m).Strays m S j →
        d.nestingUnder m S = c.nestingUnder m S j)) ∧
    ∀ (config : Config) (t d : Document), t.readAs m config S = .ok d →
      ReadsUpTo (t.nestingUnder m S) d (fun n => t.readAs m (config.limited n) S) ∧
      t.nestingUnder m S ≤ config.maxDepth ∧
      (t.DistinctKeys → d.nestingUnder m S = t.nestingUnder m S) := by
  constructor
  · intro c j d h
    have hr := Reader.documentAt_eq_ok_iff.mp h
    exact ⟨hr.readsUpTo, hr.nestingUnder_le, fun hj hback => hr.nestingUnder_eq
      (Json.source_lawful m _ _) hj hback⟩
  · intro config t d h
    have hr := Reader.documentAt_eq_ok_iff.mp h
    exact ⟨hr.readsUpTo, hr.nestingUnder_le, fun ht => hr.nestingUnder_eq
      (Document.source_lawful m) ht (Document.source_leadsBack m S) (Source.not_strays rfl)⟩

namespace Gallery

/-- A tree with one branch: a structure, a list and a structure. -/
def branchedTree : Json :=
  .object [ ("label", .string "root")
          , ("children", .array [.object [("label", .string "leaf")]]) ]

/-- Such a tree takes three levels, and so does the document that is read from it. -/
theorem depth_limit_exact_tree : ∃ d,
    Codec.byName.ofJson model treeSchema branchedTree = .ok d ∧
    (Codec.byName.limited 3).ofJson model treeSchema branchedTree = .ok d ∧
    (Codec.byName.limited 2).ofJson model treeSchema branchedTree = .error (.nestingTooDeep 2) ∧
    d.readAs model (({} : Config).limited 3) treeSchema = .ok d ∧
    d.readAs model (({} : Config).limited 2) treeSchema = .error (.nestingTooDeep 2) := by
  obtain ⟨d, hd, hagain⟩ : ∃ d, Codec.byName.ofJson model treeSchema branchedTree = .ok d ∧
      d.readAs model {} treeSchema = .ok d := ⟨_, rfl, rfl⟩
  have hbranch : (Json.object [("label", .string "leaf")]).DistinctKeys :=
    .map (by decide) (List.forall_mem_singleton.mpr (.leaf _ _))
  have hkeys : branchedTree.DistinctKeys :=
    .map (by decide) (List.forall_mem_cons.mpr ⟨.leaf _ _, List.forall_mem_singleton.mpr
      (.list (List.forall_mem_singleton.mpr hbranch))⟩)
  have hnesting : Codec.byName.nestingUnder model treeSchema branchedTree = 3 := by
    decide
  obtain ⟨hread, -, hsame⟩ := (depth_limit_exact model treeSchema).1 _ _ d hd
  obtain ⟨hreread, -⟩ := (depth_limit_exact model treeSchema).2 _ _ d hagain
  rw [hsame hkeys (Codec.source_leadsBack nofun) (Source.not_strays rfl)] at hreread
  rw [hnesting] at hread hreread
  exact ⟨d, hd, (hread 3).1 (by decide), (hread 2).2 (by decide), (hreread 3).1 (by decide),
    (hreread 2).2 (by decide)⟩

/-- A list and a number under the wire keys of two members that have one name. -/
def mixedTwins : Json :=
  .object [("x", .array [.number (.ofInt 1)]), ("y", .number (.ofInt 5))]

/-- The schemas that a list and a number of one name lead to. -/
def mixedSchemas : List SchemaRef :=
  [.shape (.declared 2), .member (.declared 2) 0, .member (.declared 2) 1, .member (.declared 1) 0]

/-- Of two members of one name the document keeps the last, so it does not nest as deep. -/
theorem twins_nest_unalike : ∃ d,
    ({} : Codec).ofJson unchecked (schema unchecked "x#Mixed") mixedTwins = .ok d ∧
    mixedTwins.DistinctKeys ∧
    ¬ (({} : Codec).source unchecked).Strays unchecked (schema unchecked "x#Mixed") mixedTwins ∧
    ({} : Codec).nestingUnder unchecked (schema unchecked "x#Mixed") mixedTwins = 2 ∧
    d.nestingUnder unchecked (schema unchecked "x#Mixed") = 1 ∧
    (({} : Codec).limited 1).ofJson unchecked (schema unchecked "x#Mixed") mixedTwins =
      .error (.nestingTooDeep 1) ∧
    d.readAs unchecked (({} : Config).limited 1) (schema unchecked "x#Mixed") = .ok d := by
  have hkeys : mixedTwins.DistinctKeys :=
    .map (by decide) (List.forall_mem_cons.mpr ⟨.list (List.forall_mem_singleton.mpr (.leaf _ _)),
      List.forall_mem_singleton.mpr (.leaf _ _)⟩)
  have hclosed : ∀ t ∈ mixedSchemas, ∀ member ∈ unchecked.members t, member ∈ mixedSchemas := by
    decide
  have hunions : ({} : Codec).UnionsByName unchecked (schema unchecked "x#Mixed") :=
    Model.everywhere_of_closed hclosed (by decide) (by decide)
  exact ⟨_, rfl, hkeys, hunions.source.not_strays (Json.source_lawful unchecked _ _),
    by decide, by decide, rfl, rfl⟩

end Gallery
end ShapeCodec
