import Mathlib.Data.List.Chain
import ShapeCodec.Proofs.WritingLevels
import ShapeCodec.Writer.Json

/-!
# Writing documents comes to an end

A document under a schema is written part by part, each part under the schema it has there. Where
anything is allowed, the document is written as it is, and in JSON that may start over at the same
node, under the schema that the node itself carries. Neither the document gets smaller then nor the
schema, which may well be cyclic. What decreases is first the height of the document and then what
is left to do at its node: it is met under a schema that allows anything, as it is, and under its
own schema, in this order and no more than once each.

The recursion is laid out here without fuel: where it goes on to, what it makes of one level, and
what it comes to.
-/

namespace ShapeCodec

/-! ### Recursions that come to something -/

section
variable {τ α : Type}

/--
What a recursion comes to: a task has a result once everything has that the recursion goes on to
from there. A task from which it goes on for ever has none.
-/
inductive Settles (next : τ → τ → Prop) (level : (τ → α) → τ → α) : τ → α → Prop
  | intro {t : τ} (f : τ → α) :
      (∀ u, next t u → Settles next level u (f u)) → Settles next level t (level f t)

/-- One level of a recursion asks for nothing but what it goes on to. -/
def AsksOnly (next : τ → τ → Prop) (level : (τ → α) → τ → α) : Prop :=
  ∀ f g t, (∀ u, next t u → f u = g u) → level f t = level g t

variable {next : τ → τ → Prop} {level : (τ → α) → τ → α}

theorem Settles.unique (hlevel : AsksOnly next level) {t : τ} {r r' : α}
    (h : Settles next level t r) (h' : Settles next level t r') : r = r' := by
  induction h generalizing r' with
  | @intro t f hf ih =>
      cases h' with
      | intro g hg => exact hlevel f g t fun u hu => ih u hu (hg u hu)

/-- A recursion ends, and what it comes to for each task is what a function gives for it. -/
structure EndsIn (next : τ → τ → Prop) (level : (τ → α) → τ → α) (result : τ → α) : Prop where
  asksOnly : AsksOnly next level
  settles_iff : ∀ t r, Settles next level t r ↔ r = result t

theorem EndsIn.of_settles {result : τ → α} (hlevel : AsksOnly next level)
    (h : ∀ t, Settles next level t (result t)) : EndsIn next level result where
  asksOnly := hlevel
  settles_iff := fun t _ => ⟨fun h' => h'.unique hlevel (h t), fun heq => heq ▸ h t⟩

/-- A recursion that makes a number smaller with each step takes no more steps than that number. -/
theorem length_le_of_isChain (size : τ → Nat) (h : ∀ t u, next t u → size u < size t) {t : τ}
    {ts : List τ} (hc : (t :: ts).IsChain next) : ts.length ≤ size t := by
  induction ts generalizing t with
  | nil => exact Nat.zero_le _
  | cons u ts ih =>
      obtain ⟨hu, hc⟩ := List.isChain_cons_cons.mp hc
      have hlt := h t u hu
      have hle := ih hc
      rw [List.length_cons]
      omega

end

/-! ### Documents -/

namespace Document

variable {α : Type} {m : Model} {d : Document} {S : SchemaRef}

theorem asksOnly_levelWith (m : Model) (sink : Sink α) : AsksOnly (Part m) (levelWith m sink) :=
  fun _ _ _ h => levelWith_congr h fun _ _ => rfl

theorem settles_written (m : Model) (sink : Sink α) (d : Document) (S : SchemaRef) :
    Settles (Part m) (levelWith m sink) (d, S) (written m sink (d, S)) := by
  induction d using Tree.induct_inside generalizing S with
  | h d ih =>
      rw [written_eq]
      exact .intro (written m sink) fun q hq => ih q.1 hq.inside q.2

/-- Each part is lower than the document that it is a part of. -/
theorem Part.length_lt {ps : List (Document × SchemaRef)} (hc : ((d, S) :: ps).IsChain (Part m)) :
    ps.length < d.height := by
  have hle : ps.length ≤ d.height - 1 :=
    length_le_of_isChain (fun p => p.1.height - 1) (fun p q hq => by
      have hlt := hq.inside.height_lt
      have hpos := q.1.height_pos
      omega) hc
  have hpos := d.height_pos
  omega

end Document

/-! ### JSON, node by node -/

namespace Json

/-- How a node of a document is met while JSON is written: under a schema, or as it is. -/
inductive Visit where
  | under (d : Document) (schema : SchemaRef)
  | asIs (d : Document)

namespace Visit

variable {m : Model} {t u : Visit}

def node : Visit → Document
  | under d _ | asIs d => d

/-- What the writing of JSON goes on to. -/
inductive Next (m : Model) : Visit → Visit → Prop
  | part {d e : Document} {S member : SchemaRef} :
      Document.Part m (d, S) (e, member) → Next m (under d S) (under e member)
  | whole {d : Document} {S : SchemaRef} :
      (m.typeOf S).form = .document → d.isNull = false → Next m (under d S) (asIs d)
  | own {d : Document} : m.typeOf d.schema ≠ .document → Next m (asIs d) (under d d.schema)
  | inside {d e : Document} :
      m.typeOf d.schema = .document → e.Inside d → Next m (asIs d) (asIs e)

/-- How much is left to do at a node. -/
def stage (m : Model) : Visit → Nat
  | under _ S => if m.typeOf S = .document then 2 else 0
  | asIs _ => 1

theorem stage_le (m : Model) (t : Visit) : t.stage m ≤ 2 := by
  cases t with
  | under d S => rw [stage]; split <;> omega
  | asIs d => exact Nat.le_succ 1

/-- Each step goes into the node, or there is less left to do at it. -/
theorem Next.decreases (h : Next m t u) :
    u.node.Inside t.node ∨ u.node = t.node ∧ u.stage m < t.stage m := by
  cases h with
  | part hp => exact .inl hp.inside
  | whole hf hn => exact .inr ⟨rfl, by simp [stage, ShapeType.form_eq_document.mp hf]⟩
  | own hS => exact .inr ⟨rfl, by simp [stage, hS]⟩
  | inside hS he => exact .inl he

/-- A step that stays at its node takes the document as it is, or under its own schema. -/
theorem Next.stays (h : Next m t u) (hd : u.node = t.node) :
    (∃ S, m.typeOf S = .document ∧ t = under t.node S ∧ u = asIs t.node) ∨
      m.typeOf t.node.schema ≠ .document ∧ t = asIs t.node ∧ u = under t.node t.node.schema := by
  have hout : ¬ u.node.Inside t.node := fun hi => absurd hi.height_lt (hd ▸ Nat.lt_irrefl _)
  cases h with
  | part hp => exact absurd hp.inside hout
  | whole hf hn => exact .inl ⟨_, ShapeType.form_eq_document.mp hf, rfl, rfl⟩
  | own hS => exact .inr ⟨hS, rfl, rfl⟩
  | inside hS he => exact absurd he hout

/-- The height of the node counts first, then what is left to do at it. -/
def rank (m : Model) (t : Visit) : Nat :=
  3 * (t.node.height - 1) + t.stage m

theorem Next.rank_lt (h : Next m t u) : u.rank m < t.rank m := by
  unfold rank
  rcases h.decreases with hi | ⟨hd, hs⟩
  · have hlt := hi.height_lt
    have hpos := u.node.height_pos
    have hle := u.stage_le m
    omega
  · rw [hd]
    omega

/-- No more than three steps are made at each level. -/
theorem Next.length_lt {ts : List Visit} (hc : (t :: ts).IsChain (Next m)) :
    ts.length < 3 * t.node.height := by
  have hle : ts.length ≤ t.rank m := length_le_of_isChain (rank m) (fun _ _ h => h.rank_lt) hc
  have hpos := t.node.height_pos
  have hstage := t.stage_le m
  unfold rank at hle
  omega

/-- Under a schema that asks for something, a document is left for its parts. -/
theorem Next.leaves {d : Document} {S : SchemaRef} (h : Next m (under d S) u)
    (hS : m.typeOf S ≠ .document) : u.node ≠ d := by
  intro hd
  obtain ⟨S', hS', ht, -⟩ | ⟨-, ht, -⟩ := h.stays hd
  · cases ht
    exact hS hS'
  · cases ht

theorem visits_of_asIs {d : Document} {ts : List Visit} (hc : (asIs d :: ts).IsChain (Next m))
    (hd : ∀ t ∈ ts, t.node = d) : ts <+: [under d d.schema] := by
  match ts with
  | [] => exact List.nil_prefix
  | u :: ts =>
      obtain ⟨hu, hc⟩ := List.isChain_cons_cons.mp hc
      obtain ⟨hud, hrest⟩ := List.forall_mem_cons.mp hd
      obtain ⟨S, -, ht, -⟩ | ⟨hS, -, rfl⟩ := hu.stays hud
      · cases ht
      match ts with
      | [] => exact List.prefix_rfl
      | v :: ts =>
          have hv := (List.isChain_cons_cons.mp hc).1
          exact absurd (hrest v (List.mem_cons_self ..)) (hv.leaves hS)

theorem visits_of_under {d : Document} {S : SchemaRef} {ts : List Visit}
    (hc : (under d S :: ts).IsChain (Next m)) (hd : ∀ t ∈ ts, t.node = d) :
    ts <+: [asIs d, under d d.schema] := by
  match ts with
  | [] => exact List.nil_prefix
  | u :: ts =>
      obtain ⟨hu, hc⟩ := List.isChain_cons_cons.mp hc
      obtain ⟨hud, hrest⟩ := List.forall_mem_cons.mp hd
      obtain ⟨S', -, -, rfl⟩ | ⟨-, ht, -⟩ := hu.stays hud
      · exact (List.prefix_cons_inj _).mpr (visits_of_asIs hc hrest)
      · cases ht

/-- A node is met under a schema that allows anything, as it is and under its own schema at most. -/
theorem visits_of_node {d : Document} {ts : List Visit} (hc : ts.IsChain (Next m))
    (hd : ∀ t ∈ ts, t.node = d) : ∃ S, ts <:+: [under d S, asIs d, under d d.schema] := by
  match ts with
  | [] => exact ⟨d.schema, List.nil_infix⟩
  | under e S :: ts =>
      obtain ⟨rfl, hd⟩ := List.forall_mem_cons.mp hd
      exact ⟨S, ((List.prefix_cons_inj _).mpr (visits_of_under hc hd)).isInfix⟩
  | asIs e :: ts =>
      obtain ⟨rfl, hd⟩ := List.forall_mem_cons.mp hd
      have hvisits := (List.prefix_cons_inj (asIs e)).mpr (visits_of_asIs hc hd)
      exact ⟨e.schema, List.infix_cons hvisits.isInfix⟩

end Visit

namespace Scope

variable {s : Scope}

/-- What a visit comes to, given what the visits come to that it goes on to. -/
def levelWith (s : Scope) (f : Visit → Result Json) : Visit → Result Json
  | .under d S =>
    Document.levelWith s.model (s.sinkWith fun e => f (.asIs e)) (fun p => f (.under p.1 p.2))
      (d, S)
  | .asIs d =>
    if s.model.typeOf d.schema = .document then s.byValueWith (fun e => f (.asIs e)) d
    else f (.under d d.schema)

theorem entriesWith_eq_mapM (document : Document → Result Json)
    (entries : List (String × Document)) : entriesWith document entries =
      entries.mapM fun e => do return (e.1, ← document e.2) := by
  induction entries with
  | nil => rfl
  | cons e entries ih =>
      rw [entriesWith, List.mapM_cons, ih]
      simp only [bind_assoc, pure_bind]

theorem byValueWith_congr {f g : Document → Result Json} {d : Document}
    (h : ∀ e, e.Inside d → f e = g e) : s.byValueWith f d = s.byValueWith g d := by
  cases d with
  | null l => rfl
  | leaf l v => rfl
  | list l items => rw [byValueWith, byValueWith, Result.mapM_congr fun e he => h e (.item he)]
  | map l entries =>
      rw [byValueWith, byValueWith, entriesWith_eq_mapM, entriesWith_eq_mapM,
        Result.mapM_congr fun e he => by rw [h e.2 (.entry he)]]

theorem asksOnly_levelWith (s : Scope) : AsksOnly (Visit.Next s.model) s.levelWith := by
  intro f g t h
  cases t with
  | under d S =>
      exact Document.levelWith_congr (fun q hq => h _ (.part hq)) fun hf hn => h _ (.whole hf hn)
  | asIs d =>
      rw [levelWith, levelWith]
      split
      · exact byValueWith_congr fun e he => h _ (.inside ‹_› he)
      · exact h _ (.own ‹_›)

/-- What is written on a visit. -/
def result (s : Scope) : Visit → Result Json
  | .under d S => s.ofCall (d.calls s.model S)
  | .asIs d => s.document d

/-- What visits come to if this is what documents come to as they are. -/
def visitWith (s : Scope) (document : Document → Result Json) : Visit → Result Json
  | .under d S => Document.written s.model (s.sinkWith document) (d, S)
  | .asIs d => document d

section
variable {n : Nat} {document : Document → Result Json}
  (h : ∀ e : Document, e.height ≤ n →
    Settles (Visit.Next s.model) s.levelWith (.asIs e) (document e))
include h

/-- Under a schema a document comes to something if the documents in it do as they are. -/
theorem settles_under {d : Document} {S : SchemaRef} (hd : d.height ≤ n + 1)
    (hS : s.model.typeOf S = .document → d.height ≤ n) :
    Settles (Visit.Next s.model) s.levelWith (.under d S)
      (Document.written s.model (s.sinkWith document) (d, S)) := by
  induction d using Tree.induct_inside generalizing S with
  | h d ih =>
      rw [Document.written_eq]
      refine .intro (t := .under d S) (s.visitWith document) fun u hu => ?_
      cases hu with
      | @part _ e _ member hp =>
          have hlt : e.height < d.height := hp.inside.height_lt
          exact ih e hp.inside (by omega) fun _ => by omega
      | whole hf hn => exact h d (hS (ShapeType.form_eq_document.mp hf))

end

/-- As it is, a document comes to what it is written as with fuel for its height. -/
theorem settles_documentAt {fuel : Nat} {d : Document} (hd : d.height ≤ fuel) :
    Settles (Visit.Next s.model) s.levelWith (.asIs d) (s.documentAt fuel d) := by
  induction fuel generalizing d with
  | zero => exact absurd d.height_pos (by omega)
  | succ fuel ih =>
      have hlevel : s.documentAt (fuel + 1) d =
          s.levelWith (s.visitWith (s.documentAt fuel)) (.asIs d) := by
        rw [documentAt, levelWith]
        rfl
      rw [hlevel]
      refine .intro _ fun u hu => ?_
      cases hu with
      | own hS => exact settles_under (fun e he => ih he) hd fun h => absurd h hS
      | inside hS he =>
          have hlt := he.height_lt
          exact ih (by omega)

theorem settles_result (s : Scope) (t : Visit) :
    Settles (Visit.Next s.model) s.levelWith t (s.result t) := by
  have hdocument (d : Document) := settles_documentAt (s := s) (Nat.le_refl d.height)
  cases t with
  | under d S => exact settles_under (fun e _ => hdocument e) (Nat.le_succ _) fun _ => Nat.le_refl _
  | asIs d => exact hdocument d

end Scope
end Json

/--
Writing documents comes to an end, whatever schemas their nodes carry and whatever schemas they are
written under: without fuel, the recursions that write JSON and that write documents come to one
result for each document, a value or an error. A step stays at its node or goes to what is right
inside it. JSON meets a node under a schema that allows anything, as it is and once more under its
own schema at most, so that no more steps follow one another than three for each level; documents
never meet a node twice.
-/
theorem writing_settles (s : Json.Scope) :
    EndsIn (Json.Visit.Next s.model) s.levelWith s.result ∧
      (∀ t u, Json.Visit.Next s.model t u → u.node = t.node ∨ u.node.Inside t.node) ∧
      (∀ d ts, ts.IsChain (Json.Visit.Next s.model) → (∀ t ∈ ts, t.node = d) →
        ∃ S, ts <:+: [.under d S, .asIs d, .under d d.schema]) ∧
      (∀ t ts, (t :: ts).IsChain (Json.Visit.Next s.model) → ts.length < 3 * t.node.height) ∧
      EndsIn (Document.Part s.model) (Document.levelWith s.model (Document.sink s.model))
        (fun p => p.1.writeAs s.model p.2) ∧
      (∀ p q, Document.Part s.model p q → q.1.Inside p.1) ∧
      ∀ p ps, (p :: ps).IsChain (Document.Part s.model) → ps.length < p.1.height := by
  refine ⟨.of_settles s.asksOnly_levelWith s.settles_result, fun t u h => ?_,
    fun d ts => Json.Visit.visits_of_node, fun t ts => Json.Visit.Next.length_lt,
    .of_settles (Document.asksOnly_levelWith _ _) fun p => Document.settles_written _ _ p.1 p.2,
    fun p q => Document.Part.inside, fun p ps => Document.Part.length_lt⟩
  exact h.decreases.symm.imp_left And.left

namespace Gallery

/-- Nodes hold a number and, maybe, the next node. -/
def nodeSchema : SchemaRef :=
  .shape (.declared 19)

/-- A node without a next one. -/
def tailNode : Document :=
  .map { schema := nodeSchema } [("value", Document.ofScalar (.integer .integer ⟨2, by decide⟩))]

/-- A node that has a next one. -/
def headNode : Document :=
  .map { schema := nodeSchema } [("next", tailNode)]

/-- The way from a node that is written as a document to the next one. -/
def nodeVisits : List Json.Visit :=
  [ .under headNode (.prelude .document), .asIs headNode, .under headNode nodeSchema,
    .under tailNode (.member (.declared 19) 1) ]

theorem isChain_nodeVisits : nodeVisits.IsChain (Json.Visit.Next model) := by
  have hnext : ((.member (.declared 19) 1 : SchemaRef), "next", tailNode) ∈
      Document.memberParts model nodeSchema [("next", tailNode)] :=
    Document.mem_memberParts.mpr ⟨by decide, by decide, rfl, rfl⟩
  have hpart := Document.Part.member (l := { schema := nodeSchema }) (.inl (by decide)) hnext
  simp only [nodeVisits, List.isChain_cons_cons, List.isChain_singleton, and_true]
  exact ⟨.whole rfl rfl, .own (by decide), .part hpart⟩

/-- The first node is met three times before the next one, and the writing ends all the same. -/
theorem writing_settles_nodes :
    nodeVisits.IsChain (Json.Visit.Next model) ∧ headNode.height = 3 ∧
      Settles (Json.Visit.Next model) (Json.Scope.levelWith { model := model, config := {} })
        (.under headNode (.prelude .document))
        (.ok (.object [("next", .object [("value", .number (.ofInt 2))])])) :=
  ⟨isChain_nodeVisits, rfl,
    ((writing_settles { model := model, config := {} }).1.settles_iff _ _).mpr rfl⟩

end Gallery
end ShapeCodec
