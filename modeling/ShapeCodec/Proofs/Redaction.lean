import ShapeCodec.Codec
import ShapeCodec.Gallery.Types
import ShapeCodec.Proofs.ShownValues

/-!
# Hidden values do not show

A document shows what its nodes are labelled to show, so a value is hidden where the way it got into
the document has put a sensitive schema on it. Reading and capturing do so under every schema but
those that allow anything; setting a member leaves the value as it is.
-/

namespace ShapeCodec

/--
What the text of a document depends on. A value that is set in a structure shows unless the
structure or something around it is hidden; so two of them lead to one text only if they show the
same by themselves, as any two values do that carry sensitive schemas. What is captured or read
under a sensitive schema does not show, at any depth, unless the schema allows anything: then, too,
the values have to show the same by themselves.
-/
theorem Document.text_hides_sensitive (m : Model) :
    (∀ (S : SchemaRef) (before after : Entries Document) (key : String) (x y d e : Document)
      (around : List Around), ofMembers m S (before ++ (key, x) :: after) = .ok d →
      ofMembers m S (before ++ (key, y) :: after) = .ok e →
      ((d.within around).inspect m = (e.within around).inspect m ↔
        Covered m around ∨ m.isSensitive S = true ∨ x.inspect m = y.inspect m)) ∧
    (∀ (base : Document) (key : String) (x y d e : Document) (around : List Around),
      base.withEntry m key x = .ok d → base.withEntry m key y = .ok e →
      ((d.within around).inspect m = (e.within around).inspect m ↔
        Covered m around ∨ m.isSensitive base.schema = true ∨ x.inspect m = y.inspect m)) ∧
    (∀ (call call' : Call) (d e : Document), call.Alike m call' → ofCall m call = .ok d →
      ofCall m call' = .ok e → d.inspect m = e.inspect m) ∧
    (∀ (types : Typed.Table) (S : SchemaRef) (v w : Typed.Value) (d e : Document), m.AllLaidOut →
      v.Alike m types S w → v.toDocument m types S = .ok d → w.toDocument m types S = .ok e →
      d.inspect m = e.inspect m) ∧
    (∀ (S : SchemaRef) (t u d e : Document), m.AllLaidOut → (Document.source m).Alike m S t u →
      t.writeAs m S = .ok d → u.writeAs m S = .ok e → d.inspect m = e.inspect m) ∧
    (∀ (c : Codec) (S : SchemaRef) (j j' : Json) (d e : Document), (c.source m).Alike m S j j' →
      c.ofJson m S j = .ok d → c.ofJson m S j' = .ok e → d.inspect m = e.inspect m) ∧
    ∀ (config : Config) (S : SchemaRef) (t u d e : Document), (Document.source m).Alike m S t u →
      t.readAs m config S = .ok d → u.readAs m config S = .ok e → d.inspect m = e.inspect m := by
  -- a value that fills a place shows there as it shows by itself
  have hfill (a : Around) (x y : Document) (around : List Around) :
      ((a.fill x).within around).inspect m = ((a.fill y).within around).inspect m ↔
        Covered m around ∨ m.isSensitive a.schema = true ∨ x.inspect m = y.inspect m := by
    rw [inspect_within_eq_iff, Around.inspect_fill_eq_iff]
  refine ⟨?members, ?entry, ?capture, ?typed, ?rewrite, ?json, ?document⟩
  case members =>
    intro S before after key x y d e around hd he
    rw [of_ofMembers hd, of_ofMembers he]
    exact hfill (.entry { schema := S } before key after) x y around
  case entry =>
    intro base key x y d e around hd he
    obtain ⟨a, hschema, ha⟩ := withEntry_eq_fill m base key
    rw [ha x d hd, ha y e he, ← hschema]
    exact hfill a x y around
  case capture => exact fun _ _ _ _ h hd he => inspect_ofCall_eq h hd he
  case typed =>
    exact fun _ _ _ _ _ _ hm h hd he => Typed.Value.inspect_toDocument_eq hm h hd he
  case rewrite => exact fun _ _ _ _ _ hm h hd he => inspect_writeAs_eq hm h hd he
  case json =>
    exact fun c _ _ _ _ _ h hd he =>
      Reader.inspect_document_eq (s := { model := m, config := c.config }) h hd he
  case document =>
    exact fun config _ _ _ _ _ h hd he =>
      Reader.inspect_document_eq (s := { model := m, config }) h hd he

namespace Gallery

/-- The schema of widgets, the last member of which is a secret text. -/
def widgetSchema : SchemaRef :=
  schema model "t#Widget"

def secretMember : SchemaRef :=
  .member (.declared 12) 5

/-- A widget with a secret, as it is given in JSON. -/
def widgetJson (text : String) : Json :=
  .object [("widgetName", .string "gear"), ("secret", .string text)]

/-- The entries of a widget with a secret. -/
def widgetEntries (value : Document) : Entries Document :=
  [("name", Document.ofString "gear")] ++ ("secret", value) :: []

/-- A map that can be read as a widget with a secret. -/
def widgetMap (text : String) : Document :=
  .ofEntries (widgetEntries (.ofString text))

/-- A widget that has nothing yet. -/
def emptyWidget : Document :=
  .map { schema := widgetSchema } []

/-- A text that is labelled as a secret. -/
def labelled (text : String) : Document :=
  (Document.ofString text).withSchema secretMember

/-- The calls that write a widget with a secret. -/
def widgetCall (text : String) : Call :=
  .structure widgetSchema
    [.scalar (.member (.declared 12) 0) (.string "gear"), .scalar secretMember (.string text)]

/-- A widget with a secret, as a value of the type that is declared for widgets. -/
def widgetValue (text : String) : Typed.Value :=
  .record 4 [.scalar (.string "gear"), .scalar (.integer .integer ⟨1, rfl⟩), .missing,
    .constant 0 0, .missing, .present (.scalar (.string text))]

/-- Both documents come about, and they show the same. -/
def ShowSame (r r' : Result Document) : Prop :=
  ∃ d e, r = .ok d ∧ r' = .ok e ∧ d.inspect model = e.inspect model

theorem ShowSame.of {r r' : Result Document} (hr : ∃ d, r = .ok d) (hr' : ∃ e, r' = .ok e)
    (h : ∀ d e, r = .ok d → r' = .ok e → d.inspect model = e.inspect model) : ShowSame r r' := by
  obtain ⟨d, hd⟩ := hr
  obtain ⟨e, he⟩ := hr'
  exact ⟨d, e, hd, he, h d e hd he⟩

theorem secret_hidden : model.isSensitive secretMember = true := rfl

theorem secret_form : (model.typeOf secretMember).form = .scalar .string := rfl

theorem alike_widgetCall (text text' : String) :
    (widgetCall text).Alike model (widgetCall text') := by
  let name : Call := .scalar (.member (.declared 12) 0) (.string "gear")
  let secret (text : String) : Call := .scalar secretMember (.string text)
  have hsecret (text : String) : (secret text).WrittenAt secretMember :=
    ⟨by simp [secret, Call.isValue], fun _ h => (Option.some.inj h).symm, rfl⟩
  have hparts : ∀ p ∈ [(name, name), (secret text, secret text')], p.1.Alike model p.2 :=
    List.forall_mem_cons.mpr ⟨.same name, List.forall_mem_singleton.mpr
      (.hidden secret_hidden (hsecret text) (hsecret text'))⟩
  exact .members hparts

theorem alike_widgetValue (text text' : String) :
    (widgetValue text).Alike model types widgetSchema (widgetValue text') := by
  let common : List Typed.Value := [.scalar (.string "gear"),
    .scalar (.integer .integer ⟨1, rfl⟩), .missing, .constant 0 0, .missing]
  let parts := common.map (fun v => (v, v)) ++
    [(.present (.scalar (.string text)), .present (.scalar (.string text')))]
  have hmissing : ∀ p ∈ parts, p.1.isMissing = p.2.isMissing := by
    simp [parts, common, Typed.Value.isMissing]
  have hfields : ∀ i p member, parts[i]? = some p →
      model.memberAt (types.get 4).schema i = .ok member →
      p.1.Alike model types member p.2 := by
    intro i p member hp hmember
    rcases i with _ | _ | _ | _ | _ | _ | i
    case succ.succ.succ.succ.succ.zero =>
      obtain rfl : secretMember = member := Except.ok.inj hmember
      exact .hidden secret_hidden (by simp [secret_form])
    case succ.succ.succ.succ.succ.succ => cases hp
    -- the other fields are the same on both sides
    all_goals
      obtain rfl := Option.some.inj hp
      exact .same _
  exact .fields hmissing hfields

/-- Values of widgets with the same name are alike, whatever secrets they have. -/
theorem alike_widget {Label Leaf : Type} (src : Source Label Leaf) {name : String} {l : Label}
    {v t u : Tree Label Leaf} (hname : src.member? widgetSchema "secret" = some secretMember)
    (ht : t.isNull = false) (hu : u.isNull = false) :
    src.Alike model widgetSchema (.map l [(name, v), ("secret", t)])
      (.map l [(name, v), ("secret", u)]) := by
  have hknown : ∀ p ∈ [(name, v, v), ("secret", t, u)], ∀ member,
      src.member? widgetSchema p.1 = some member → src.Alike model member p.2.1 p.2.2 := by
    refine List.forall_mem_cons.mpr ⟨fun _ _ => .same v, List.forall_mem_singleton.mpr ?_⟩
    intro member hmember
    obtain rfl := Option.some.inj (hname.symm.trans hmember)
    exact .hidden secret_hidden (by simp [secret_form]) ht hu
  have hunknown : ∀ p ∈ [(name, v, v), ("secret", t, u)],
      src.member? widgetSchema p.1 = none → p.2.1 = p.2.2 := by
    refine List.forall_mem_cons.mpr ⟨fun _ => rfl, List.forall_mem_singleton.mpr fun h => ?_⟩
    cases hname.symm.trans h
  exact .members (.inl rfl) hknown hunknown

/-- Two secrets of a widget that are captured, read or labelled as secrets show the same. -/
theorem text_hides_secret :
    ShowSame (Document.ofMembers model widgetSchema (widgetEntries (labelled "hunter2")))
      (Document.ofMembers model widgetSchema (widgetEntries (labelled "swordfish"))) ∧
    ShowSame (emptyWidget.withEntry model "secret" (labelled "hunter2"))
      (emptyWidget.withEntry model "secret" (labelled "swordfish")) ∧
    ShowSame (Document.ofCall model (widgetCall "hunter2"))
      (Document.ofCall model (widgetCall "swordfish")) ∧
    ShowSame ((widgetValue "hunter2").toDocument model types widgetSchema)
      ((widgetValue "swordfish").toDocument model types widgetSchema) ∧
    ShowSame ((widgetMap "hunter2").writeAs model widgetSchema)
      ((widgetMap "swordfish").writeAs model widgetSchema) ∧
    ShowSame (({} : Codec).ofJson model widgetSchema (widgetJson "hunter2"))
      (({} : Codec).ofJson model widgetSchema (widgetJson "swordfish")) ∧
    ShowSame ((widgetMap "hunter2").readAs model {} widgetSchema)
      ((widgetMap "swordfish").readAs model {} widgetSchema) := by
  obtain ⟨hmembers, hentry, hcapture, htyped, hrewrite, hjson, hdocument⟩ :=
    Document.text_hides_sensitive model
  have hlabelled (text text' : String) :
      (labelled text).inspect model = (labelled text').inspect model := by
    rw [Document.inspect_of_sensitive (d := labelled text) secret_hidden,
      Document.inspect_of_sensitive (d := labelled text') secret_hidden]
  refine ⟨.of ⟨_, rfl⟩ ⟨_, rfl⟩ ?members, .of ⟨_, rfl⟩ ⟨_, rfl⟩ ?entry,
    .of ⟨_, rfl⟩ ⟨_, rfl⟩ ?capture, .of ⟨_, rfl⟩ ⟨_, rfl⟩ ?typed,
    .of ⟨_, rfl⟩ ⟨_, rfl⟩ ?rewrite, .of ⟨_, rfl⟩ ⟨_, rfl⟩ ?json, .of ⟨_, rfl⟩ ⟨_, rfl⟩ ?document⟩
  case members =>
    exact fun d e hd he => (hmembers widgetSchema _ _ "secret" _ _ d e [] hd he).mpr
      (.inr (.inr (hlabelled _ _)))
  case entry =>
    exact fun d e hd he => (hentry emptyWidget "secret" _ _ d e [] hd he).mpr
      (.inr (.inr (hlabelled _ _)))
  case capture => exact fun d e hd he => hcapture _ _ d e (alike_widgetCall _ _) hd he
  case typed =>
    exact fun d e hd he =>
      htyped types widgetSchema _ _ d e allLaidOut (alike_widgetValue _ _) hd he
  case rewrite =>
    exact fun d e hd he =>
      hrewrite widgetSchema _ _ d e allLaidOut (alike_widget _ rfl rfl rfl) hd he
  case json =>
    exact fun d e hd he => hjson {} widgetSchema _ _ d e (alike_widget _ rfl rfl rfl) hd he
  case document =>
    exact fun d e hd he => hdocument {} widgetSchema _ _ d e (alike_widget _ rfl rfl rfl) hd he

/-- A fault and its cause, a document that is hidden, as they are given in JSON. -/
def faultJson (cause : String) : Json :=
  .object [("type", .string "oops"), ("cause", .string cause)]

/-- Both documents come about, and they show different texts. -/
def ShowDifferent (r r' : Result Document) : Prop :=
  ∃ d e, r = .ok d ∧ r' = .ok e ∧ d.inspect model ≠ e.inspect model

/--
A secret that is not labelled as one shows where it is set, although the member is sensitive; and so
does what is read under a sensitive member that allows any document.
-/
theorem text_shows_secret :
    (model.member? widgetSchema "secret").map model.isSensitive = some true ∧
    ShowDifferent (Document.ofMembers model widgetSchema (widgetEntries (.ofString "hunter2")))
      (Document.ofMembers model widgetSchema (widgetEntries (.ofString "swordfish"))) ∧
    ShowDifferent (emptyWidget.withEntry model "secret" (.ofString "hunter2"))
      (emptyWidget.withEntry model "secret" (.ofString "swordfish")) ∧
    (model.member? (schema model "t#Fault") "cause").map model.isSensitive = some true ∧
    ShowDifferent (({} : Codec).ofJson model (schema model "t#Fault") (faultJson "hunter2"))
      (({} : Codec).ofJson model (schema model "t#Fault") (faultJson "swordfish")) :=
  ⟨rfl, ⟨_, _, rfl, rfl, by decide⟩, ⟨_, _, rfl, rfl, by decide⟩, rfl,
    ⟨_, _, rfl, rfl, by decide⟩⟩

end Gallery
end ShapeCodec
