import SceneScript.Proofs.Editor.Actions
import SceneScript.Proofs.Editor.Editing

/-! Edits of one part of a tree. A tree may be edited, flagged and highlighted anywhere inside,
so that its parts need not agree in their flags; still the text of every number is one of its value.
An edit that succeeds does to the script what its name says, at the place where it was made, and
leaves all the rest of the script as it was. -/

namespace SceneScript

variable {a b c s : Site}

/-! ## Texts of numbers -/

/-- The text of every number in a part can be read as no other number. -/
def Site.Faithful (s : Site) (p : s.Part) : Prop :=
  ∀ field, .number field ∈ s.widgets p → field.Faithful

namespace Site

theorem Settled.faithful {r : Bool} {p : s.Part} (h : s.Settled r p) : s.Faithful p :=
  fun field hfield => (h _ hfield).faithful field rfl

namespace Faithful

variable {p : s.Part}

theorem of_singleton {w : Widget} (hp : s.widgets p = [w]) (hw : ∀ field, w ≠ .number field) :
    s.Faithful p := by
  intro field hfield
  rw [hp] at hfield
  exact absurd (List.mem_singleton.mp hfield).symm (hw field)

variable (h : s.Faithful p)

include h

/-- What comes first may be another control or target, if it is not a number. -/
theorem behind {q : b.Part} {w w' : Widget} {rest : List Widget} (hp : s.widgets p = w :: rest)
    (hq : b.widgets q = w' :: rest) (hw' : ∀ field, w' ≠ .number field) : b.Faithful q := by
  intro field hfield
  rw [hq] at hfield
  rcases List.mem_cons.mp hfield with hfield | hfield
  · exact absurd hfield.symm (hw' field)
  · exact h field (hp ▸ List.mem_cons_of_mem _ hfield)

theorem relabel (m : Relabeling) : s.Faithful (s.relabel m p) := by
  intro field hfield
  rw [Site.widgets_relabel] at hfield
  obtain ⟨w, hw, hrelabel⟩ := List.mem_map.mp hfield
  cases w with
  | number old =>
    cases hrelabel
    exact h old hw
  | _ => cases hrelabel

theorem setReadOnly (r : Bool) : s.Faithful (s.setReadOnly r p) := s.setReadOnly_eq r p ▸ h.relabel _

theorem highlight (wanted : Category → Bool) : s.Faithful (s.highlight wanted p) :=
  s.highlight_eq wanted p ▸ h.relabel _

theorem announce (o : Option Origin) : s.Faithful (s.announce o p) := by
  intro field hfield
  rw [Site.widgets_announce] at hfield
  exact h field hfield

theorem get? {path : Path s b} {q : b.Part} (hq : path.get? p = some q) : b.Faithful q :=
  fun field hfield => h field (Path.widgets_get? hq hfield)

theorem put {path : Path s b} {e : Edited b.Part} (he : b.Faithful e.part) :
    s.Faithful (path.put e p) := by
  intro field hfield
  rcases Path.mem_widgets_put hfield with hfield | hfield
  · exact he field hfield
  · exact h field hfield

end Faithful

end Site

theorem Target.faithful_setHighlighted {t : Target} {part : t.Part} (h : t.site.Faithful part)
    (on : Bool) : t.site.Faithful (t.setHighlighted on part) := by
  cases t with
  | slot f =>
    cases part with
    | empty frame => exact .of_singleton rfl nofun
    | full frame node => exact h.behind (s := .slot f) rfl rfl nofun
  | commands | scenes =>
    intro field hfield
    rcases List.mem_append.mp hfield with hfield | hfield
    · exact h field (List.mem_append_left _ hfield)
    · cases List.mem_singleton.mp hfield

theorem AnyPart.Built.faithful {c : Component} {tree : AnyPart} (h : tree.Built c) :
    tree.site.Faithful tree.part := by
  cases h with
  | @expr _ e _ hnode =>
    have hslot := (Slot.settled_ofExpr e).faithful
    rw [hnode] at hslot
    exact fun field hfield => hslot field (List.mem_cons_of_mem _ hfield)
  | statement hnode => exact hnode.settled.faithful
  | scene hnode => exact hnode.settled.faithful
  | sequence hnode => exact hnode.settled.faithful
  | act hnode => exact hnode.settled.faithful

theorem Component.faithful_build {c : Component} {tree : AnyPart} (h : c.build = .ok tree) :
    tree.site.Faithful tree.part :=
  (Component.built_of_construct (Component.construct_of_build h).2).faithful

/-! ## What an edit does where it is made -/

/-- What an action makes of the script of the part it is performed on. -/
inductive Action.Edits : Action → (s : Site) → s.Model → s.Model → Prop
  | fill {f : Family} (old e : Expr f) : Edits (.fill (.expr e)) (.slot f) old e
  | fillComponent {f : Family} (old e : Expr f) :
    Edits (.fillComponent (.expr e)) (.slot f) old e
  | clear {f : Family} (old : Expr f) (h : old.isGap = false) : Edits .clear (.slot f) old .gap
  | appendStatement (ss : List Statement) (s : Statement) :
    Edits (.append (.statement s)) .commands ss (ss ++ [s])
  | appendScene (ss : List Scene) (s : Scene) :
    Edits (.append (.scene s)) .scenes ss (ss ++ [s])
  | appendStatementComponent (ss : List Statement) (s : Statement) :
    Edits (.appendComponent (.statement s)) .commands ss (ss ++ [s])
  | appendSceneComponent (ss : List Scene) (s : Scene) :
    Edits (.appendComponent (.scene s)) .scenes ss (ss ++ [s])
  | addCommand (ss : List Statement) (s : Statement) :
    Edits (.append (.statement s)) .sequence ⟨ss⟩ ⟨ss ++ [s]⟩
  | addScene (ss : List Scene) (s : Scene) : Edits (.append (.scene s)) .act ⟨ss⟩ ⟨ss ++ [s]⟩
  | setNumber (text : String) (old x : Binary64) (h : parseNumber text = .ok x) :
    Edits (.setText text) (.node .number) (.number old) (.number x)
  | setText (text old : String) : Edits (.setText text) (.node .text) (.text old) (.text text)
  | setUrl (text old : String) : Edits (.setText text) (.node .video) (.url old) (.url text)
  | setOperator (symbol : String) (old o : Operator) (x y : Expr .number)
    (h : Operator.ofSymbol? symbol = some o) :
    Edits (.setOperator symbol) (.node .number) (.operation old x y) (.operation o x y)
  | selectGot (name old : String) : Edits (.selectVariable name) .statement (.get old) (.get name)
  | selectSet (name old : String) (value : Expr .number) :
    Edits (.selectVariable name) .statement (.set old value) (.set name value)
  | setTitle (title : String) (s : Scene) : Edits (.setTitle title) .scene s (s.withTitle title)
  | setComment (comment : String) (s : Scene) :
    Edits (.setComment comment) .scene s (s.withComment comment)

/-- An edit that does what its action says, and leaves texts of numbers that are theirs. -/
structure Action.Does (x : Action) (s : Site) (p : s.Part) (e : Edited s.Part) : Prop where
  edits : x.Edits s (s.model p) (s.model e.part)
  faithful : s.Faithful e.part

theorem Action.Does.into {x : Action} {p : s.Part} {α : Type} {e : Edited α} {make : α → s.Part}
    {m : s.Model} (hmodel : s.model (make e.part) = m) (hedits : x.Edits s (s.model p) m)
    (h : s.Faithful (make e.part)) : x.Does s p (e.into make fun o => s.announce o) :=
  ⟨((s.model_announce e.origin _).trans hmodel).symm ▸ hedits, h.announce e.origin⟩

/-! ### Controls -/

theorem TextField.text_setText {f : TextField} {text : String} {e : Edited TextField}
    (h : f.setText text = .ok e) : e.part.text = text := by
  obtain ⟨hsame, rfl⟩ | ⟨-, rfl⟩ := setText_cases h
  · exact hsame.symm
  · rfl

theorem NumberField.value_setText {f : NumberField} (hf : f.Faithful) {text : String}
    {e : Edited NumberField} (h : f.setText text = .ok e) :
    parseNumber text = .ok e.part.value ∧ e.part.text = text := by
  obtain ⟨value, hvalue, ⟨rfl, rfl⟩ | ⟨-, rfl⟩⟩ := setText_cases h
  · exact ⟨hvalue.trans (congrArg Except.ok (hf value hvalue)), rfl⟩
  · exact ⟨hvalue, rfl⟩

theorem Choice.selected_select {α : Type} [BEq α] [LawfulBEq α] {options : List α}
    {c : Choice options} {display : α → String} {a : α} {e : Edited (Choice options)}
    (h : c.select display a = .ok e) : e.part.selected = a := by
  obtain ⟨i, hi, ⟨rfl, rfl⟩ | ⟨-, rfl⟩⟩ := select_cases h
  · exact (List.finIdxOf?_eq_some_iff.mp hi).1
  · exact (List.finIdxOf?_eq_some_iff.mp hi).1

theorem VariableChoice.selected_selectName {v : VariableChoice} {name : String}
    {e : Edited VariableChoice} (h : v.selectName name = .ok e) : e.part.selected = name :=
  Choice.selected_select (select_of_selectName h)

theorem OperatorChoice.selected_selectSymbol {o : OperatorChoice} {symbol : String}
    {e : Edited OperatorChoice} (h : o.selectSymbol symbol = .ok e) :
    Operator.ofSymbol? symbol = some e.part.selected := by
  obtain ⟨new, hnew, hselect⟩ := select_of_selectSymbol h
  rw [hnew, Choice.selected_select hselect]

/-! ### Parts -/

/-- No number is in the comment box. -/
theorem SceneNode.faithful_withComment {n : SceneNode} (hn : Site.Faithful .scene n)
    (comment : CommentBox) : Site.Faithful .scene (n.withFrame { n.frame with comment }) := by
  intro field hfield
  rcases SceneNode.mem_widgets_withComment hfield with hfield | hfield
  · rcases List.mem_cons.mp hfield with hfield | hfield
    · cases hfield
    · cases List.mem_singleton.mp hfield
  · exact hn field hfield

theorem SceneNode.model_setTitle {n : SceneNode} {text : String} {e : Edited CommentBox}
    (h : n.frame.comment.setTitle text = .ok e) :
    (n.withFrame { n.frame with comment := e.part }).model = n.model.withTitle text := by
  obtain ⟨e', hset, h⟩ := bind_eq_ok h
  cases h
  rw [← TextField.text_setText hset]
  cases n <;> rfl

theorem SceneNode.model_setComment {n : SceneNode} {text : String} {e : Edited CommentBox}
    (h : n.frame.comment.setComment text = .ok e) :
    (n.withFrame { n.frame with comment := e.part }).model = n.model.withComment text := by
  obtain ⟨e', hset, h⟩ := bind_eq_ok h
  cases h
  rw [← TextField.text_setText hset]
  cases n <;> rfl

theorem Slot.faithful_fill {f : Family} {slot : Slot f} {e : Expr f} {filled : Edited (Slot f)}
    (h : slot.fill e = .ok filled) : Site.Faithful (.slot f) filled.part := by
  rw [Slot.fill, Slot.new_eq] at h
  cases h
  have hflagged : Site.Faithful (.slot f) ((Slot.ofExpr e).setReadOnly slot.frame.readOnly) :=
    (Slot.settled_ofExpr e).faithful.setReadOnly slot.frame.readOnly
  refine Site.Faithful.announce (s := .slot f) ?_ _
  generalize (Slot.ofExpr e).setReadOnly slot.frame.readOnly = flagged at hflagged ⊢
  cases flagged with
  | empty frame => exact .of_singleton rfl fun _ h => by cases h
  | full frame node => exact hflagged.behind (s := .slot f) rfl rfl fun _ h => by cases h

theorem ListEditor.faithful_append {α : Type} [Entry α] {t : Target} {widgets : α → List Widget}
    {l : ListEditor α} {m : Entry.Model α} {e : Edited (ListEditor α)}
    (hentry : ∀ {entry : α}, Entry.build m = .ok entry → ∀ field,
      .number field ∈ widgets (Entry.setReadOnly l.gap.readOnly entry) → field.Faithful)
    (hl : ∀ field, .number field ∈ l.widgets t widgets → field.Faithful)
    (h : l.append m = .ok e) (field : NumberField)
    (hfield : .number field ∈ e.part.widgets t widgets) : field.Faithful := by
  obtain ⟨entry, hbuild, h⟩ := bind_eq_ok h
  cases h
  rcases List.mem_append.mp hfield with hfield | hfield
  · obtain ⟨item, hitem, hfield⟩ := List.mem_flatMap.mp hfield
    rcases List.mem_append.mp hitem with hitem | hitem
    · exact hl field (List.mem_append_left _ (List.mem_flatMap.mpr ⟨item, hitem, hfield⟩))
    · cases List.mem_singleton.mp hitem
      exact hentry hbuild field hfield
  · cases List.mem_singleton.mp hfield

theorem ListEditor.faithful_appendStatement {l : ListEditor StatementNode}
    (hl : Site.Faithful .commands l) {s : Statement} {e : Edited (ListEditor StatementNode)}
    (h : l.append s = .ok e) : Site.Faithful .commands e.part :=
  ListEditor.faithful_append (fun hbuild =>
    (StatementNode.built_of_build hbuild).settled.faithful.setReadOnly (s := .statement) _) hl h

theorem ListEditor.faithful_appendScene {l : ListEditor SceneNode} (hl : Site.Faithful .scenes l)
    {s : Scene} {e : Edited (ListEditor SceneNode)} (h : l.append s = .ok e) :
    Site.Faithful .scenes e.part :=
  ListEditor.faithful_append (fun hbuild =>
    (SceneNode.built_of_build hbuild).settled.faithful.setReadOnly (s := .scene) _) hl h

/-! ### Actions -/

namespace Action

theorem Succeeds.does {x : Action} {p : s.Part} {e : Edited s.Part} (h : x.Succeeds s p e)
    (hp : s.Faithful p) : x.Does s p e := by
  cases h with
  | @setNumber text field n e h =>
    obtain ⟨hvalue, htext⟩ := NumberField.value_setText (hp field (List.mem_singleton_self _)) h
    refine .into (s := .node .number) rfl (.setNumber text field.value _ hvalue) ?_
    intro new hnew
    cases List.mem_singleton.mp hnew
    intro v hv
    rw [htext, hvalue] at hv
    cases hv
    rfl
  | @setText text field n e h =>
    exact .into (s := .node .text) (congrArg Expr.text (TextField.text_setText h))
      (.setText text field.text) (.of_singleton rfl nofun)
  | @setUrl text field n e h =>
    exact .into (s := .node .video) (congrArg Expr.url (TextField.text_setText h))
      (.setUrl text field.text) (.of_singleton rfl nofun)
  | @setOperator symbol o x y n e h =>
    exact .into (s := .node .number) rfl
      (.setOperator symbol o.selected _ x.model y.model (OperatorChoice.selected_selectSymbol h))
      (hp.behind (s := .node .number) rfl rfl nofun)
  | @selectGot name v n e h =>
    exact .into (s := .statement) (congrArg Statement.get (VariableChoice.selected_selectName h))
      (.selectGot name v.selected) (.of_singleton rfl nofun)
  | @selectSet name v value n e h =>
    exact .into (s := .statement)
      (congrArg (Statement.set · value.model) (VariableChoice.selected_selectName h))
      (.selectSet name v.selected value.model) (hp.behind (s := .statement) rfl rfl nofun)
  | @setTitle text n e h =>
    exact .into (s := .scene) (SceneNode.model_setTitle h) (.setTitle text n.model)
      (SceneNode.faithful_withComment hp _)
  | @setComment text n e h =>
    exact .into (s := .scene) (SceneNode.model_setComment h) (.setComment text n.model)
      (SceneNode.faithful_withComment hp _)
  | @fill f new slot e h =>
    have hmodel : Site.model (.slot f) e.part = new := Slot.model_fill h
    exact ⟨hmodel ▸ .fill _ new, Slot.faithful_fill h⟩
  | @fillComponent f new slot e h =>
    have hmodel : Site.model (.slot f) e.part = new := Slot.model_fill h
    exact ⟨hmodel ▸ .fillComponent _ new, Slot.faithful_fill h⟩
  | @clear f frame node =>
    have hshown : node.model.isGap = false := by cases node <;> rfl
    exact ⟨.clear node.model hshown, .of_singleton rfl nofun⟩
  | appendStatement h =>
    exact ⟨ListEditor.model_appendStatement h ▸ .appendStatement _ _,
      ListEditor.faithful_appendStatement hp h⟩
  | appendScene h =>
    exact ⟨ListEditor.model_appendScene h ▸ .appendScene _ _, ListEditor.faithful_appendScene hp h⟩
  | appendStatementComponent h =>
    exact ⟨ListEditor.model_appendStatement h ▸ .appendStatementComponent _ _,
      ListEditor.faithful_appendStatement hp h⟩
  | appendSceneComponent h =>
    exact ⟨ListEditor.model_appendScene h ▸ .appendSceneComponent _ _,
      ListEditor.faithful_appendScene hp h⟩
  | addCommand h =>
    exact .into (s := .sequence) (congrArg CommandSequence.mk (ListEditor.model_appendStatement h))
      (.addCommand _ _) (ListEditor.faithful_appendStatement hp h)
  | addScene h =>
    exact .into (s := .act) (congrArg Act.mk (ListEditor.model_appendScene h)) (.addScene _ _)
      (ListEditor.faithful_appendScene hp h)

/-- An action that succeeds does what it says. -/
theorem on_does {x : Action} {p : s.Part} (hp : s.Faithful p) {e : Edited s.Part}
    (h : x.on s p = .ok e) : x.Does s p e := (succeeds h).does hp

end Action

theorem Target.faithful_accept {t : Target} {part : t.Part} (h : t.site.Faithful part)
    {c : Component} {e : Edited t.Part} (he : t.accept part c = .ok e) :
    t.site.Faithful e.part := ((accept_succeeds he).does h).faithful

/-! ## Trees that were worked on -/

/-- A tree that was built, and then edited, dropped on, flagged and highlighted anywhere inside; and
each part of one. -/
inductive Site.Live : (s : Site) → s.Part → Prop
  | built {c : Component} {tree : AnyPart} (h : c.build = .ok tree) : Live tree.site tree.part
  | inside {a b : Site} {p : a.Part} {q : b.Part} {path : Path a b} (h : Live a p)
    (hq : path.get? p = some q) : Live b q
  | edited {a b : Site} {p : a.Part} {q : b.Part} {path : Path a b} {x : Action}
    {e : Edited b.Part} (h : Live a p) (hq : path.get? p = some q) (he : x.on b q = .ok e) :
    Live a (path.put e p)
  | accepted {a : Site} {t : Target} {p : a.Part} {q : t.Part} {path : Path a t.site}
    {c : Component} {e : Edited t.Part} (h : Live a p) (hq : path.get? p = some q)
    (he : t.accept q c = .ok e) : Live a (path.put e p)
  | flagged {a b : Site} {p : a.Part} {q : b.Part} {path : Path a b} (readOnly : Bool)
    (h : Live a p) (hq : path.get? p = some q) :
    Live a (path.put ⟨b.setReadOnly readOnly q, none⟩ p)
  | highlighted {a b : Site} {p : a.Part} {q : b.Part} {path : Path a b}
    (wanted : Category → Bool) (h : Live a p) (hq : path.get? p = some q) :
    Live a (path.put ⟨b.highlight wanted q, none⟩ p)
  | lit {a : Site} {t : Target} {p : a.Part} {q : t.Part} {path : Path a t.site} (on : Bool)
    (h : Live a p) (hq : path.get? p = some q) :
    Live a (path.put ⟨t.setHighlighted on q, none⟩ p)

theorem Site.Live.faithful {p : s.Part} (h : s.Live p) : s.Faithful p := by
  induction h with
  | built h => exact Component.faithful_build h
  | inside _ hq ih => exact ih.get? hq
  | edited _ hq he ih => exact ih.put (Action.on_does (ih.get? hq) he).faithful
  | accepted _ hq he ih => exact ih.put (Target.faithful_accept (ih.get? hq) he)
  | flagged readOnly _ hq ih => exact ih.put ((ih.get? hq).setReadOnly readOnly)
  | highlighted wanted _ hq ih => exact ih.put ((ih.get? hq).highlight wanted)
  | lit on _ hq ih => exact ih.put (Target.faithful_setHighlighted (ih.get? hq) on)

/-! ## The rest of the script -/

theorem Path.putModel_putModel {path : Path a b} {m : a.Model} {old new : b.Model}
    (h : path.model? m = some old) (hnew : b.isShown new = true) (x : b.Model) :
    path.putModel x (path.putModel new m) = path.putModel x m := by
  induction path with
  | here => rfl
  | step step rest ih =>
    obtain ⟨part, hpart, hrest⟩ := Option.bind_eq_some_iff.mp h
    have hshown := rest.isShown_putModel hnew (Step.isShown_model? hpart)
    simp only [putModel, hpart, Step.model?_putModel hpart hshown]
    rw [ih hrest hnew, Step.putModel_putModel]

theorem Site.isShown_model (p : s.Part) : s.isShown (s.model p) = true := by
  cases s with
  | node f => cases p <;> rfl
  | slot | statement | commands | sequence | scene | scenes | act => rfl

/-- The second script has something else at the end of the path, and all the rest is that of the
first: whatever both get there makes them the same, and what is apart is the same already. -/
structure Path.Replaces (path : Path a b) (m : a.Model) (new : b.Model) (m' : a.Model) : Prop where
  put : m' = path.putModel new m
  there : path.model? m' = some new
  around : ∀ x : b.Model, path.putModel x m' = path.putModel x m
  apart : ∀ {c : Site} (other : Path a c), path.Apart other → other.model? m' = other.model? m

theorem Path.replaces_put {path : Path a b} {p : a.Part} {q : b.Part}
    (hq : path.get? p = some q) (e : Edited b.Part) :
    path.Replaces (a.model p) (b.model e.part) (a.model (path.put e p)) := by
  have hold : path.model? (a.model p) = some (b.model q) := Path.model?_of_get? hq
  have hshown : b.isShown (b.model e.part) = true := Site.isShown_model e.part
  have hput := path.model_put e hq
  rw [hput]
  exact ⟨rfl, path.model?_putModel hold hshown, Path.putModel_putModel hold hshown,
    fun other hapart => hapart.model?_putModel hold hshown⟩

/-- An edit that succeeds anywhere in a tree is the edit of that name at that place of the script:
a slot holds the expression or a gap, a list ends in the entry, a control shows the number, the
operator, the name or the text. The rest of the script is as it was. -/
theorem Site.Live.edits_in_place {p : a.Part} (h : a.Live p) {path : Path a b} {q : b.Part}
    (hq : path.get? p = some q) {x : Action} {e : Edited b.Part} (he : x.on b q = .ok e) :
    ∃ new : b.Model, x.Edits b (b.model q) new ∧ path.model? (a.model p) = some (b.model q) ∧
      path.Replaces (a.model p) new (a.model (path.put e p)) := by
  have hdoes := Action.on_does (h.faithful.get? hq) he
  exact ⟨b.model e.part, hdoes.edits, Path.model?_of_get? hq, Path.replaces_put hq e⟩

def sampleText : Path .act (.slot .text) := .step .scenes (.step (.scene 0) (.step .text .here))

/-- A text is put into the scene of a script. -/
theorem sampleText_filled :
    Site.Live .act sampleDocument.root ∧
      sampleText.get? sampleDocument.root = some (.empty .new) ∧
      ∃ e, (Action.fillComponent (.expr (.text "b"))).on (.slot .text) (.empty .new) = .ok e ∧
        sampleText.Replaces (a := .act) ⟨[sampleScene .gap]⟩ (.text "b")
          (Site.act.model (sampleText.put e sampleDocument.root)) := by
  have hbuilt : (Component.act ⟨[sampleScene .gap]⟩).build = .ok ⟨.act, sampleDocument.root⟩ := rfl
  have hlive : Site.Live .act sampleDocument.root := .built hbuilt
  have hslot : sampleText.get? sampleDocument.root = some (.empty .new) := rfl
  refine ⟨hlive, hslot, _, rfl, ?_⟩
  obtain ⟨new, hedits, hold, hreplaces⟩ :=
    hlive.edits_in_place hslot (x := .fillComponent (.expr (.text "b"))) rfl
  cases hedits
  exact hreplaces

/-- The two numbers of a video scene, and the two operands of an operation, are apart. -/
example : (Path.step .duration .here).Apart (.step .offset .here) ∧
    (Path.step .op1 .here).Apart (.step .op2 .here) :=
  ⟨.fork _ _ nofun, .fork _ _ nofun⟩

end SceneScript
