import SceneScript.Proofs.Editor.Drop
import SceneScript.Proofs.Editor.Settled

/-! What editing does to a script. An action, and a component handed to a target, do to the script
of a settled part what depends on that script and the flag alone: how a number was spelled, what a
slot held before and what was announced make no difference. The part is settled afterwards. -/

namespace SceneScript

variable {ε α β : Type} {r : Bool}

/-! ## Edits of a plain script -/

/-- What cannot be done by hand while the script is read-only. -/
def byHand (r : Bool) (x : Except EditorError α) : Except EditorError α :=
  if r then .error .readOnly else x

def Expr.setText? (r : Bool) (text : String) :
    {f : Family} → Expr f → Option (Except EditorError (Expr f))
  | _, .number _ => some (byHand r ((parseNumber text).map .number))
  | _, .text _ => some (byHand r (.ok (.text text)))
  | _, .url _ => some (byHand r (.ok (.url text)))
  | _, _ => none

def Expr.setOperator? (r : Bool) (symbol : String) :
    {f : Family} → Expr f → Option (Except EditorError (Expr f))
  | _, .operation _ a b => some <|
    match Operator.ofSymbol? symbol with
    | some o => byHand r (.ok (.operation o a b))
    | none => .error (.unknownOperator symbol)
  | _, _ => none

def Statement.withVariable (name : String) : Statement → Statement
  | get _ => get name
  | set _ value => set name value

def Statement.selectVariable (r : Bool) (name : String) (s : Statement) :
    Except EditorError Statement :=
  if name ∈ variableNames then byHand r (.ok (s.withVariable name))
  else .error (.unknownVariable name)

def Scene.withTitle (title : String) : Scene → Scene
  | text s => text { s with title }
  | video s => video { s with title }

def Scene.withComment (comment : String) : Scene → Scene
  | text s => text { s with comment }
  | video s => video { s with comment }

/-- A list with one more entry, unless that names what is no variable. -/
def grown (names : List String) (ms : List α) (m : α) : Except EditorError (List α) :=
  match names.find? (· ∉ variableNames) with
  | none => .ok (ms ++ [m])
  | some name => .error (.unknownVariable name)

def Target.acceptModel (c : Component) :
    (t : Target) → t.site.Model → Except EditorError t.site.Model
  | slot f, _ =>
    match c.expr? f with
    | some e => .ok e
    | none => .error (.incompatible (.expr f) c.kind)
  | commands, ss =>
    match c.statement? with
    | some s => grown [s.variable] ss s
    | none => .error (.incompatible .statement c.kind)
  | scenes, ss =>
    match c.scene? with
    | some s => grown s.variables ss s
    | none => .error (.incompatible .scene c.kind)

def Action.onModel (r : Bool) : Action → (s : Site) → s.Model → Except SessionFault s.Model
  | setText text, .node _, m =>
    match m.setText? r text with
    | some x => lift x
    | none => .error .notHere
  | setOperator symbol, .node _, m =>
    match m.setOperator? r symbol with
    | some x => lift x
    | none => .error .notHere
  | selectVariable name, .statement, m => lift (m.selectVariable r name)
  | setTitle text, .scene, m => lift (byHand r (.ok (m.withTitle text)))
  | setComment text, .scene, m => lift (byHand r (.ok (m.withComment text)))
  | fill c, .slot f, _ => converted c (c.expr? f)
  | fillComponent c, .slot f, m => lift ((Target.slot f).acceptModel c m)
  | clear, .slot f, m => lift (if m.isGap then .error (.slotNotOccupied (.expr f)) else .ok .gap)
  | append c, .act, m => do
    let s ← converted c c.scene?
    lift ((grown s.variables m.scenes s).map Act.mk)
  | append c, .sequence, m => do
    let s ← converted c c.statement?
    lift ((grown [s.variable] m.commands s).map CommandSequence.mk)
  | append c, .commands, m => do
    let s ← converted c c.statement?
    lift (grown [s.variable] m s)
  | append c, .scenes, m => do
    let s ← converted c c.scene?
    lift (grown s.variables m s)
  | appendComponent c, .commands, m => lift (Target.commands.acceptModel c m)
  | appendComponent c, .scenes, m => lift (Target.scenes.acceptModel c m)
  | _, _, _ => .error .notHere

/-! ## Controls

What a control holds after an edit depends on its flag and on what it was given; only whether that
is a change depends on what it held before. -/

theorem TextField.setText_eq (f : TextField) (text : String) :
    ∃ origin, f.setText text = byHand f.readOnly (.ok ⟨⟨text, f.readOnly⟩, origin⟩) := by
  unfold setText byHand
  by_cases h : text = f.text
  · subst h
    exact ⟨none, by simp⟩
  · exact ⟨some .control, by simp [h]⟩

/-- A text that is the one already shown is read as the number already held. -/
theorem NumberField.setText_eq {f : NumberField} (h : f.Faithful) (text : String) :
    ∃ origin, f.setText text = byHand f.readOnly
      ((parseNumber text).map fun value => ⟨⟨text, value, f.readOnly⟩, origin⟩) := by
  unfold setText byHand
  -- a field that shows the text already keeps its value, which must then be the one that was read
  by_cases htext : text = f.text
  · subst htext
    refine ⟨none, ?_⟩
    cases hvalue : parseNumber f.text with
    | error e => rfl
    | ok value =>
      have hsame := h value hvalue
      subst hsame
      simp [bind_ok, Except.map]
  · refine ⟨some .control, ?_⟩
    cases parseNumber text with
    | error e => rfl
    | ok value => simp [htext, bind_ok, Except.map]

theorem Choice.select_eq [BEq α] {options : List α} (c : Choice options) (display : α → String)
    {a : α} {i : Fin options.length} (h : options.finIdxOf? a = some i) :
    ∃ origin, c.select display a = byHand c.readOnly (.ok ⟨⟨i, c.readOnly⟩, origin⟩) := by
  unfold select byHand
  rw [h]
  by_cases hi : i = c.index
  · subst hi
    exact ⟨none, by simp⟩
  · exact ⟨some .control, by simp [hi]⟩

theorem VariableChoice.selectName_eq (c : VariableChoice) {name : String}
    (h : name ∈ variableNames) : ∃ c' : VariableChoice, ∃ origin, c'.selected = name ∧
      c'.readOnly = c.readOnly ∧ c.selectName name = byHand c.readOnly (.ok ⟨c', origin⟩) := by
  obtain ⟨i, hi⟩ := Option.isSome_iff_exists.mp
    (List.isSome_finIdxOf?.trans (List.contains_iff_mem.mpr h))
  obtain ⟨origin, hselect⟩ := Choice.select_eq c id hi
  refine ⟨⟨i, c.readOnly⟩, origin, (List.finIdxOf?_eq_some_iff.mp hi).1, rfl, ?_⟩
  unfold selectName
  rw [if_pos h]
  exact hselect

theorem OperatorChoice.selectSymbol_eq (c : OperatorChoice) {symbol : String} {o : Operator}
    (h : Operator.ofSymbol? symbol = some o) : ∃ c' : OperatorChoice, ∃ origin, c'.selected = o ∧
      c'.readOnly = c.readOnly ∧ c.selectSymbol symbol = byHand c.readOnly (.ok ⟨c', origin⟩) := by
  obtain ⟨i, hi⟩ : ∃ i, Operator.all.finIdxOf? o = some i := by cases o <;> exact ⟨_, rfl⟩
  obtain ⟨origin, hselect⟩ := Choice.select_eq c Operator.symbol hi
  refine ⟨⟨i, c.readOnly⟩, origin, (List.finIdxOf?_eq_some_iff.mp hi).1, rfl, ?_⟩
  unfold selectSymbol
  rw [h]
  exact hselect

/-! ## Parts -/

/-- An edit that does to a part's script what is said, or fails as is said, and settles the part. -/
structure Follows (r : Bool) (s : Site) (x : Except ε (Edited s.Part)) (m : Except ε s.Model) :
    Prop where
  model : x.map (fun e => s.model e.part) = m
  settled : ∀ e, x = .ok e → s.Settled r e.part

namespace Follows

theorem error {s : Site} (f : ε) : Follows r s (.error f) (.error f) := ⟨rfl, nofun⟩

theorem ok {s : Site} {e : Edited s.Part} {m : s.Model} (hmodel : s.model e.part = m)
    (h : s.Settled r e.part) : Follows r s (.ok e : Except ε (Edited s.Part)) (.ok m) :=
  ⟨congrArg Except.ok hmodel, by rintro _ ⟨⟩; exact h⟩

/-- A part with an edit of what it holds. -/
theorem into {s : Site} {e : Edited α} {make : α → s.Part} {m : s.Model}
    (hmodel : s.model (make e.part) = m) (h : s.Settled r (make e.part)) :
    Follows r s (.ok (e.into make fun o => s.announce o) : Except ε (Edited s.Part)) (.ok m) :=
  ok ((s.model_announce e.origin _).trans hmodel) (h.announce e.origin)

theorem lift {s : Site} {x : Except EditorError (Edited s.Part)} {m : Except EditorError s.Model}
    (h : Follows r s x m) : Follows r s (Action.lift x) (Action.lift m) := by
  rw [← h.model]
  cases x with
  | error f => exact error _
  | ok e => exact ok rfl (h.settled e rfl)

theorem byHand {s : Site} {x : Except EditorError (Edited s.Part)}
    {m : Except EditorError s.Model} (h : Follows r s x m) :
    Follows r s (byHand r x) (byHand r m) := by
  cases r with
  | true => exact error _
  | false => exact h

end Follows

theorem byHand_bind (x : Except EditorError α) (f : α → β) :
    (byHand r x >>= fun a => .ok (f a)) = byHand r (x.map f) := by
  cases r with
  | true => rfl
  | false => cases x <;> rfl

theorem TextField.setText_follows {s : Site} {field : TextField} (h : field.readOnly = r)
    (text : String) (make : TextField → s.Part) {m : s.Model}
    (hmodel : s.model (make ⟨text, r⟩) = m) (hsettled : s.Settled r (make ⟨text, r⟩)) :
    Follows r s (field.setText text >>= fun e => .ok (e.into make fun o => s.announce o))
      (byHand r (.ok m)) := by
  obtain ⟨origin, hset⟩ := field.setText_eq text
  rw [hset, h, byHand_bind]
  exact Follows.byHand (Follows.into hmodel hsettled)

section Nodes

variable {f : Family} {n : Node f} (h : Site.Settled r (.node f) n)

include h

theorem Node.setText_follows (text : String) : Follows r (.node f)
    ((Action.setText text).on (.node f) n) ((Action.setText text).onModel r (.node f) n.model) := by
  cases n with
  | number field n =>
    have hfield := Widget.settled_number.mp (h (.number field) (List.mem_singleton_self _))
    obtain ⟨origin, hset⟩ := NumberField.setText_eq hfield.2 text
    have hedit : Follows r (.node .number)
        (field.setText text >>= fun e =>
          .ok (e.into (Node.number · n) fun o => Site.announce o (.node .number)))
        (byHand r ((parseNumber text).map .number)) := by
      rw [hset, hfield.1, byHand_bind]
      refine Follows.byHand ?_
      cases hvalue : parseNumber text with
      | error e => exact Follows.error e
      | ok value =>
        have hnew : (Widget.number ⟨text, value, r⟩).Settled r := by
          refine Widget.settled_number.mpr ⟨rfl, fun v hv => ?_⟩
          rw [hvalue] at hv
          cases hv
          rfl
        exact Follows.into rfl (List.forall_mem_singleton.mpr hnew)
    exact hedit.lift
  | text field n =>
    have hfield := Widget.settled_text.mp (h (.text field) (List.mem_singleton_self _))
    exact (TextField.setText_follows (s := .node .text) hfield text (Node.text · n) rfl
      (List.forall_mem_singleton.mpr (Widget.settled_text.mpr rfl))).lift
  | url field n =>
    have hfield := Widget.settled_text.mp (h (.text field) (List.mem_singleton_self _))
    exact (TextField.setText_follows (s := .node .video) hfield text (Node.url · n) rfl
      (List.forall_mem_singleton.mpr (Widget.settled_text.mpr rfl))).lift
  | operation | title | random | related => exact Follows.error _

theorem Node.setOperator_follows (symbol : String) : Follows r (.node f)
    ((Action.setOperator symbol).on (.node f) n)
    ((Action.setOperator symbol).onModel r (.node f) n.model) := by
  cases n with
  | operation o a b n =>
    obtain ⟨hchoice, hoperands⟩ := List.forall_mem_cons.mp h
    have hflag := Widget.settled_operator.mp hchoice
    cases ho : Operator.ofSymbol? symbol with
    | none =>
      simp only [Action.on, Action.onModel, Node.setOperator?, Node.model, Expr.setOperator?,
        OperatorChoice.selectSymbol, ho]
      exact Follows.error _
    | some new =>
      obtain ⟨c, origin, hselected, hc, hselect⟩ := o.selectSymbol_eq ho
      simp only [Action.on, Action.onModel, Node.setOperator?, Node.model, Expr.setOperator?, ho]
      rw [hselect, hflag, byHand_bind]
      refine (Follows.byHand (Follows.into (s := .node .number) ?_ ?_)).lift
      · exact congrArg (Expr.operation · a.model b.model) hselected
      · exact List.forall_mem_cons.mpr
          ⟨Widget.settled_operator.mpr (hc.trans hflag), hoperands⟩
  | number | text | title | url | random | related => exact Follows.error _

end Nodes

theorem StatementNode.selectVariable_follows {n : StatementNode}
    (h : Site.Settled r .statement n) (name : String) : Follows r .statement
      (n.selectVariable name) (n.model.selectVariable r name) := by
  unfold Statement.selectVariable
  by_cases hname : name ∈ variableNames
  · rw [if_pos hname]
    cases n with
    | get c n =>
      have hc := Widget.settled_name.mp (h (.name c) (List.mem_singleton_self _))
      obtain ⟨c', origin, rfl, hc', hselect⟩ := c.selectName_eq hname
      simp only [StatementNode.selectVariable]
      rw [hselect, hc, byHand_bind]
      exact Follows.byHand (Follows.into (s := .statement) rfl
        (List.forall_mem_singleton.mpr (Widget.settled_name.mpr (hc'.trans hc))))
    | set c value n =>
      obtain ⟨hchoice, hvalue⟩ := List.forall_mem_cons.mp h
      have hc := Widget.settled_name.mp hchoice
      obtain ⟨c', origin, rfl, hc', hselect⟩ := c.selectName_eq hname
      simp only [StatementNode.selectVariable]
      rw [hselect, hc, byHand_bind]
      exact Follows.byHand (Follows.into (s := .statement) rfl
        (List.forall_mem_cons.mpr ⟨Widget.settled_name.mpr (hc'.trans hc), hvalue⟩))
  · rw [if_neg hname]
    have hunknown : ∀ c : VariableChoice, c.selectName name = .error (.unknownVariable name) :=
      fun c => if_neg hname
    cases n with
    | get c n | set c value n =>
      simp only [StatementNode.selectVariable]
      rw [hunknown c]
      exact Follows.error _

theorem SceneNode.widgets_comment (n : SceneNode) : n.frame.comment.widgets ⊆ n.widgets := by
  intro w hw
  cases n with
  | text f t | video f source offset =>
    simp only [frame] at hw
    simp only [widgets, List.mem_append, hw, true_or]

theorem SceneNode.mem_widgets_withComment {n : SceneNode} {comment : CommentBox} {w : Widget}
    (h : w ∈ (n.withFrame { n.frame with comment }).widgets) :
    w ∈ comment.widgets ∨ w ∈ n.widgets := by
  cases n with
  | text f t | video f source offset =>
    simp only [withFrame, frame, widgets, List.mem_append] at h ⊢
    grind

/-- Only the comment box is edited, and what is edited in it can be edited as before. -/
theorem SceneNode.settled_withComment {n : SceneNode} (h : Site.Settled r .scene n)
    {comment : CommentBox} (htitle : comment.title.readOnly = r)
    (hcomment : comment.comment.readOnly = r) :
    Site.Settled r .scene (n.withFrame { n.frame with comment }) := by
  have hbox : ∀ w ∈ comment.widgets, w.Settled r :=
    List.forall_mem_cons.mpr ⟨Widget.settled_text.mpr htitle,
      List.forall_mem_singleton.mpr (Widget.settled_text.mpr hcomment)⟩
  intro w hw
  rcases mem_widgets_withComment hw with hw | hw
  · exact hbox w hw
  · exact h w hw

theorem SceneNode.settled_comment {n : SceneNode} (h : Site.Settled r .scene n) :
    n.frame.comment.title.readOnly = r ∧ n.frame.comment.comment.readOnly = r := by
  have hcomment : ∀ w ∈ n.frame.comment.widgets, w.Settled r :=
    fun w hw => h w (n.widgets_comment hw)
  obtain ⟨htitle, hrest⟩ := List.forall_mem_cons.mp hcomment
  exact ⟨Widget.settled_text.mp htitle,
    Widget.settled_text.mp (List.forall_mem_singleton.mp hrest)⟩

theorem SceneNode.setTitle_follows {n : SceneNode} (h : Site.Settled r .scene n) (text : String) :
    Follows r .scene (n.setTitle text) (byHand r (.ok (n.model.withTitle text))) := by
  obtain ⟨htitle, hcomment⟩ := SceneNode.settled_comment h
  obtain ⟨origin, hset⟩ := n.frame.comment.title.setText_eq text
  simp only [SceneNode.setTitle, SceneNode.editComment, CommentBox.setTitle]
  rw [hset, htitle, byHand_bind, byHand_bind]
  refine Follows.byHand (Follows.into (s := .scene) ?_ (settled_withComment h rfl hcomment))
  cases n <;> rfl

theorem SceneNode.setComment_follows {n : SceneNode} (h : Site.Settled r .scene n)
    (text : String) :
    Follows r .scene (n.setComment text) (byHand r (.ok (n.model.withComment text))) := by
  obtain ⟨htitle, hcomment⟩ := SceneNode.settled_comment h
  obtain ⟨origin, hset⟩ := n.frame.comment.comment.setText_eq text
  simp only [SceneNode.setComment, SceneNode.editComment, CommentBox.setComment]
  rw [hset, hcomment, byHand_bind, byHand_bind]
  refine Follows.byHand (Follows.into (s := .scene) ?_ (settled_withComment h htitle rfl))
  cases n <;> rfl

/-! ## Slots -/

section Slots

variable {f : Family} {s : Slot f} (h : Site.Settled r (.slot f) s)

include h

theorem Slot.readOnly_frame : s.frame.readOnly = r := by
  cases s with
  | empty frame | full frame node =>
    exact Widget.settled_frame.mp (h _ (List.mem_cons_self ..))

theorem Slot.settled_withFrame (frame : Frame) (hframe : frame.readOnly = r) :
    Site.Settled r (.slot f) (s.withFrame frame) := by
  cases s with
  | empty old => exact List.forall_mem_singleton.mpr (Widget.settled_frame.mpr hframe)
  | full old node =>
    obtain ⟨-, hnode⟩ := List.forall_mem_cons.mp h
    exact List.forall_mem_cons.mpr ⟨Widget.settled_frame.mpr hframe, hnode⟩

/-- Whatever a slot held, it then holds the expression, with the flag of the slot on all of it. -/
theorem Slot.fill_follows (e : Expr f) :
    Follows r (.slot f) (s.fill e) (.ok e : Except EditorError _) := by
  have hnew : Site.Settled r (.slot f) ((Slot.ofExpr e).setReadOnly r) :=
    (Slot.settled_ofExpr e).setReadOnly r
  have hframe := Slot.readOnly_frame h
  have hmodel : (((Slot.ofExpr e).setReadOnly r).withFrame s.frame).model = e := by
    rw [Slot.model_withFrame, Slot.model_setReadOnly, Slot.model_ofExpr]
  unfold fill
  rw [Slot.new_eq, bind_ok, hframe]
  exact Follows.ok (s := .slot f) ((Slot.model_announce ..).trans hmodel)
    (Site.Settled.announce (s := .slot f) (Slot.settled_withFrame hnew s.frame hframe) _)

theorem Slot.clear_follows : Follows r (.slot f) s.clear
    (if s.model.isGap then .error (.slotNotOccupied (.expr f)) else .ok .gap) := by
  have hframe := Slot.readOnly_frame h
  cases s with
  | empty frame => exact Follows.error _
  | full frame node =>
    have hshown : node.model.isGap = false := by cases node <;> rfl
    simp only [Slot.model, hshown, Bool.false_eq_true, if_false]
    exact Follows.ok (s := .slot f) rfl
      (List.forall_mem_singleton.mpr (Widget.settled_frame.mpr hframe))

end Slots

/-! ## Lists -/

theorem ListEditor.append_eq {α : Type} [Entry α] (l : ListEditor α) (m : Entry.Model α) :
    l.append m = (Entry.build m).map fun entry =>
      ⟨⟨l.items ++ [Entry.setReadOnly l.gap.readOnly entry], l.gap.announce (some .listAppended)⟩,
        some .listAppended⟩ := by
  unfold append
  cases Entry.build m <;> rfl

theorem ListEditor.append_eq_ok {α : Type} [Entry α] {m : Entry.Model α}
    (h : ∃ entry : α, Entry.build m = .ok entry) (l : ListEditor α) : ∃ e, l.append m = .ok e := by
  obtain ⟨entry, hentry⟩ := h
  rw [append_eq, hentry]
  exact ⟨_, rfl⟩

theorem BuildsWith.map_grown {names : List String} {x : Except EditorError α}
    (h : BuildsWith names x) (ms : List β) (m : β) :
    x.map (fun _ => ms ++ [m]) = grown names ms m := by
  unfold BuildsWith at h
  unfold grown
  cases hfind : names.find? (· ∉ variableNames) with
  | none =>
    rw [hfind] at h
    obtain ⟨a, rfl⟩ := h
    rfl
  | some name =>
    rw [hfind] at h
    rw [h]
    rfl

/-- Where all names are known, nothing fails. -/
theorem BuildsWith.exists_ok {names : List String} {x : Except EditorError α}
    (h : BuildsWith names x) (hnames : ∀ name ∈ names, name ∈ variableNames) : ∃ a, x = .ok a := by
  have hknown : names.find? (· ∉ variableNames) = none :=
    List.find?_eq_none.mpr fun name hname => by simp [hnames name hname]
  unfold BuildsWith at h
  rwa [hknown] at h

theorem ListEditor.append_follows {α β : Type} [Entry α] {t : Target} {widgets : α → List Widget}
    {model : α → β} {names : List String} {l : ListEditor α} {m : Entry.Model α} {b : β}
    (hbuilds : BuildsWith names (Entry.build m))
    (hentry : ∀ entry, Entry.build m = .ok entry → model (Entry.setReadOnly r entry) = b ∧
      ∀ w ∈ widgets (Entry.setReadOnly r entry), w.Settled r)
    (h : ∀ w ∈ l.widgets t widgets, w.Settled r) :
    (l.append m).map (fun e => e.part.items.map model) = grown names (l.items.map model) b ∧
      ∀ e, l.append m = .ok e → ∀ w ∈ e.part.widgets t widgets, w.Settled r := by
  obtain ⟨hitems, hgap⟩ := ListEditor.settled_iff.mp h
  rw [← hbuilds.map_grown, append_eq, hgap]
  cases hbuild : Entry.build m with
  | error e => exact ⟨rfl, nofun⟩
  | ok entry =>
    obtain ⟨hmodel, hsettled⟩ := hentry entry hbuild
    refine ⟨congrArg Except.ok ?_, ?_⟩
    · simp only [List.map_append, List.map_cons, List.map_nil, hmodel]
    · rintro _ ⟨⟩
      refine ListEditor.settled_iff.mpr ⟨?_, hgap⟩
      exact List.forall_mem_append.mpr ⟨hitems, List.forall_mem_singleton.mpr hsettled⟩

theorem StatementNode.buildsWith (s : Statement) :
    BuildsWith [s.variable] (StatementNode.build s) := by
  rw [StatementNode.build_eq]
  exact StatementNode.buildsWith_new s

theorem SceneNode.buildsWith (s : Scene) : BuildsWith s.variables (SceneNode.build s) := by
  rw [SceneNode.build_eq]
  exact SceneNode.buildsWith_new s

theorem ListEditor.appendStatement_follows {l : ListEditor StatementNode}
    (h : Site.Settled r .commands l) (s : Statement) : Follows r .commands
      (l.append s) (grown [s.variable] (l.items.map StatementNode.model) s) := by
  obtain ⟨hmodel, hsettled⟩ := ListEditor.append_follows (StatementNode.buildsWith s)
    (fun entry hentry =>
      have hbuilt := StatementNode.built_of_build hentry
      ⟨(Site.model_setReadOnly r .statement entry).trans hbuilt.model, hbuilt.settled.setReadOnly r⟩) h
  exact ⟨hmodel, hsettled⟩

theorem ListEditor.appendScene_follows {l : ListEditor SceneNode} (h : Site.Settled r .scenes l)
    (s : Scene) : Follows r .scenes
      (l.append s) (grown s.variables (l.items.map SceneNode.model) s) := by
  obtain ⟨hmodel, hsettled⟩ := ListEditor.append_follows (SceneNode.buildsWith s)
    (fun entry hentry =>
      have hbuilt := SceneNode.built_of_build hentry
      ⟨(Site.model_setReadOnly r .scene entry).trans hbuilt.model, hbuilt.settled.setReadOnly r⟩) h
  exact ⟨hmodel, hsettled⟩

theorem SequenceNode.addCommand_follows {n : SequenceNode} (h : Site.Settled r .sequence n)
    (s : Statement) : Follows r .sequence (n.addCommand s)
      ((grown [s.variable] n.model.commands s).map CommandSequence.mk) := by
  have happend : Follows r .commands (n.commands.append s)
      (grown [s.variable] n.model.commands s) := ListEditor.appendStatement_follows h s
  unfold addCommand
  rw [← happend.model]
  cases hx : n.commands.append s with
  | error e => exact Follows.error e
  | ok e => exact Follows.ok (s := .sequence) rfl (happend.settled e hx)

theorem ActNode.addScene_follows {n : ActNode} (h : Site.Settled r .act n) (s : Scene) :
    Follows r .act (n.addScene s) ((grown s.variables n.model.scenes s).map Act.mk) := by
  have happend : Follows r .scenes (n.scenes.append s) (grown s.variables n.model.scenes s) :=
    ListEditor.appendScene_follows h s
  unfold addScene
  rw [← happend.model]
  cases hx : n.scenes.append s with
  | error e => exact Follows.error e
  | ok e => exact Follows.ok (s := .act) rfl (happend.settled e hx)

/-! ## Targets and actions -/

/-- A target of its category fails to take a component only at its first name that is no variable,
also if the component is a gap. -/
theorem Target.buildsWith_accept {t : Target} {c : Component} (hc : t.accepts c = true)
    (part : t.Part) : BuildsWith c.variables (t.accept part c) := by
  have hcategory : c.category = t.category := eq_of_beq hc
  cases t with
  | slot f =>
    cases c with
    | expr e =>
      cases hcategory
      obtain ⟨filled, hfill, -⟩ := Slot.fill_eq_ok part e
      refine ⟨filled, ?_⟩
      simp only [accept, Slot.fillComponent, Component.expr?, dite_true]
      exact hfill
    | statement | scene | sequence | act => cases hcategory
  | commands =>
    cases c with
    | statement s => exact (StatementNode.buildsWith s).map
    | expr | scene | sequence | act => cases hcategory
  | scenes =>
    cases c with
    | scene s => exact (SceneNode.buildsWith s).map
    | expr | statement | sequence | act => cases hcategory

theorem Target.accept_follows (c : Component) : ∀ {t : Target} {p : t.Part},
    t.site.Settled r p → Follows r t.site (t.accept p c) (t.acceptModel c (t.site.model p))
  | slot f, p, h => by
    simp only [accept, Slot.fillComponent, acceptModel]
    cases c.expr? f with
    | none => exact Follows.error _
    | some e => exact Slot.fill_follows h e
  | commands, p, h => by
    cases c with
    | statement s => exact ListEditor.appendStatement_follows h s
    | expr | scene | sequence | act => exact Follows.error _
  | scenes, p, h => by
    cases c with
    | scene s => exact ListEditor.appendScene_follows h s
    | expr | statement | sequence | act => exact Follows.error _

namespace Action

theorem converted_follows {s : Site} {c : Component} {m : Option α}
    {x : α → Except EditorError (Edited s.Part)} {y : α → Except EditorError s.Model}
    (h : ∀ a, Follows r s (x a) (y a)) :
    Follows r s (do lift (x (← converted c m))) (do lift (y (← converted c m))) := by
  cases m with
  | none => exact Follows.error _
  | some a => exact (h a).lift

/-- What an action does to the script of a settled part depends on that script and the flag. -/
theorem on_follows (a : Action) {s : Site} {p : s.Part} (h : s.Settled r p) :
    Follows r s (a.on s p) (a.onModel r s (s.model p)) := by
  cases a with
  | setText text =>
    cases s with
    | node f => exact Node.setText_follows h text
    | _ => exact Follows.error _
  | setOperator symbol =>
    cases s with
    | node f => exact Node.setOperator_follows h symbol
    | _ => exact Follows.error _
  | selectVariable name =>
    cases s with
    | statement => exact (StatementNode.selectVariable_follows h name).lift
    | _ => exact Follows.error _
  | setTitle text =>
    cases s with
    | scene => exact (SceneNode.setTitle_follows h text).lift
    | _ => exact Follows.error _
  | setComment text =>
    cases s with
    | scene => exact (SceneNode.setComment_follows h text).lift
    | _ => exact Follows.error _
  | fill c =>
    cases s with
    | slot f =>
      simp only [on, onModel]
      cases c.expr? f with
      | none => exact Follows.error _
      | some e => exact (Slot.fill_follows h e).lift
    | _ => exact Follows.error _
  | fillComponent c =>
    cases s with
    | slot f => exact (Target.accept_follows c (t := .slot f) h).lift
    | _ => exact Follows.error _
  | clear =>
    cases s with
    | slot f => exact (Slot.clear_follows h).lift
    | _ => exact Follows.error _
  | append c =>
    cases s with
    | act => exact converted_follows (ActNode.addScene_follows h)
    | sequence => exact converted_follows (SequenceNode.addCommand_follows h)
    | commands => exact converted_follows (ListEditor.appendStatement_follows h)
    | scenes => exact converted_follows (ListEditor.appendScene_follows h)
    | _ => exact Follows.error _
  | appendComponent c =>
    cases s with
    | commands => exact (Target.accept_follows c (t := .commands) h).lift
    | scenes => exact (Target.accept_follows c (t := .scenes) h).lift
    | _ => exact Follows.error _

end Action

end SceneScript
