import SceneScript.Proofs.Editor.Built
import SceneScript.Proofs.Editor.Relabeling

/-! The script of a tree. Flags, highlights and counters are no part of it, and a tree built from a
script is a tree of that script. Every node shows an expression, so no gap. -/

namespace SceneScript

/-- A slot is full where its expression is no gap. -/
theorem Slot.isFull_eq {f : Family} : ∀ s : Slot f, s.isFull = !s.model.isGap
  | .empty _ => rfl
  | .full _ node => by cases node <;> rfl

/-! ## Flags, highlights and counts -/

section Relabel

variable (m : Relabeling)

mutual

theorem Node.model_relabel : ∀ {f : Family} (n : Node f), (n.relabel m).model = n.model
  | _, .number _ _ | _, .text _ _ | _, .url _ _ => rfl
  | _, .operation _ x y _ => by
    simp only [Node.relabel, Node.model]
    rw [x.model_relabel, y.model_relabel]
    rfl
  | _, .title v _ | _, .related v _ => by
    simp only [Node.relabel, Node.model]
    rw [v.model_relabel]
  | _, .random c _ => by
    simp only [Node.relabel, Node.model]
    rw [c.model_relabel]

theorem Slot.model_relabel : ∀ {f : Family} (s : Slot f), (s.relabel m).model = s.model
  | _, .empty _ => rfl
  | _, .full _ node => node.model_relabel

end

theorem StatementNode.model_relabel : ∀ s : StatementNode, (s.relabel m).model = s.model
  | get _ _ => rfl
  | set name value _ => congrArg (Statement.set name.selected) (value.model_relabel m)

theorem ListEditor.map_relabel {α β : Type} {model : α → β} {item : α → α} {c : Category}
    (h : ∀ a, model (item a) = model a) (l : ListEditor α) :
    (l.relabel m c item).items.map model = l.items.map model := by
  simp only [relabel, mapFlags, List.map_map, Function.comp_def, h]

theorem SequenceNode.model_relabel (s : SequenceNode) : (s.relabel m).model = s.model :=
  congrArg CommandSequence.mk (s.commands.map_relabel m (StatementNode.model_relabel m))

theorem SceneNode.model_relabel : ∀ s : SceneNode, (s.relabel m).model = s.model
  | text f t => by
    simp only [SceneNode.relabel, SceneFrame.relabel, model]
    rw [f.duration.model_relabel, f.preCommands.model_relabel, f.postCommands.model_relabel,
      t.model_relabel]
    rfl
  | video f source offset => by
    simp only [SceneNode.relabel, SceneFrame.relabel, model]
    rw [f.duration.model_relabel, f.preCommands.model_relabel, f.postCommands.model_relabel,
      source.model_relabel, offset.model_relabel]
    rfl

/-- What stands beside the script is no part of it. -/
theorem Site.model_relabel : ∀ (s : Site) (p : s.Part), s.model (s.relabel m p) = s.model p
  | slot _, p => p.model_relabel m
  | node _, p => p.model_relabel m
  | statement, p => p.model_relabel m
  | commands, p => p.map_relabel m (StatementNode.model_relabel m)
  | sequence, p => p.model_relabel m
  | scene, p => p.model_relabel m
  | scenes, p => p.map_relabel m (SceneNode.model_relabel m)
  | act, p => congrArg Act.mk (p.scenes.map_relabel m (SceneNode.model_relabel m))

end Relabel

theorem Site.model_setReadOnly (r : Bool) (s : Site) (p : s.Part) :
    s.model (s.setReadOnly r p) = s.model p := by
  rw [s.setReadOnly_eq, s.model_relabel]

theorem Site.model_highlight (wanted : Category → Bool) (s : Site) (p : s.Part) :
    s.model (s.highlight wanted p) = s.model p := by
  rw [s.highlight_eq, s.model_relabel]

theorem Slot.model_setReadOnly (r : Bool) {f : Family} (s : Slot f) :
    (s.setReadOnly r).model = s.model :=
  Site.model_setReadOnly r (.slot f) s

theorem ActNode.model_setReadOnly (r : Bool) (a : ActNode) : (a.setReadOnly r).model = a.model :=
  Site.model_setReadOnly r .act a

theorem ActNode.model_highlight (wanted : Category → Bool) (a : ActNode) :
    (a.highlight wanted).model = a.model :=
  Site.model_highlight wanted .act a

/-! ## Announcements -/

theorem Slot.model_withFrame {f : Family} (frame : Frame) (s : Slot f) :
    (s.withFrame frame).model = s.model := by
  cases s <;> rfl

theorem Slot.model_announce (o : Option Origin) {f : Family} (s : Slot f) :
    (s.announce o).model = s.model :=
  s.model_withFrame _

theorem Site.model_announce (o : Option Origin) : ∀ (s : Site) (p : s.Part),
    s.model (s.announce o p) = s.model p
  | .slot _, p => Slot.model_announce o p
  | .node _, p => by cases p <;> rfl
  | .statement, p => by cases p <;> rfl
  | .commands, _ | .sequence, _ | .scenes, _ | .act, _ => rfl
  | .scene, p => by cases p <;> rfl

/-! ## Building -/

theorem OperatorChoice.selected_showing (o : Operator) :
    (OperatorChoice.showing o).selected = o := by
  cases o <;> rfl

theorem Slot.model_ofExpr {f : Family} (e : Expr f) : (Slot.ofExpr e).model = e := by
  induction e with
  | gap | number _ | text _ | url _ => rfl
  | operation o a b iha ihb =>
    simp only [Slot.ofExpr, Slot.model, Node.model]
    rw [OperatorChoice.selected_showing, iha, ihb]
  | titleOf v ih | relatedTo v ih =>
    simp only [Slot.ofExpr, Slot.model, Node.model]
    rw [ih]
  | randomFrom c ih =>
    simp only [Slot.ofExpr, Slot.model, Node.model]
    rw [ih]

theorem StatementNode.Built.model {s : Statement} {n : StatementNode} (h : n.Built s) :
    n.model = s := by
  cases h with
  | get => rfl
  | set _ value => exact congrArg (Statement.set _) (Slot.model_ofExpr value)

theorem map_of_forall₂ {α β : Type} {Built : α → β → Prop} (model : β → α)
    (h : ∀ {a b}, Built a b → model b = a) {as : List α} {bs : List β}
    (hbs : List.Forall₂ Built as bs) : bs.map model = as := by
  induction hbs with
  | nil => rfl
  | cons hb _ ih => rw [List.map_cons, h hb, ih]

theorem SequenceNode.Built.model {s : CommandSequence} {n : SequenceNode} (h : n.Built s) :
    n.model = s := by
  cases h with
  | mk hitems =>
    exact congrArg CommandSequence.mk
      (map_of_forall₂ StatementNode.model StatementNode.Built.model hitems)

theorem SceneNode.Built.model {s : Scene} {n : SceneNode} (h : n.Built s) : n.model = s := by
  cases h with
  | text hpre hpost =>
    simp only [SceneNode.model, Slot.model_ofExpr, hpre.model, hpost.model]
    rfl
  | video hpre hpost =>
    simp only [SceneNode.model, Slot.model_ofExpr, hpre.model, hpost.model]
    rfl

theorem ActNode.Built.model {a : Act} {n : ActNode} (h : n.Built a) : n.model = a := by
  cases h with
  | mk hitems =>
    exact congrArg Act.mk (map_of_forall₂ SceneNode.model SceneNode.Built.model hitems)

end SceneScript
