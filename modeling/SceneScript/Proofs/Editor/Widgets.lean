import SceneScript.Proofs.Editor.Relabeling

/-! What a tree shows: its controls and its drop targets, wherever they are. Flags and highlights
are set on each of them and on nothing else, an announcement changes none, and an edit of a part
leaves those outside the part as they were. -/

namespace SceneScript

/-! ## Controls and targets -/

/-- A control with what it holds, or a drop target with what it shows. -/
inductive Widget
  | text (field : TextField)
  | number (field : NumberField)
  | operator (choice : OperatorChoice)
  | name (choice : VariableChoice)
  | target (t : Target) (full readOnly highlighted : Bool)
deriving DecidableEq

namespace Widget

def readOnly : Widget → Bool
  | text field => field.readOnly
  | number field => field.readOnly
  | operator choice => choice.readOnly
  | name choice => choice.readOnly
  | target _ _ readOnly _ => readOnly

def setReadOnly (r : Bool) : Widget → Widget
  | text field => text (field.setReadOnly r)
  | number field => number (field.setReadOnly r)
  | operator choice => operator (choice.setReadOnly r)
  | name choice => name (choice.setReadOnly r)
  | target t full _ highlighted => target t full r highlighted

def highlight (wanted : Category → Bool) : Widget → Widget
  | target t full readOnly _ => target t full readOnly (!readOnly && wanted t.category)
  | w => w

def relabel (m : Relabeling) : Widget → Widget
  | text field => text (field.relabel m)
  | number field => number (field.relabel m)
  | operator choice => operator (choice.relabel m)
  | name choice => name (choice.relabel m)
  | target t full readOnly highlighted =>
    target t full (m.readOnly readOnly) (m.highlighted t.category readOnly highlighted)

theorem setReadOnly_eq (r : Bool) : setReadOnly r = relabel (.setReadOnly r) := by
  funext w
  cases w <;> rfl

theorem highlight_eq (wanted : Category → Bool) :
    highlight wanted = relabel (.highlight wanted) := by
  funext w
  cases w <;> rfl

theorem readOnly_relabel (m : Relabeling) (w : Widget) :
    (w.relabel m).readOnly = m.readOnly w.readOnly := by
  cases w <;> rfl

end Widget

/-- The widget of a slot or a list gap. -/
def Frame.widget (t : Target) (full : Bool) (f : Frame) : Widget :=
  .target t full f.readOnly f.highlighted

mutual

def Node.widgets : {f : Family} → Node f → List Widget
  | _, .number field _ => [.number field]
  | _, .operation o a b _ => .operator o :: (a.widgets ++ b.widgets)
  | _, .text field _ => [.text field]
  | _, .title v _ => v.widgets
  | _, .url field _ => [.text field]
  | _, .random c _ => c.widgets
  | _, .related v _ => v.widgets

def Slot.widgets : {f : Family} → Slot f → List Widget
  | f, .empty frame => [frame.widget (.slot f) false]
  | f, .full frame node => frame.widget (.slot f) true :: node.widgets

end

def StatementNode.widgets : StatementNode → List Widget
  | get name _ => [.name name]
  | set name value _ => .name name :: value.widgets

def ListEditor.widgets {α : Type} (t : Target) (item : α → List Widget) (l : ListEditor α) :
    List Widget :=
  l.items.flatMap item ++ [l.gap.widget t false]

def SequenceNode.widgets (s : SequenceNode) : List Widget :=
  s.commands.widgets .commands StatementNode.widgets

def CommentBox.widgets (b : CommentBox) : List Widget := [.text b.title, .text b.comment]

def SceneNode.widgets : SceneNode → List Widget
  | text f t =>
    f.comment.widgets ++ f.preCommands.widgets ++ t.widgets ++ f.duration.widgets
      ++ f.postCommands.widgets
  | video f source offset =>
    f.comment.widgets ++ f.preCommands.widgets ++ source.widgets ++ f.duration.widgets
      ++ offset.widgets ++ f.postCommands.widgets

def ActNode.widgets (a : ActNode) : List Widget := a.scenes.widgets .scenes SceneNode.widgets

def Site.widgets : (s : Site) → s.Part → List Widget
  | slot _, p => p.widgets
  | node _, p => p.widgets
  | statement, p => p.widgets
  | commands, p => p.widgets .commands StatementNode.widgets
  | sequence, p => p.widgets
  | scene, p => p.widgets
  | scenes, p => p.widgets .scenes SceneNode.widgets
  | act, p => p.widgets

/-! ## Flags and highlights -/

section Relabel

variable (m : Relabeling)

mutual

theorem Node.widgets_relabel : ∀ {f : Family} (n : Node f),
    (n.relabel m).widgets = n.widgets.map (Widget.relabel m)
  | _, .number _ _ | _, .text _ _ | _, .url _ _ => rfl
  | _, .operation _ x y _ => by
    simp only [Node.relabel, Node.widgets, List.map_cons, List.map_append]
    rw [x.widgets_relabel, y.widgets_relabel]
    rfl
  | _, .title v _ | _, .related v _ => v.widgets_relabel
  | _, .random c _ => c.widgets_relabel

theorem Slot.widgets_relabel : ∀ {f : Family} (s : Slot f),
    (s.relabel m).widgets = s.widgets.map (Widget.relabel m)
  | _, .empty _ => rfl
  | _, .full _ node => congrArg (_ :: ·) node.widgets_relabel

end

theorem StatementNode.widgets_relabel : ∀ s : StatementNode,
    (s.relabel m).widgets = s.widgets.map (Widget.relabel m)
  | get _ _ => rfl
  | set _ value _ => congrArg (_ :: ·) (value.widgets_relabel m)

theorem ListEditor.widgets_relabel {α : Type} {t : Target} {widgets : α → List Widget}
    {item : α → α} (h : ∀ a, widgets (item a) = (widgets a).map (Widget.relabel m))
    (l : ListEditor α) :
    (l.relabel m t.category item).widgets t widgets =
      (l.widgets t widgets).map (Widget.relabel m) := by
  simp only [ListEditor.widgets, relabel, mapFlags, List.flatMap_map, List.map_append,
    List.map_flatMap, h, List.map_cons, List.map_nil]
  rfl

theorem SequenceNode.widgets_relabel (s : SequenceNode) :
    (s.relabel m).widgets = s.widgets.map (Widget.relabel m) :=
  s.commands.widgets_relabel m (StatementNode.widgets_relabel m)

theorem SceneNode.widgets_relabel : ∀ s : SceneNode,
    (s.relabel m).widgets = s.widgets.map (Widget.relabel m)
  | text f t => by
    simp only [SceneNode.relabel, SceneFrame.relabel, widgets, List.map_append]
    rw [f.preCommands.widgets_relabel, t.widgets_relabel, f.duration.widgets_relabel,
      f.postCommands.widgets_relabel]
    rfl
  | video f source offset => by
    simp only [SceneNode.relabel, SceneFrame.relabel, widgets, List.map_append]
    rw [f.preCommands.widgets_relabel, source.widgets_relabel, f.duration.widgets_relabel,
      offset.widgets_relabel, f.postCommands.widgets_relabel]
    rfl

theorem Site.widgets_relabel : ∀ (s : Site) (p : s.Part),
    s.widgets (s.relabel m p) = (s.widgets p).map (Widget.relabel m)
  | slot _, p => p.widgets_relabel m
  | node _, p => p.widgets_relabel m
  | statement, p => p.widgets_relabel m
  | commands, p => p.widgets_relabel m (StatementNode.widgets_relabel m)
  | sequence, p => p.widgets_relabel m
  | scene, p => p.widgets_relabel m
  | scenes, p => p.widgets_relabel m (SceneNode.widgets_relabel m)
  | act, p => p.scenes.widgets_relabel m (SceneNode.widgets_relabel m)

end Relabel

/-- Setting the flag of a part sets it on all its widgets. -/
theorem Site.widgets_setReadOnly (r : Bool) (s : Site) (p : s.Part) :
    s.widgets (s.setReadOnly r p) = (s.widgets p).map (Widget.setReadOnly r) := by
  rw [s.setReadOnly_eq, s.widgets_relabel, Widget.setReadOnly_eq]

/-- Highlighting a part highlights the targets among its widgets. -/
theorem Site.widgets_highlight (wanted : Category → Bool) (s : Site) (p : s.Part) :
    s.widgets (s.highlight wanted p) = (s.widgets p).map (Widget.highlight wanted) := by
  rw [s.highlight_eq, s.widgets_relabel, Widget.highlight_eq]

/-! ## Edits -/

theorem Site.widgets_announce (o : Option Origin) : ∀ (s : Site) (p : s.Part),
    s.widgets (s.announce o p) = s.widgets p
  | slot _, p => by cases p <;> rfl
  | node _, p => by cases p <;> rfl
  | statement, p => by cases p <;> rfl
  | commands, _ | sequence, _ | scenes, _ | act, _ => rfl
  | scene, p => by cases p <;> rfl

namespace Step

/-- A part shows what the parts inside it show. -/
theorem widgets_get? {a b : Site} {s : Step a b} {p : a.Part} {q : b.Part}
    (h : s.get? p = some q) : b.widgets q ⊆ a.widgets p := by
  intro w hw
  cases s with
  | occupant =>
    cases p <;> cases h
    exact List.mem_cons_of_mem _ hw
  | op1 =>
    cases p <;> cases h
    exact List.mem_cons_of_mem _ (List.mem_append_left _ hw)
  | op2 =>
    cases p <;> cases h
    exact List.mem_cons_of_mem _ (List.mem_append_right _ hw)
  | titleVideo | collection | relatedVideo =>
    cases p <;> cases h
    exact hw
  | value =>
    cases p <;> cases h
    exact List.mem_cons_of_mem _ hw
  | command i | scene i =>
    exact List.mem_append_left _ (List.mem_flatMap.mpr ⟨q, List.mem_of_getElem? h, hw⟩)
  | commands | scenes =>
    cases h
    exact hw
  | preCommands | postCommands | duration | text | source | offset =>
    cases p <;> cases h <;>
      simp only [Site.widgets, SceneNode.widgets, SceneNode.frame, List.mem_append] at hw ⊢ <;>
      simp only [hw, true_or, or_true]

/-- What a part shows after another was put into it comes from either. -/
theorem mem_widgets_put {a b : Site} {s : Step a b} {q : b.Part} {p : a.Part} {w : Widget}
    (h : w ∈ a.widgets (s.put q p)) : w ∈ b.widgets q ∨ w ∈ a.widgets p := by
  cases s with
  | occupant =>
    cases p with
    | empty frame => exact .inr h
    | full frame node =>
      rcases List.mem_cons.mp h with rfl | h
      · exact .inr (List.mem_cons_self ..)
      · exact .inl h
  | op1 | op2 =>
    cases p with
    | operation o a b n =>
      simp only [put, Site.widgets, Node.widgets, List.mem_cons, List.mem_append] at h ⊢
      grind
    | number field n => exact .inr h
  | titleVideo | collection | relatedVideo =>
    cases p <;> first | exact .inl h | exact .inr h
  | value =>
    cases p with
    | get name n => exact .inr h
    | set name v n =>
      rcases List.mem_cons.mp h with rfl | h
      · exact .inr (List.mem_cons_self ..)
      · exact .inl h
  | command i | scene i =>
    rcases List.mem_append.mp h with h | h
    · obtain ⟨item, hitem, hw⟩ := List.mem_flatMap.mp h
      rcases List.mem_or_eq_of_mem_set hitem with hitem | rfl
      · exact .inr (List.mem_append_left _ (List.mem_flatMap.mpr ⟨item, hitem, hw⟩))
      · exact .inl hw
    · exact .inr (List.mem_append_right _ h)
  | commands | scenes => exact .inl h
  | preCommands | postCommands | duration | text | source | offset =>
    cases p <;>
      simp only [put, SceneNode.withFrame, SceneNode.frame, Site.widgets, SceneNode.widgets,
        List.mem_append] at h ⊢ <;> grind

end Step

namespace Path

theorem widgets_get? {a b : Site} {path : Path a b} {p : a.Part} {q : b.Part}
    (h : path.get? p = some q) : b.widgets q ⊆ a.widgets p := by
  induction path with
  | here =>
    cases h
    exact List.Subset.refl _
  | step s rest ih =>
    obtain ⟨inner, hinner, hrest⟩ := Option.bind_eq_some_iff.mp h
    exact List.Subset.trans (ih hrest) (Step.widgets_get? hinner)

theorem mem_widgets_put {a b : Site} {path : Path a b} {e : Edited b.Part} {p : a.Part}
    {w : Widget} (h : w ∈ a.widgets (path.put e p)) : w ∈ b.widgets e.part ∨ w ∈ a.widgets p := by
  induction path with
  | here => exact .inl h
  | step s rest ih =>
    simp only [put] at h
    cases hinner : s.get? p with
    | none =>
      rw [hinner] at h
      exact .inr h
    | some inner =>
      rw [hinner] at h
      simp only [Site.widgets_announce] at h
      rcases Step.mem_widgets_put h with h | h
      · rcases ih h with h | h
        · exact .inl h
        · exact .inr (Step.widgets_get? hinner h)
      · exact .inr h

end Path

end SceneScript
