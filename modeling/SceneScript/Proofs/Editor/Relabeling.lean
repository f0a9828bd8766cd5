import SceneScript.Editor.Target

/-! What stands beside the script at the controls, slots, list gaps and nodes of a tree: flags,
highlights and counts. Setting flags, highlighting and counting anew give each of them another, told
by what it was, and leave the tree as it is. Of two such changes made one after the other there is
one that makes both, and a part that is found before is found after. -/

namespace SceneScript

/-- Other flags, highlights and counts. A highlight may depend on the category of its slot or list
gap, and on the flag there. -/
structure Relabeling where
  readOnly : Bool → Bool
  highlighted : Category → Bool → Bool → Bool
  emitted : Nat → Nat

namespace Relabeling

def setReadOnly (r : Bool) : Relabeling where
  readOnly _ := r
  highlighted _ _ highlighted := highlighted
  emitted n := n

def highlight (wanted : Category → Bool) : Relabeling where
  readOnly readOnly := readOnly
  highlighted c readOnly _ := !readOnly && wanted c
  emitted n := n

/-- First one, then the other. -/
def andThen (m m' : Relabeling) : Relabeling where
  readOnly readOnly := m'.readOnly (m.readOnly readOnly)
  highlighted c readOnly highlighted :=
    m'.highlighted c (m.readOnly readOnly) (m.highlighted c readOnly highlighted)
  emitted n := m'.emitted (m.emitted n)

end Relabeling

/-! ## Relabeled trees -/

section Relabel

variable (m : Relabeling)

def Frame.relabel (c : Category) (frame : Frame) : Frame where
  readOnly := m.readOnly frame.readOnly
  highlighted := m.highlighted c frame.readOnly frame.highlighted
  emitted := m.emitted frame.emitted

def TextField.relabel (field : TextField) : TextField :=
  field.setReadOnly (m.readOnly field.readOnly)

def NumberField.relabel (field : NumberField) : NumberField :=
  field.setReadOnly (m.readOnly field.readOnly)

def Choice.relabel {α : Type} {options : List α} (c : Choice options) : Choice options :=
  c.setReadOnly (m.readOnly c.readOnly)

def CommentBox.relabel (b : CommentBox) : CommentBox := ⟨b.title.relabel m, b.comment.relabel m⟩

mutual

def Node.relabel : {f : Family} → Node f → Node f
  | _, .number field n => .number (field.relabel m) (m.emitted n)
  | _, .operation o x y n => .operation (o.relabel m) x.relabel y.relabel (m.emitted n)
  | _, .text field n => .text (field.relabel m) (m.emitted n)
  | _, .title v n => .title v.relabel (m.emitted n)
  | _, .url field n => .url (field.relabel m) (m.emitted n)
  | _, .random c n => .random c.relabel (m.emitted n)
  | _, .related v n => .related v.relabel (m.emitted n)

def Slot.relabel : {f : Family} → Slot f → Slot f
  | f, .empty frame => .empty (frame.relabel m (.expr f))
  | f, .full frame node => .full (frame.relabel m (.expr f)) node.relabel

end

def StatementNode.relabel : StatementNode → StatementNode
  | get name n => get (name.relabel m) (m.emitted n)
  | set name value n => set (name.relabel m) (value.relabel m) (m.emitted n)

def ListEditor.relabel {α : Type} (c : Category) (item : α → α) (l : ListEditor α) : ListEditor α :=
  l.mapFlags item (Frame.relabel m c)

def SequenceNode.relabel (s : SequenceNode) : SequenceNode :=
  ⟨s.commands.relabel m .statement (StatementNode.relabel m)⟩

def SceneFrame.relabel (f : SceneFrame) : SceneFrame where
  comment := f.comment.relabel m
  duration := f.duration.relabel m
  preCommands := f.preCommands.relabel m
  postCommands := f.postCommands.relabel m
  emitted := m.emitted f.emitted

def SceneNode.relabel : SceneNode → SceneNode
  | text f t => text (f.relabel m) (t.relabel m)
  | video f source offset => video (f.relabel m) (source.relabel m) (offset.relabel m)

def ActNode.relabel (a : ActNode) : ActNode :=
  ⟨a.scenes.relabel m .scene (SceneNode.relabel m), m.emitted a.emitted⟩

def Site.relabel : (s : Site) → s.Part → s.Part
  | slot _, p => p.relabel m
  | node _, p => p.relabel m
  | statement, p => p.relabel m
  | commands, p => p.relabel m .statement (StatementNode.relabel m)
  | sequence, p => p.relabel m
  | scene, p => p.relabel m
  | scenes, p => p.relabel m .scene (SceneNode.relabel m)
  | act, p => p.relabel m

end Relabel

/-! ## Parts of relabeled trees -/

section Parts

variable {a b : Site} (m : Relabeling)

theorem Site.emitted_relabel : ∀ (s : Site) (p : s.Part),
    s.emitted (s.relabel m p) = m.emitted (s.emitted p)
  | slot _, p | node _, p | statement, p | scene, p => by cases p <;> rfl
  | commands, _ | sequence, _ | scenes, _ | act, _ => rfl

theorem Step.get?_relabel (step : Step a b) (p : a.Part) :
    step.get? (a.relabel m p) = (step.get? p).map (b.relabel m) := by
  cases step with
  | occupant | op1 | op2 | titleVideo | collection | relatedVideo | value => cases p <;> rfl
  | preCommands | postCommands | duration | text | source | offset => cases p <;> rfl
  | command i | scene i => exact List.getElem?_map
  | commands | scenes => rfl

theorem Path.get?_relabel (path : Path a b) (p : a.Part) :
    path.get? (a.relabel m p) = (path.get? p).map (b.relabel m) := by
  induction path with
  | here => rfl
  | step step rest ih =>
    simp only [get?, step.get?_relabel]
    cases step.get? p with
    | none => rfl
    | some q => exact ih q

theorem Target.frame_relabel (t : Target) (part : t.Part) :
    t.frame (t.site.relabel m part) = (t.frame part).relabel m t.category := by
  cases t with
  | slot f => cases part <;> rfl
  | commands | scenes => rfl

end Parts

/-! ## One after the other -/

section AndThen

variable (m m' : Relabeling)

mutual

theorem Node.relabel_relabel : ∀ {f : Family} (n : Node f),
    (n.relabel m).relabel m' = n.relabel (m.andThen m')
  | _, .number _ _ | _, .text _ _ | _, .url _ _ => rfl
  | _, .operation o x y _ => by
    simp only [Node.relabel]
    rw [x.relabel_relabel, y.relabel_relabel]
    rfl
  | _, .title v _ | _, .related v _ => by
    simp only [Node.relabel]
    rw [v.relabel_relabel]
    rfl
  | _, .random c _ => by
    simp only [Node.relabel]
    rw [c.relabel_relabel]
    rfl

theorem Slot.relabel_relabel : ∀ {f : Family} (s : Slot f),
    (s.relabel m).relabel m' = s.relabel (m.andThen m')
  | _, .empty _ => rfl
  | f, .full frame node =>
    congrArg (Slot.full (frame.relabel (m.andThen m') (.expr f))) node.relabel_relabel

end

theorem StatementNode.relabel_relabel : ∀ s : StatementNode,
    (s.relabel m).relabel m' = s.relabel (m.andThen m')
  | get _ _ => rfl
  | set name value n => congrArg
    (set (name.relabel (m.andThen m')) · ((m.andThen m').emitted n)) (value.relabel_relabel m m')

theorem ListEditor.relabel_relabel {α : Type} {c : Category} {item item' both : α → α}
    (h : ∀ entry, item' (item entry) = both entry) (l : ListEditor α) :
    (l.relabel m c item).relabel m' c item' = l.relabel (m.andThen m') c both := by
  simp only [relabel, mapFlags, List.map_map, Function.comp_def, h]
  rfl

theorem SequenceNode.relabel_relabel (s : SequenceNode) :
    (s.relabel m).relabel m' = s.relabel (m.andThen m') :=
  congrArg SequenceNode.mk
    (s.commands.relabel_relabel m m' (StatementNode.relabel_relabel m m'))

theorem SceneFrame.relabel_relabel (f : SceneFrame) :
    (f.relabel m).relabel m' = f.relabel (m.andThen m') := by
  simp only [relabel]
  rw [f.duration.relabel_relabel, f.preCommands.relabel_relabel, f.postCommands.relabel_relabel]
  rfl

theorem SceneNode.relabel_relabel : ∀ s : SceneNode,
    (s.relabel m).relabel m' = s.relabel (m.andThen m')
  | text f t => by
    simp only [relabel]
    rw [f.relabel_relabel, t.relabel_relabel]
  | video f source offset => by
    simp only [relabel]
    rw [f.relabel_relabel, source.relabel_relabel, offset.relabel_relabel]

theorem ActNode.relabel_relabel (a : ActNode) :
    (a.relabel m).relabel m' = a.relabel (m.andThen m') :=
  congrArg (ActNode.mk · ((m.andThen m').emitted a.emitted))
    (a.scenes.relabel_relabel m m' (SceneNode.relabel_relabel m m'))

theorem Site.relabel_relabel : ∀ (s : Site) (p : s.Part),
    s.relabel m' (s.relabel m p) = s.relabel (m.andThen m') p
  | slot _, p => p.relabel_relabel m m'
  | node _, p => p.relabel_relabel m m'
  | statement, p => p.relabel_relabel m m'
  | commands, p => p.relabel_relabel m m' (StatementNode.relabel_relabel m m')
  | sequence, p => p.relabel_relabel m m'
  | scene, p => p.relabel_relabel m m'
  | scenes, p => p.relabel_relabel m m' (SceneNode.relabel_relabel m m')
  | act, p => p.relabel_relabel m m'

end AndThen

/-! ## Flags and highlights -/

section ReadOnly

variable (r : Bool)

mutual

theorem Node.setReadOnly_eq : ∀ {f : Family} (n : Node f),
    n.setReadOnly r = n.relabel (.setReadOnly r)
  | _, .number _ _ | _, .text _ _ | _, .url _ _ => rfl
  | _, .operation _ x y _ => by
    rw [Node.setReadOnly, x.setReadOnly_eq, y.setReadOnly_eq]
    rfl
  | _, .title v _ | _, .related v _ => by
    rw [Node.setReadOnly, v.setReadOnly_eq]
    rfl
  | _, .random c _ => by
    rw [Node.setReadOnly, c.setReadOnly_eq]
    rfl

theorem Slot.setReadOnly_eq : ∀ {f : Family} (s : Slot f),
    s.setReadOnly r = s.relabel (.setReadOnly r)
  | _, .empty _ => rfl
  | _, .full _ node => congrArg (Slot.full _) node.setReadOnly_eq

end

theorem StatementNode.setReadOnly_eq :
    StatementNode.setReadOnly r = StatementNode.relabel (.setReadOnly r) := by
  funext s
  cases s with
  | get => rfl
  | set _ value _ => exact congrArg (set _ · _) (value.setReadOnly_eq r)

theorem SequenceNode.setReadOnly_eq (s : SequenceNode) :
    s.setReadOnly r = s.relabel (.setReadOnly r) := by
  rw [setReadOnly, StatementNode.setReadOnly_eq]
  rfl

theorem SceneFrame.setReadOnly_eq (f : SceneFrame) :
    f.setReadOnly r = f.relabel (.setReadOnly r) := by
  rw [setReadOnly, f.duration.setReadOnly_eq, f.preCommands.setReadOnly_eq,
    f.postCommands.setReadOnly_eq]
  rfl

theorem SceneNode.setReadOnly_eq :
    SceneNode.setReadOnly r = SceneNode.relabel (.setReadOnly r) := by
  funext s
  cases s with
  | text f t => rw [setReadOnly, f.setReadOnly_eq, t.setReadOnly_eq, relabel]
  | video f source offset =>
    rw [setReadOnly, f.setReadOnly_eq, source.setReadOnly_eq, offset.setReadOnly_eq, relabel]

theorem Site.setReadOnly_eq (s : Site) (p : s.Part) :
    s.setReadOnly r p = s.relabel (.setReadOnly r) p := by
  cases s with
  | slot => exact p.setReadOnly_eq r
  | node => exact p.setReadOnly_eq r
  | statement => exact congrFun (StatementNode.setReadOnly_eq r) p
  | commands =>
    rw [setReadOnly, StatementNode.setReadOnly_eq]
    rfl
  | sequence => exact p.setReadOnly_eq r
  | scene => exact congrFun (SceneNode.setReadOnly_eq r) p
  | scenes =>
    rw [setReadOnly, SceneNode.setReadOnly_eq]
    rfl
  | act =>
    rw [setReadOnly, ActNode.setReadOnly, SceneNode.setReadOnly_eq]
    rfl

end ReadOnly

section Highlight

variable (wanted : Category → Bool)

mutual

theorem Node.highlight_eq : ∀ {f : Family} (n : Node f),
    n.highlight wanted = n.relabel (.highlight wanted)
  | _, .number _ _ | _, .text _ _ | _, .url _ _ => rfl
  | _, .operation _ x y _ => by
    rw [Node.highlight, x.highlight_eq, y.highlight_eq]
    rfl
  | _, .title v _ | _, .related v _ => by
    rw [Node.highlight, v.highlight_eq]
    rfl
  | _, .random c _ => by
    rw [Node.highlight, c.highlight_eq]
    rfl

theorem Slot.highlight_eq : ∀ {f : Family} (s : Slot f),
    s.highlight wanted = s.relabel (.highlight wanted)
  | _, .empty _ => rfl
  | _, .full _ node => congrArg (Slot.full _) node.highlight_eq

end

theorem StatementNode.highlight_eq :
    StatementNode.highlight wanted = StatementNode.relabel (.highlight wanted) := by
  funext s
  cases s with
  | get => rfl
  | set _ value _ => exact congrArg (set _ · _) (value.highlight_eq wanted)

theorem SequenceNode.highlight_eq (s : SequenceNode) :
    s.highlight wanted = s.relabel (.highlight wanted) := by
  rw [highlight, StatementNode.highlight_eq]
  rfl

theorem SceneFrame.highlight_eq (f : SceneFrame) :
    f.highlight wanted = f.relabel (.highlight wanted) := by
  rw [highlight, f.duration.highlight_eq, f.preCommands.highlight_eq,
    f.postCommands.highlight_eq]
  rfl

theorem SceneNode.highlight_eq :
    SceneNode.highlight wanted = SceneNode.relabel (.highlight wanted) := by
  funext s
  cases s with
  | text f t => rw [highlight, f.highlight_eq, t.highlight_eq, relabel]
  | video f source offset =>
    rw [highlight, f.highlight_eq, source.highlight_eq, offset.highlight_eq, relabel]

theorem Site.highlight_eq (s : Site) (p : s.Part) :
    s.highlight wanted p = s.relabel (.highlight wanted) p := by
  cases s with
  | slot => exact p.highlight_eq wanted
  | node => exact p.highlight_eq wanted
  | statement => exact congrFun (StatementNode.highlight_eq wanted) p
  | commands =>
    rw [highlight, StatementNode.highlight_eq]
    rfl
  | sequence => exact p.highlight_eq wanted
  | scene => exact congrFun (SceneNode.highlight_eq wanted) p
  | scenes =>
    rw [highlight, SceneNode.highlight_eq]
    rfl
  | act =>
    rw [highlight, ActNode.highlight, SceneNode.highlight_eq]
    rfl

end Highlight

end SceneScript
