import SceneScript.Editor.Tree

/-! The flags of a tree. Every control, slot and list gap has its own read-only flag, and every
slot and list gap its own highlight; setting them visits all of a part. -/

namespace SceneScript

def Frame.setReadOnly (readOnly : Bool) (f : Frame) : Frame := { f with readOnly }

/-- Highlights what can be dropped on and is of a wanted category. -/
def Frame.highlight (wanted : Bool) (f : Frame) : Frame :=
  { f with highlighted := !f.readOnly && wanted }

def ListEditor.mapFlags {α : Type} (item : α → α) (gap : Frame → Frame) (l : ListEditor α) :
    ListEditor α := ⟨l.items.map item, gap l.gap⟩

/-! ## Read-only -/

mutual

def Node.setReadOnly (r : Bool) : {f : Family} → Node f → Node f
  | _, .number field n => .number (field.setReadOnly r) n
  | _, .operation o a b n => .operation (o.setReadOnly r) (a.setReadOnly r) (b.setReadOnly r) n
  | _, .text field n => .text (field.setReadOnly r) n
  | _, .title v n => .title (v.setReadOnly r) n
  | _, .url field n => .url (field.setReadOnly r) n
  | _, .random c n => .random (c.setReadOnly r) n
  | _, .related v n => .related (v.setReadOnly r) n

def Slot.setReadOnly (r : Bool) : {f : Family} → Slot f → Slot f
  | _, .empty frame => .empty (frame.setReadOnly r)
  | _, .full frame node => .full (frame.setReadOnly r) (node.setReadOnly r)

end

def StatementNode.setReadOnly (r : Bool) : StatementNode → StatementNode
  | get name n => get (name.setReadOnly r) n
  | set name value n => set (name.setReadOnly r) (value.setReadOnly r) n

def SequenceNode.setReadOnly (r : Bool) (s : SequenceNode) : SequenceNode :=
  ⟨s.commands.mapFlags (StatementNode.setReadOnly r) (Frame.setReadOnly r)⟩

def SceneFrame.setReadOnly (r : Bool) (f : SceneFrame) : SceneFrame where
  comment := f.comment.setReadOnly r
  duration := f.duration.setReadOnly r
  preCommands := f.preCommands.setReadOnly r
  postCommands := f.postCommands.setReadOnly r
  emitted := f.emitted

def SceneNode.setReadOnly (r : Bool) : SceneNode → SceneNode
  | text f t => text (f.setReadOnly r) (t.setReadOnly r)
  | video f source offset => video (f.setReadOnly r) (source.setReadOnly r) (offset.setReadOnly r)

def ActNode.setReadOnly (r : Bool) (a : ActNode) : ActNode :=
  { a with scenes := a.scenes.mapFlags (SceneNode.setReadOnly r) (Frame.setReadOnly r) }

/-! ## Highlights -/

mutual

def Node.highlight (wanted : Category → Bool) : {f : Family} → Node f → Node f
  | _, .number field n => .number field n
  | _, .operation o a b n => .operation o (a.highlight wanted) (b.highlight wanted) n
  | _, .text field n => .text field n
  | _, .title v n => .title (v.highlight wanted) n
  | _, .url field n => .url field n
  | _, .random c n => .random (c.highlight wanted) n
  | _, .related v n => .related (v.highlight wanted) n

def Slot.highlight (wanted : Category → Bool) : {f : Family} → Slot f → Slot f
  | f, .empty frame => .empty (frame.highlight (wanted (.expr f)))
  | f, .full frame node => .full (frame.highlight (wanted (.expr f))) (node.highlight wanted)

end

def StatementNode.highlight (wanted : Category → Bool) : StatementNode → StatementNode
  | get name n => get name n
  | set name value n => set name (value.highlight wanted) n

def SequenceNode.highlight (wanted : Category → Bool) (s : SequenceNode) : SequenceNode :=
  ⟨s.commands.mapFlags (StatementNode.highlight wanted) (Frame.highlight (wanted .statement))⟩

def SceneFrame.highlight (wanted : Category → Bool) (f : SceneFrame) : SceneFrame :=
  { f with
    duration := f.duration.highlight wanted
    preCommands := f.preCommands.highlight wanted
    postCommands := f.postCommands.highlight wanted }

def SceneNode.highlight (wanted : Category → Bool) : SceneNode → SceneNode
  | text f t => text (f.highlight wanted) (t.highlight wanted)
  | video f source offset =>
    video (f.highlight wanted) (source.highlight wanted) (offset.highlight wanted)

def ActNode.highlight (wanted : Category → Bool) (a : ActNode) : ActNode :=
  { a with
    scenes := a.scenes.mapFlags (SceneNode.highlight wanted) (Frame.highlight (wanted .scene)) }

/-! ## What a part says of itself -/

def Node.readOnly : {f : Family} → Node f → Bool
  | _, .number field _ => field.readOnly
  | _, .operation o _ _ _ => o.readOnly
  | _, .text field _ => field.readOnly
  | _, .title v _ => v.frame.readOnly
  | _, .url field _ => field.readOnly
  | _, .random c _ => c.frame.readOnly
  | _, .related v _ => v.frame.readOnly

def StatementNode.readOnly : StatementNode → Bool
  | get name _ => name.readOnly
  | set name _ _ => name.readOnly

def SceneNode.readOnly (s : SceneNode) : Bool := s.frame.comment.readOnly

end SceneScript
