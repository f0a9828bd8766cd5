import SceneScript.Editor.Path

/-! Edits of a single part. An edit that is refused leaves nothing behind; one that succeeds
announces at most one change. -/

namespace SceneScript

/-- The part with an edit of what it holds, announced. -/
def Edited.into {α β : Type} (e : Edited α) (make : α → β) (announce : Option Origin → β → β) :
    Edited β := ⟨announce e.origin (make e.part), e.origin⟩

/-! ## Controls of nodes -/

namespace Node

/-- Sets the text of a literal; other nodes have none. -/
def setText? (text : String) : {f : Family} → Node f → Option (Except EditorError (Edited (Node f)))
  | _, number field n => some do
    .ok ((← field.setText text).into (number · n) fun o => Node.announce o)
  | _, .text field n => some do
    .ok ((← field.setText text).into (Node.text · n) fun o => Node.announce o)
  | _, url field n => some do
    .ok ((← field.setText text).into (url · n) fun o => Node.announce o)
  | _, _ => none

/-- Sets the operator of an operation. -/
def setOperator? (symbol : String) :
    {f : Family} → Node f → Option (Except EditorError (Edited (Node f)))
  | _, operation o a b n => some do
    .ok ((← o.selectSymbol symbol).into (operation · a b n) fun o => Node.announce o)
  | _, _ => none

end Node

namespace StatementNode

def variableChoice : StatementNode → VariableChoice
  | get name _ => name
  | set name _ _ => name

def selectVariable (name : String) : StatementNode → Except EditorError (Edited StatementNode)
  | get c n => do .ok ((← VariableChoice.selectName c name).into (get · n) StatementNode.announce)
  | set c value n => do
    .ok ((← VariableChoice.selectName c name).into (set · value n) StatementNode.announce)

end StatementNode

namespace SceneNode

def editComment (edit : CommentBox → Except EditorError (Edited CommentBox)) (s : SceneNode) :
    Except EditorError (Edited SceneNode) := do
  let e ← edit s.frame.comment
  .ok (e.into (fun comment => s.withFrame { s.frame with comment }) SceneNode.announce)

def setTitle (s : SceneNode) (text : String) : Except EditorError (Edited SceneNode) :=
  s.editComment (·.setTitle text)

def setComment (s : SceneNode) (text : String) : Except EditorError (Edited SceneNode) :=
  s.editComment (·.setComment text)

end SceneNode

/-! ## Slots -/

namespace Slot

variable {f : Family}

/-- Replaces the occupant; a gap leaves the slot empty. The new occupant can be edited exactly if
the slot can. Always announced. -/
def fill (s : Slot f) (e : Expr f) : Except EditorError (Edited (Slot f)) := do
  let filled := (← Slot.new e).setReadOnly s.frame.readOnly
  .ok ⟨(filled.withFrame s.frame).announce (some .slotFilled), some .slotFilled⟩

def fillComponent (s : Slot f) (c : Component) : Except EditorError (Edited (Slot f)) :=
  match c.expr? f with
  | some e => s.fill e
  | none => .error (.incompatible (.expr f) c.kind)

/-- Removes the occupant. -/
def clear (s : Slot f) : Except EditorError (Edited (Slot f)) :=
  match s with
  | empty _ => .error (.slotNotOccupied (.expr f))
  | full frame _ => .ok ⟨(empty frame).announce (some .slotEmptied), some .slotEmptied⟩

end Slot

/-! ## Lists -/

/-- What the entries of a list are built from. -/
class Entry (α : Type) where
  Model : Type
  category : Category
  label : String
  ofComponent? : Component → Option Model
  build : Model → Except EditorError α
  setReadOnly : Bool → α → α

instance : Entry StatementNode where
  Model := Statement
  category := .statement
  label := "drag command here"
  ofComponent? := Component.statement?
  build := StatementNode.build
  setReadOnly := StatementNode.setReadOnly

instance : Entry SceneNode where
  Model := Scene
  category := .scene
  label := "drag text or video scene here"
  ofComponent? := Component.scene?
  build := SceneNode.build
  setReadOnly := SceneNode.setReadOnly

namespace ListEditor

variable {α : Type} [Entry α]

/-- Adds an entry at the end. It can be edited exactly if the list can grow. -/
def append (l : ListEditor α) (m : Entry.Model α) : Except EditorError (Edited (ListEditor α)) := do
  let entry := Entry.setReadOnly l.gap.readOnly (← Entry.build m)
  let grown : ListEditor α := { l with items := l.items ++ [entry] }
  .ok ⟨grown.announce (some .listAppended), some .listAppended⟩

def appendComponent (l : ListEditor α) (c : Component) :
    Except EditorError (Edited (ListEditor α)) :=
  match Entry.ofComponent? (α := α) c with
  | some m => l.append m
  | none => .error (.incompatible (Entry.category α) c.kind)

end ListEditor

def SequenceNode.addCommand (s : SequenceNode) (c : Statement) :
    Except EditorError (Edited SequenceNode) := do
  let e ← s.commands.append c
  .ok (e.into (fun commands => ⟨commands⟩) fun _ s => s)

def ActNode.addScene (a : ActNode) (s : Scene) : Except EditorError (Edited ActNode) := do
  let e ← a.scenes.append s
  .ok (e.into (fun scenes => { a with scenes }) ActNode.announce)

end SceneScript
