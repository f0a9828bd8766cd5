import SceneScript.Editor.Control
import SceneScript.Editor.Registry

/-! The live tree of a script. A node holds the controls and slots of one component; a slot holds
one expression or none; a list holds entries and ends in a gap for the next. Each of them counts
the changes announced at it or below it. The script itself is not stored: `model` derives it. -/

namespace SceneScript

/-- What slots and list gaps have in common. -/
structure Frame where
  readOnly : Bool
  highlighted : Bool
  emitted : Nat
deriving DecidableEq

def Frame.new : Frame := ⟨false, false, 0⟩

def Frame.announce (origin : Option Origin) (f : Frame) : Frame :=
  { f with emitted := countChange f.emitted origin }

mutual

inductive Node : Family → Type
  | number (field : NumberField) (emitted : Nat) : Node .number
  | operation (operator : OperatorChoice) (op1 op2 : Slot .number) (emitted : Nat) : Node .number
  | text (field : TextField) (emitted : Nat) : Node .text
  | title (video : Slot .video) (emitted : Nat) : Node .text
  | url (field : TextField) (emitted : Nat) : Node .video
  | random (collection : Slot .collection) (emitted : Nat) : Node .video
  | related (video : Slot .video) (emitted : Nat) : Node .collection

inductive Slot : Family → Type
  | empty {f : Family} (frame : Frame) : Slot f
  | full {f : Family} (frame : Frame) (node : Node f) : Slot f

end

inductive StatementNode
  | get (name : VariableChoice) (emitted : Nat)
  | set (name : VariableChoice) (value : Slot .number) (emitted : Nat)

/-- Entries in order, and the gap behind them. -/
structure ListEditor (α : Type) where
  items : List α
  gap : Frame

/-- The commands before or after a scene. -/
structure SequenceNode where
  commands : ListEditor StatementNode

/-- What text and video scenes have in common. -/
structure SceneFrame where
  comment : CommentBox
  duration : Slot .number
  preCommands : SequenceNode
  postCommands : SequenceNode
  emitted : Nat

inductive SceneNode
  | text (frame : SceneFrame) (text : Slot .text)
  | video (frame : SceneFrame) (source : Slot .video) (offset : Slot .number)

structure ActNode where
  scenes : ListEditor SceneNode
  emitted : Nat

/-! ## The script of a tree -/

mutual

def Node.model : {f : Family} → Node f → Expr f
  | _, .number field _ => .number field.value
  | _, .operation o a b _ => .operation o.selected a.model b.model
  | _, .text field _ => .text field.text
  | _, .title v _ => .titleOf v.model
  | _, .url field _ => .url field.text
  | _, .random c _ => .randomFrom c.model
  | _, .related v _ => .relatedTo v.model

def Slot.model : {f : Family} → Slot f → Expr f
  | _, .empty _ => .gap
  | _, .full _ node => node.model

end

def StatementNode.model : StatementNode → Statement
  | get name _ => .get name.selected
  | set name value _ => .set name.selected value.model

def SequenceNode.model (s : SequenceNode) : CommandSequence :=
  ⟨s.commands.items.map StatementNode.model⟩

def SceneNode.frame : SceneNode → SceneFrame
  | text frame _ => frame
  | video frame _ _ => frame

def SceneNode.model : SceneNode → Scene
  | text f t => .text {
      title := f.comment.title.text, comment := f.comment.comment.text
      duration := f.duration.model
      preCommands := f.preCommands.model, postCommands := f.postCommands.model
      text := t.model }
  | video f source offset => .video {
      title := f.comment.title.text, comment := f.comment.comment.text
      duration := f.duration.model
      preCommands := f.preCommands.model, postCommands := f.postCommands.model
      offset := offset.model, source := source.model }

def ActNode.model (a : ActNode) : Act := ⟨a.scenes.items.map SceneNode.model⟩

namespace Slot

variable {f : Family}

def frame : Slot f → Frame
  | empty frame => frame
  | full frame _ => frame

def occupant? : Slot f → Option (Node f)
  | empty _ => none
  | full _ node => some node

def isFull : Slot f → Bool
  | empty _ => false
  | full _ _ => true

/-- The slot with another frame. -/
def withFrame (frame : Frame) : Slot f → Slot f
  | empty _ => empty frame
  | full _ node => full frame node

end Slot

/-! ## Building a tree

New parts can be edited, are not highlighted and have announced nothing. A gap becomes an empty
slot; what else a slot or a list holds is built by way of the registry. -/

/-- A slot for an expression, given what the constructor of its family comes to. -/
def Slot.around {f : Family} (e : Expr f) (node : Except EditorError (Node f)) :
    Except EditorError (Slot f) :=
  if e.isGap then .ok (.empty .new)
  else do .ok (.full .new (← Registry.build (.expr f) e.kind node))

def Node.new : {f : Family} → Expr f → Except EditorError (Node f)
  | f, .gap => .error (.unsupported (.gap f))
  | _, .number x => .ok (.number (.new x) 0)
  | _, .operation o a b => do
    let op1 ← Slot.around a (new a)
    let op2 ← Slot.around b (new b)
    .ok (.operation (← OperatorChoice.of o) op1 op2 0)
  | _, .text s => .ok (.text (.new s) 0)
  | _, .titleOf v => do .ok (.title (← Slot.around v (new v)) 0)
  | _, .url s => .ok (.url (.new s) 0)
  | _, .randomFrom c => do .ok (.random (← Slot.around c (new c)) 0)
  | _, .relatedTo v => do .ok (.related (← Slot.around v (new v)) 0)

def Slot.new {f : Family} (e : Expr f) : Except EditorError (Slot f) := Slot.around e (Node.new e)

/-- The slot for an expression, which can always be built. -/
def Slot.ofExpr : {f : Family} → Expr f → Slot f
  | _, .gap => .empty .new
  | _, .number x => .full .new (.number (.new x) 0)
  | _, .operation o a b => .full .new (.operation (.showing o) (ofExpr a) (ofExpr b) 0)
  | _, .text s => .full .new (.text (.new s) 0)
  | _, .titleOf v => .full .new (.title (ofExpr v) 0)
  | _, .url s => .full .new (.url (.new s) 0)
  | _, .randomFrom c => .full .new (.random (ofExpr c) 0)
  | _, .relatedTo v => .full .new (.related (ofExpr v) 0)

def StatementNode.new : Statement → Except EditorError StatementNode
  | .get name => do .ok (.get (← VariableChoice.of name) 0)
  | .set name value => do
    let name ← VariableChoice.of name
    .ok (.set name (← Slot.new value) 0)

def StatementNode.build (s : Statement) : Except EditorError StatementNode :=
  Registry.build .statement (Component.statement s).kind (StatementNode.new s)

/-- Builds in order, up to the first failure. -/
def buildAll {α β : Type} (build : α → Except EditorError β) : List α → Except EditorError (List β)
  | [] => .ok []
  | a :: as => do
    let b ← build a
    .ok (b :: (← buildAll build as))

def SequenceNode.build (s : CommandSequence) : Except EditorError SequenceNode := do
  .ok ⟨⟨← buildAll StatementNode.build s.commands, .new⟩⟩

def SceneFrame.new (title comment : String) (duration : Expr .number)
    (preCommands postCommands : CommandSequence) : Except EditorError SceneFrame := do
  let duration ← Slot.new duration
  let preCommands ← SequenceNode.build preCommands
  let postCommands ← SequenceNode.build postCommands
  .ok ⟨.new title comment, duration, preCommands, postCommands, 0⟩

def SceneNode.new : Scene → Except EditorError SceneNode
  | .text s => do
    let frame ← SceneFrame.new s.title s.comment s.duration s.preCommands s.postCommands
    .ok (.text frame (← Slot.new s.text))
  | .video s => do
    let frame ← SceneFrame.new s.title s.comment s.duration s.preCommands s.postCommands
    let source ← Slot.new s.source
    .ok (.video frame source (← Slot.new s.offset))

def SceneNode.build (s : Scene) : Except EditorError SceneNode :=
  Registry.build .scene (Component.scene s).kind (SceneNode.new s)

def ActNode.build (a : Act) : Except EditorError ActNode := do
  .ok ⟨⟨← buildAll SceneNode.build a.scenes, .new⟩, 0⟩

end SceneScript
