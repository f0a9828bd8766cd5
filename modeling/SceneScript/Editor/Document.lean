import SceneScript.Editor.Drag

/-! A script opened for editing: its live tree, the number of changes since it was opened, whether
any came after the last save, and what each listener has heard. -/

namespace SceneScript

structure Document where
  root : ActNode
  version : Nat
  dirty : Bool
  heard : List (List Origin)

namespace Document

def ofAct (a : Act) : Except EditorError Document := do
  .ok ⟨← ActNode.build a, 0, false, []⟩

/-- The current script, derived from the tree. -/
def model (d : Document) : Act := d.root.model

/-- Adds a listener for every change anywhere in the tree. -/
def subscribe (d : Document) : Document := { d with heard := d.heard ++ [[]] }

/-- The document with an edited tree: a change counts, is not saved yet, and is heard by all. -/
def apply (d : Document) (e : Edited ActNode) : Document :=
  match e.origin with
  | none => { d with root := e.part }
  | some o => ⟨e.part, d.version + 1, true, d.heard.map (· ++ [o])⟩

def markClean (d : Document) : Document := { d with dirty := false }

def setReadOnly (d : Document) (readOnly : Bool) : Document :=
  { d with root := d.root.setReadOnly readOnly }

def targets (d : Document) : List TargetInfo := Site.act.targets d.root

/-- Highlights the targets that would take a payload, and counts them. -/
def highlightFor (d : Document) (p : Payload) : Except EditorError (Document × Nat) := do
  let (root, count) := Site.act.highlightAcceptable d.root (← p.decode)
  .ok ({ d with root }, count)

def clearHighlights (d : Document) : Document :=
  { d with root := Site.act.clearHighlights d.root }

/-- Edits the part at the end of a path; `none` if there is no such part. -/
def edit? {b : Site} (d : Document) (path : Path .act b)
    (f : b.Part → Except EditorError (Edited b.Part)) : Option (Except EditorError Document) :=
  (path.edit? f d.root).map fun r => do .ok (d.apply (← r))

/-- The document once the drag may be over: without a drag there are no highlights. -/
def settle (d : Document) (drag : Drag) : Document :=
  if drag.isDragging then d else d.clearHighlights

/-- Releases a drag over the target with a number. -/
def dropAt (d : Document) (drag : Drag) (i : Nat) :
    Document × Drag × Except EditorError DragOutcome :=
  match drag.dropAt (s := .act) d.root i with
  | (drag, .ok (outcome, e)) => ((d.apply e).settle drag, drag, .ok outcome)
  | (drag, .error e) => (d.settle drag, drag, .error e)

end Document

end SceneScript
