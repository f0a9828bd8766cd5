import SceneScript.Editor.Session

/-! What can be done to an open script, one operation after the other, and what is replied. The flag
of the whole script, drags released at a target, components handed to a target, and actions on a
part anywhere in the tree. -/

namespace SceneScript

inductive Operation
  | setReadOnly (readOnly : Bool)
  | highlightFor (p : Payload)
  | dropAt (drag : Drag) (i : Nat)
  | dropOn (drag : Drag) (place : Place .act)
  | accept (place : Place .act) (c : Component)
  | edit {b : Site} (path : Path .act b) (a : Action)

/-- What an operation came to that was possible. -/
inductive Reply
  | done
  | highlighted (count : Nat)
  | released (drag : Drag) (outcome : Except EditorError DragOutcome)

namespace Document

/-- A document after an operation, and the reply. -/
abbrev After := Document × Except SessionFault Reply

/-- Edits the part at the end of a path, if there is one. -/
def change {b : Site} (d : Document) (path : Path .act b)
    (edit : b.Part → Except SessionFault (Edited b.Part)) : After :=
  match path.get? d.root with
  | none => (d, .error .notHere)
  | some part =>
    match edit part with
    | .ok e => (d.apply ⟨path.put e d.root, e.origin⟩, .ok .done)
    | .error f => (d, .error f)

/-- Releases a drag over the target at a place, if there is one. -/
def dropOn (d : Document) (drag : Drag) (place : Place .act) : After :=
  match place.path.get? d.root with
  | none => (d, .error .notHere)
  | some part =>
    match drag.dropAtPlace d.root ⟨place, part⟩ with
    | (drag, .ok (outcome, e)) => (d.apply e, .ok (.released drag (.ok outcome)))
    | (drag, .error f) => (d, .ok (.released drag (.error f)))

end Document

namespace Operation

def on : Operation → Document → Document.After
  | setReadOnly r, d => (d.setReadOnly r, .ok .done)
  | highlightFor p, d =>
    match d.highlightFor p with
    | .ok (lit, count) => (lit, .ok (.highlighted count))
    | .error e => (d, .error (.editor e))
  | dropAt drag i, d =>
    let (after, drag, outcome) := d.dropAt drag i
    (after, .ok (.released drag outcome))
  | dropOn drag place, d => d.dropOn drag place
  | accept place c, d => d.change place.path fun p => Action.lift (place.target.accept p c)
  | edit path a, d => d.change path (a.on _)

/-- The flag of the whole script after an operation. -/
def flag (r : Bool) : Operation → Bool
  | setReadOnly r' => r'
  | _ => r

end Operation

namespace Document

def run (ops : List Operation) (d : Document) : Document := ops.foldl (fun d op => (op.on d).1) d

/-- The reply to each operation of a run, and the script after it. -/
def replies : List Operation → Document → List (Except SessionFault Reply × Act)
  | [], _ => []
  | op :: ops, d =>
    let (after, reply) := op.on d
    (reply, after.model) :: after.replies ops

end Document

/-- The flag last given in a run, or the one before. -/
def lastFlag (ops : List Operation) (r : Bool) : Bool := ops.foldl Operation.flag r

end SceneScript
