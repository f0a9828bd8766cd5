import SceneScript.Editor.Target
import SceneScript.Script.Load

/-! Dragging. A drag carries a detached copy of a component, as text, from its source to at most
one target; it ends when it is released, whatever comes of that. -/

namespace SceneScript

/-! ## Payloads -/

structure Payload where
  format : String
  data : ByteArray

namespace Payload

/-- The format of a component's text. -/
def componentFormat : String := "application/x-language-component"

def encode (c : Component) : Payload := ⟨componentFormat, c.text.toUTF8⟩

def isKnown (p : Payload) : Bool := p.format == componentFormat

def decode (p : Payload) : Except EditorError Component :=
  if p.isKnown then (Component.ofSource (.ofBytes p.data)).mapError .payload
  else .error (.unknownFormat p.format)

end Payload

/-- Whether a target takes what hovers over it. -/
def Target.dragEnter (t : Target) (part : t.Part) (p : Payload) : Bool :=
  t.isEnabled part && p.isKnown &&
    match p.decode with
    | .ok c => t.isAcceptable part c
    | .error _ => false

/-! ## Gestures -/

inductive CancelReason
  | noTarget
  | readOnly
  | rejected
deriving DecidableEq, Repr

inductive DragOutcome
  | dropped
  | cancelled (reason : CancelReason)
deriving DecidableEq, Repr

def CancelReason.name : CancelReason → String
  | noTarget => "NoTarget"
  | readOnly => "ReadOnly"
  | rejected => "Rejected"

def DragOutcome.name : DragOutcome → String
  | dropped => "Dropped"
  | cancelled reason => "Cancelled(" ++ reason.name ++ ")"

inductive DragEvent
  | started (snapshot : Component)
  | finished (outcome : DragOutcome)
deriving DecidableEq

/-- One gesture at a time. The events are kept in the order they happened. -/
structure Drag where
  payload : Option Payload
  events : List DragEvent

namespace Drag

def idle : Drag := ⟨none, []⟩

def isDragging (d : Drag) : Bool := d.payload.isSome

def start (d : Drag) (snapshot : Component) : Except EditorError Drag :=
  if d.isDragging then .error .dragInProgress
  else .ok ⟨some (.encode snapshot), d.events ++ [.started snapshot]⟩

/-- Ends the gesture. -/
def finish (d : Drag) (outcome : DragOutcome) : Drag :=
  ⟨none, d.events ++ [.finished outcome]⟩

/-- Released over no target. -/
def cancel (d : Drag) : Except EditorError (Drag × DragOutcome) :=
  if d.isDragging then
    .ok (d.finish (.cancelled .noTarget), .cancelled .noTarget)
  else .error .noActiveDrag

/-- What a target makes of a payload: the outcome, and the target with the component if it was
taken. -/
def resolve (p : Payload) (t : Target) (part : t.Part) :
    Except EditorError (DragOutcome × Edited t.Part) :=
  if !t.isEnabled part then .ok (.cancelled .readOnly, ⟨part, none⟩)
  else if !t.dragEnter part p then .ok (.cancelled .rejected, ⟨part, none⟩)
  else do
    let c ← p.decode
    .ok (.dropped, ← t.accept part c)

/-- A release over a target: the drag afterwards, and what became of it. -/
abbrev Release (α : Type) := Drag × Except EditorError (DragOutcome × Edited α)

/-- Released over a target. A target that fails to take the component counts as a rejection. -/
def dropOn (d : Drag) (t : Target) (part : t.Part) : Release t.Part :=
  match d.payload with
  | none => (d, .error .noActiveDrag)
  | some p =>
    match resolve p t part with
    | .ok (outcome, e) => (d.finish outcome, .ok (outcome, e))
    | .error e => (d.finish (.cancelled .rejected), .error e)

/-- Released over the target at a place. -/
def dropAtPlace {s : Site} (d : Drag) (p : s.Part) (l : Site.Located s) : Release s.Part :=
  match d.dropOn l.place.target l.part with
  | (d, .ok (outcome, e)) => (d, .ok (outcome, ⟨l.place.path.put e p, e.origin⟩))
  | (d, .error e) => (d, .error e)

/-- Released over the target with a number. If there is none, the drag goes on. -/
def dropAt {s : Site} (d : Drag) (p : s.Part) (i : Nat) : Release s.Part :=
  if !d.isDragging then (d, .error .noActiveDrag)
  else
    match s.target? p i with
    | none => (d, .error (.noSuchTarget i))
    | some l => d.dropAtPlace p l

end Drag

end SceneScript
