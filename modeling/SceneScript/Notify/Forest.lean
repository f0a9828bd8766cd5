import SceneScript.Editor.Error

/-! Change notification. Signals form a forest: a change notified at one is delivered there, then
at its parent, and so on up to the root. A delivery counts the change and calls the listeners the
signal has when the delivery starts, in the order they were subscribed; listeners may subscribe
further ones or pass the change on to another signal. -/

namespace SceneScript

/-- What is written down when a listener is called. -/
structure LogEntry where
  tag : String
  origin : Origin
deriving DecidableEq

def LogEntry.text (e : LogEntry) : String := e.tag ++ ":" ++ e.origin.name

/-- Every listener first writes its tag down. -/
inductive Listener
  | plain (tag : String)
  /-- Then subscribes a plain listener elsewhere. -/
  | subscriber (tag : String) (inner : Nat)
  /-- Then notifies another signal of the same change. -/
  | relay (tag : String) (target : Nat)
deriving DecidableEq

def Listener.tag : Listener → String
  | plain tag => tag
  | subscriber tag _ => tag
  | relay tag _ => tag

def Listener.isRelay : Listener → Bool
  | relay _ _ => true
  | _ => false

/-- The tag of the listeners that a listener with this tag subscribes. -/
def innerTag (tag : String) : String := tag ++ "'"

structure Signal where
  /-- The ancestors, the parent first. -/
  above : List Nat
  listeners : List Listener
  emitted : Nat
deriving DecidableEq

/-- Signals by number, and what the listeners wrote down. -/
structure Forest where
  signals : List Signal
  log : List LogEntry
deriving DecidableEq

namespace Forest

def empty : Forest := ⟨[], []⟩

def size (f : Forest) : Nat := f.signals.length

/-- A new signal without a parent. -/
def addRoot (f : Forest) : Forest := { f with signals := f.signals ++ [⟨[], [], 0⟩] }

/-- A new signal below another. -/
def addChild (f : Forest) (parent : Nat) : Forest :=
  match f.signals[parent]? with
  | some s => { f with signals := f.signals ++ [⟨parent :: s.above, [], 0⟩] }
  | none => f

def subscribe (f : Forest) (i : Nat) (l : Listener) : Forest :=
  { f with
    signals := f.signals.modify i fun s => { s with listeners := s.listeners ++ [l] } }

def count (f : Forest) (i : Nat) : Forest :=
  { f with signals := f.signals.modify i fun s => { s with emitted := s.emitted + 1 } }

def write (f : Forest) (tag : String) (o : Origin) : Forest :=
  { f with log := f.log ++ [⟨tag, o⟩] }

def listeners (f : Forest) (i : Nat) : List Listener :=
  (f.signals[i]?.map (·.listeners)).getD []

/-- A signal and its ancestors. -/
def chain (f : Forest) (i : Nat) : List Nat :=
  match f.signals[i]? with
  | some s => i :: s.above
  | none => []

/-- Calls a listener; `notify` is how a change is passed on. -/
def call (notify : Nat → Forest → Option Forest) (o : Origin) (f : Forest) (l : Listener) :
    Option Forest :=
  let f := f.write l.tag o
  match l with
  | .plain _ => some f
  | .subscriber tag inner => some (f.subscribe inner (.plain (innerTag tag)))
  | .relay _ target => notify target f

/-- Counts a change and calls the listeners present. -/
def deliver (notify : Nat → Forest → Option Forest) (o : Origin) (f : Forest) (i : Nat) :
    Option Forest :=
  (f.listeners i).foldlM (call notify o) (f.count i)

/-- Notifies a signal, changes being passed on at most `depth` levels deep. -/
def notifyWithin (o : Origin) : Nat → Nat → Forest → Option Forest
  | 0, _, _ => none
  | depth + 1, i, f => (f.chain i).foldlM (deliver (notifyWithin o depth) o) f

def relays (f : Forest) : Nat := (f.signals.flatMap (·.listeners)).countP Listener.isRelay

/-- Notifies a signal of a change. A relay that is called again while it is running never returns,
so that a notification which does is no deeper than the relays are many. -/
def notify (f : Forest) (i : Nat) (o : Origin) : Option Forest :=
  notifyWithin o (f.relays + 1) i f

end Forest

/-! ## Handles -/

/-- Handles in the order they were made, each on a signal, or dropped. -/
structure Notifiers where
  forest : Forest
  handles : List (Option Nat)
deriving DecidableEq

namespace Notifiers

/-- One root. -/
def new : Notifiers := ⟨Forest.empty.addRoot, [some 0]⟩

/-- The signal of a handle that was not dropped. -/
def signal? (n : Notifiers) (handle : Nat) : Option Nat := n.handles[handle]?.join

def addRoot (n : Notifiers) : Notifiers :=
  ⟨n.forest.addRoot, n.handles ++ [some n.forest.size]⟩

def addChild (n : Notifiers) (parent : Nat) : Notifiers :=
  ⟨n.forest.addChild parent, n.handles ++ [some n.forest.size]⟩

def clone (n : Notifiers) (signal : Nat) : Notifiers :=
  { n with handles := n.handles ++ [some signal] }

/-- Drops a handle; its signal stays reachable from those below it. -/
def drop (n : Notifiers) (handle : Nat) : Notifiers :=
  { n with handles := n.handles.set handle none }

def subscribe (n : Notifiers) (signal : Nat) (l : Listener) : Notifiers :=
  { n with forest := n.forest.subscribe signal l }

def notify (n : Notifiers) (signal : Nat) (o : Origin) : Option Notifiers :=
  (n.forest.notify signal o).map fun forest => { n with forest }

end Notifiers

/-- A signal in words. -/
def Signal.text (s : Signal) : String :=
  "ChangeNotifier \x7b emitted: " ++ toString s.emitted ++ ", listeners: "
    ++ toString s.listeners.length ++ ", has_parent: "
    ++ (if s.above = [] then "false" else "true") ++ " \x7d"

end SceneScript
