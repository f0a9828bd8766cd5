import SceneScript.Editor.Flags

/-! Places in a tree. A step leads from a part to one directly inside it, and a path is a sequence
of steps. Replacing the part at the end of a path announces the change to every part on the way,
the innermost first. -/

namespace SceneScript

/-- The kinds of part a tree is made of. -/
inductive Site
  | slot (f : Family)
  | node (f : Family)
  | statement
  | commands
  | sequence
  | scene
  | scenes
  | act
deriving DecidableEq, Repr

abbrev Site.Part : Site → Type
  | slot f => Slot f
  | node f => Node f
  | statement => StatementNode
  | commands => ListEditor StatementNode
  | sequence => SequenceNode
  | scene => SceneNode
  | scenes => ListEditor SceneNode
  | act => ActNode

/-- The script of a part. -/
abbrev Site.Model : Site → Type
  | slot f => Expr f
  | node f => Expr f
  | statement => Statement
  | commands => List Statement
  | sequence => CommandSequence
  | scene => Scene
  | scenes => List Scene
  | act => Act

namespace Site

def model : (s : Site) → s.Part → s.Model
  | slot _, p => p.model
  | node _, p => p.model
  | statement, p => p.model
  | commands, p => p.items.map StatementNode.model
  | sequence, p => p.model
  | scene, p => p.model
  | scenes, p => p.items.map SceneNode.model
  | act, p => p.model

def readOnly : (s : Site) → s.Part → Bool
  | slot _, p => p.frame.readOnly
  | node _, p => p.readOnly
  | statement, p => p.readOnly
  | commands, p => p.gap.readOnly
  | sequence, p => p.commands.gap.readOnly
  | scene, p => p.readOnly
  | scenes, p => p.gap.readOnly
  | act, p => p.scenes.gap.readOnly

def setReadOnly (r : Bool) : (s : Site) → s.Part → s.Part
  | slot _, p => p.setReadOnly r
  | node _, p => p.setReadOnly r
  | statement, p => p.setReadOnly r
  | commands, p => p.mapFlags (StatementNode.setReadOnly r) (Frame.setReadOnly r)
  | sequence, p => p.setReadOnly r
  | scene, p => p.setReadOnly r
  | scenes, p => p.mapFlags (SceneNode.setReadOnly r) (Frame.setReadOnly r)
  | act, p => p.setReadOnly r

def highlight (wanted : Category → Bool) : (s : Site) → s.Part → s.Part
  | slot _, p => p.highlight wanted
  | node _, p => p.highlight wanted
  | statement, p => p.highlight wanted
  | commands, p =>
    p.mapFlags (StatementNode.highlight wanted) (Frame.highlight (wanted .statement))
  | sequence, p => p.highlight wanted
  | scene, p => p.highlight wanted
  | scenes, p => p.mapFlags (SceneNode.highlight wanted) (Frame.highlight (wanted .scene))
  | act, p => p.highlight wanted

end Site

/-! ## Counting announcements -/

def Node.emitted : {f : Family} → Node f → Nat
  | _, .number _ n => n
  | _, .operation _ _ _ n => n
  | _, .text _ n => n
  | _, .title _ n => n
  | _, .url _ n => n
  | _, .random _ n => n
  | _, .related _ n => n

def Node.announce (o : Option Origin) : {f : Family} → Node f → Node f
  | _, .number field n => .number field (countChange n o)
  | _, .operation p a b n => .operation p a b (countChange n o)
  | _, .text field n => .text field (countChange n o)
  | _, .title v n => .title v (countChange n o)
  | _, .url field n => .url field (countChange n o)
  | _, .random c n => .random c (countChange n o)
  | _, .related v n => .related v (countChange n o)

def Slot.announce (o : Option Origin) {f : Family} (s : Slot f) : Slot f :=
  s.withFrame (s.frame.announce o)

def StatementNode.emitted : StatementNode → Nat
  | get _ n => n
  | set _ _ n => n

def StatementNode.announce (o : Option Origin) : StatementNode → StatementNode
  | get name n => get name (countChange n o)
  | set name value n => set name value (countChange n o)

def ListEditor.announce {α : Type} (o : Option Origin) (l : ListEditor α) : ListEditor α :=
  { l with gap := l.gap.announce o }

def SceneFrame.announce (o : Option Origin) (f : SceneFrame) : SceneFrame :=
  { f with emitted := countChange f.emitted o }

def SceneNode.announce (o : Option Origin) : SceneNode → SceneNode
  | text f t => text (f.announce o) t
  | video f source offset => video (f.announce o) source offset

def ActNode.announce (o : Option Origin) (a : ActNode) : ActNode :=
  { a with emitted := countChange a.emitted o }

namespace Site

/-- A command sequence is counted by its list. -/
def emitted : (s : Site) → s.Part → Nat
  | slot _, p => p.frame.emitted
  | node _, p => p.emitted
  | statement, p => p.emitted
  | commands, p => p.gap.emitted
  | sequence, p => p.commands.gap.emitted
  | scene, p => p.frame.emitted
  | scenes, p => p.gap.emitted
  | act, p => p.emitted

def announce (o : Option Origin) : (s : Site) → s.Part → s.Part
  | slot _, p => p.announce o
  | node _, p => p.announce o
  | statement, p => p.announce o
  | commands, p => p.announce o
  | sequence, p => p
  | scene, p => p.announce o
  | scenes, p => p.announce o
  | act, p => p.announce o

end Site

/-! ## Steps -/

inductive Step : Site → Site → Type
  | occupant {f : Family} : Step (.slot f) (.node f)
  | op1 : Step (.node .number) (.slot .number)
  | op2 : Step (.node .number) (.slot .number)
  | titleVideo : Step (.node .text) (.slot .video)
  | collection : Step (.node .video) (.slot .collection)
  | relatedVideo : Step (.node .collection) (.slot .video)
  | value : Step .statement (.slot .number)
  | command (i : Nat) : Step .commands .statement
  | commands : Step .sequence .commands
  | preCommands : Step .scene .sequence
  | postCommands : Step .scene .sequence
  | duration : Step .scene (.slot .number)
  | text : Step .scene (.slot .text)
  | source : Step .scene (.slot .video)
  | offset : Step .scene (.slot .number)
  | scene (i : Nat) : Step .scenes .scene
  | scenes : Step .act .scenes
deriving DecidableEq

def SceneNode.withFrame (frame : SceneFrame) : SceneNode → SceneNode
  | text _ t => text frame t
  | video _ source offset => video frame source offset

namespace Step

/-- The part a step leads to, if it is there. -/
def get? : {a b : Site} → Step a b → a.Part → Option b.Part
  | _, _, occupant, p => p.occupant?
  | _, _, op1, .operation _ a _ _ => some a
  | _, _, op2, .operation _ _ b _ => some b
  | _, _, titleVideo, .title v _ => some v
  | _, _, collection, .random c _ => some c
  | _, _, relatedVideo, .related v _ => some v
  | _, _, value, .set _ v _ => some v
  | _, _, command i, p => p.items[i]?
  | _, _, commands, p => some p.commands
  | _, _, preCommands, p => some p.frame.preCommands
  | _, _, postCommands, p => some p.frame.postCommands
  | _, _, duration, p => some p.frame.duration
  | _, _, text, .text _ t => some t
  | _, _, source, .video _ s _ => some s
  | _, _, offset, .video _ _ o => some o
  | _, _, scene i, p => p.items[i]?
  | _, _, scenes, p => some p.scenes
  | _, _, _, _ => none

/-- Puts another part where a step leads; where it leads nowhere, nothing changes. -/
def put : {a b : Site} → Step a b → b.Part → a.Part → a.Part
  | _, _, occupant, q, .full frame _ => .full frame q
  | _, _, op1, q, .operation o _ b n => .operation o q b n
  | _, _, op2, q, .operation o a _ n => .operation o a q n
  | _, _, titleVideo, q, .title _ n => .title q n
  | _, _, collection, q, .random _ n => .random q n
  | _, _, relatedVideo, q, .related _ n => .related q n
  | _, _, value, q, .set name _ n => .set name q n
  | _, _, command i, q, p => { p with items := p.items.set i q }
  | _, _, commands, q, p => { p with commands := q }
  | _, _, preCommands, q, p => p.withFrame { p.frame with preCommands := q }
  | _, _, postCommands, q, p => p.withFrame { p.frame with postCommands := q }
  | _, _, duration, q, p => p.withFrame { p.frame with duration := q }
  | _, _, text, q, .text frame _ => .text frame q
  | _, _, source, q, .video frame _ o => .video frame q o
  | _, _, offset, q, .video frame s _ => .video frame s q
  | _, _, scene i, q, p => { p with items := p.items.set i q }
  | _, _, scenes, q, p => { p with scenes := q }
  | _, _, _, _, p => p

end Step

/-! ## Paths -/

inductive Path : Site → Site → Type
  | here {a : Site} : Path a a
  | step {a b c : Site} (s : Step a b) (rest : Path b c) : Path a c

namespace Path

def get? : {a b : Site} → Path a b → a.Part → Option b.Part
  | _, _, here, p => some p
  | _, _, step s rest, p => (s.get? p).bind rest.get?

/-- Puts an edited part at the end of a path. -/
def put : {a b : Site} → Path a b → Edited b.Part → a.Part → a.Part
  | _, _, here, e, _ => e.part
  | a, _, step s rest, e, p =>
    match s.get? p with
    | some q => a.announce e.origin (s.put (rest.put e q) p)
    | none => p

/-- Edits the part at the end of a path; `none` if there is no such part. -/
def edit? {a b : Site} {ε : Type} (path : Path a b) (f : b.Part → Except ε (Edited b.Part))
    (p : a.Part) : Option (Except ε (Edited a.Part)) :=
  (path.get? p).map fun q => do
    let e ← f q
    .ok ⟨path.put e p, e.origin⟩

end Path

end SceneScript
