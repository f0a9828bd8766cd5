import SceneScript.Editor.Build
import SceneScript.Editor.Document
import SceneScript.Editor.Palette

/-! Editing sessions: a tree of any kind, addressed by paths of names, and one drag at a time. -/

namespace SceneScript

inductive SessionFault
  | editor (e : EditorError)
  | noSuchPath (part : String)
  | notHere
  | notConvertible (found : Kind)
  | noSuchEntry
  | noPayload

/-! ## Names of places -/

def Path.append {a b c : Site} : Path a b → Path b c → Path a c
  | here, q => q
  | step s p, q => step s (p.append q)

/-- The way from a part to one that is named from there. -/
structure Way (a : Site) where
  site : Site
  path : Path a site

def Way.one {a b : Site} (s : Step a b) : Way a := ⟨b, .step s .here⟩

def Way.two {a b c : Site} (s : Step a b) (t : Step b c) : Way a := ⟨c, .step s (.step t .here)⟩

namespace Site

/-- The places a name may mean; an act and a command sequence stand for their lists as well. -/
def named : (s : Site) → String → Option (Way s)
  | slot _, "node" => some (.one .occupant)
  | node .number, "op1" => some (.one .op1)
  | node .number, "op2" => some (.one .op2)
  | node .text, "video" => some (.one .titleVideo)
  | node .video, "collection" => some (.one .collection)
  | node .collection, "video" => some (.one .relatedVideo)
  | statement, "value" => some (.one .value)
  | sequence, "commands" => some (.one .commands)
  | scene, "pre" => some (.one .preCommands)
  | scene, "post" => some (.one .postCommands)
  | scene, "duration" => some (.one .duration)
  | scene, "text" => some (.one .text)
  | scene, "source" => some (.one .source)
  | scene, "offset" => some (.one .offset)
  | act, "scenes" => some (.one .scenes)
  | commands, i => (index? i).map fun i => .one (.command i)
  | sequence, i => (index? i).map fun i => .two .commands (.command i)
  | scenes, i => (index? i).map fun i => .one (.scene i)
  | act, i => (index? i).map fun i => .two .scenes (.scene i)
  | _, _ => none

/-- A place that is there. -/
structure At (a : Site) where
  site : Site
  path : Path a site
  part : site.Part

/-- Follows names from a part; the first one that leads nowhere is reported. -/
def follow : (s : Site) → s.Part → List String → Except SessionFault (At s)
  | s, p, [] => .ok ⟨s, .here, p⟩
  | s, p, name :: names =>
    match s.named name with
    | none => .error (.noSuchPath name)
    | some way =>
      match way.path.get? p with
      | none => .error (.noSuchPath name)
      | some q => do
        let rest ← follow way.site q names
        .ok ⟨rest.site, way.path.append rest.path, rest.part⟩

/-- The place as a drop target. -/
def At.target? {a : Site} : At a → Option (Located a)
  | ⟨.slot f, path, p⟩ => some ⟨⟨.slot f, path⟩, p⟩
  | ⟨.commands, path, p⟩ => some ⟨⟨.commands, path⟩, p⟩
  | ⟨.scenes, path, p⟩ => some ⟨⟨.scenes, path⟩, p⟩
  | _ => none

end Site

/-! ## Edits -/

inductive Action
  | setText (text : String)
  | setOperator (symbol : String)
  | selectVariable (name : String)
  | setTitle (text : String)
  | setComment (text : String)
  | fill (c : Component)
  | fillComponent (c : Component)
  | clear
  | append (c : Component)
  | appendComponent (c : Component)

namespace Action

def lift {α : Type} : Except EditorError α → Except SessionFault α := Except.mapError .editor

/-- A component of the type a part takes. -/
def converted {α : Type} (c : Component) : Option α → Except SessionFault α
  | some a => .ok a
  | none => .error (.notConvertible c.kind)

/-- Performs an action on a part, if it has a meaning there. -/
def on : Action → (s : Site) → s.Part → Except SessionFault (Edited s.Part)
  | setText text, .node _, p =>
    match p.setText? text with
    | some r => lift r
    | none => .error .notHere
  | setOperator symbol, .node _, p =>
    match p.setOperator? symbol with
    | some r => lift r
    | none => .error .notHere
  | selectVariable name, .statement, p => lift (p.selectVariable name)
  | setTitle text, .scene, p => lift (p.setTitle text)
  | setComment text, .scene, p => lift (p.setComment text)
  | fill c, .slot f, p => do lift (p.fill (← converted c (c.expr? f)))
  | fillComponent c, .slot _, p => lift (p.fillComponent c)
  | clear, .slot _, p => lift p.clear
  | append c, .act, p => do lift (p.addScene (← converted c c.scene?))
  | append c, .sequence, p => do lift (p.addCommand (← converted c c.statement?))
  | append c, .commands, p => do lift (p.append (← converted c c.statement?))
  | append c, .scenes, p => do lift (p.append (← converted c c.scene?))
  | appendComponent c, .commands, p => lift (p.appendComponent c)
  | appendComponent c, .scenes, p => lift (p.appendComponent c)
  | _, _, _ => .error .notHere

end Action

/-! ## Sessions -/

/-- A document, or a tree below an owner that listens to its changes. -/
inductive Root
  | document (d : Document)
  | part (p : AnyPart) (heard : List Origin)

namespace Root

/-- A document with a listener of the session's own. -/
def ofAct (a : Act) : Except EditorError Root := do .ok (document (← Document.ofAct a).subscribe)

def ofPart (p : AnyPart) : Root := part p []

def view : Root → AnyPart
  | document d => ⟨.act, d.root⟩
  | part p _ => p

/-- The changes heard so far. -/
def heard : Root → List Origin
  | document d => d.heard.headD []
  | part _ heard => heard

abbrev site (r : Root) : Site := r.view.site

/-- The root with its tree edited. -/
def apply : (r : Root) → Edited r.site.Part → Root
  | document d, e => document (d.apply e)
  | part p heard, e => part ⟨p.site, e.part⟩ (heard ++ e.origin.toList)

end Root

structure Session where
  root : Root
  drag : Drag

namespace Session

def start (root : Root) : Session := ⟨root, .idle⟩

def follow (s : Session) (names : List String) : Except SessionFault (Site.At s.root.site) :=
  s.root.site.follow s.root.view.part names

def apply (s : Session) (e : Edited s.root.site.Part) : Session :=
  { s with root := s.root.apply e }

/-- Puts an edited part at the end of a path. -/
def put {b : Site} (s : Session) (path : Path s.root.site b) (e : Edited b.Part) : Session :=
  s.apply ⟨path.put e s.root.view.part, e.origin⟩

/-- Performs an action at a place. -/
def perform (s : Session) (names : List String) (a : Action) : Except SessionFault Session := do
  let place ← s.follow names
  .ok (s.put place.path (← a.on place.site place.part))

def setReadOnly (s : Session) (names : List String) (readOnly : Bool) :
    Except SessionFault Session := do
  let place ← s.follow names
  .ok (s.put place.path ⟨place.site.setReadOnly readOnly place.part, none⟩)

/-- Whether a place takes a component of this category, and whether it would right now. -/
def accepts (s : Session) (names : List String) (c : Component) :
    Except SessionFault (Bool × Bool) := do
  let place ← s.follow names
  match place.target? with
  | some l => .ok (l.place.target.accepts c, l.place.target.isAcceptable l.part c)
  | none => .error .notHere

def markClean (s : Session) : Except SessionFault Session :=
  match s.root with
  | .document d => .ok { s with root := .document d.markClean }
  | .part _ _ => .error .notHere

/-! ### Targets -/

def targetAt (s : Session) (i : Nat) : Except SessionFault (Site.Located s.root.site) :=
  match s.root.site.target? s.root.view.part i with
  | some l => .ok l
  | none => .error (.editor (.noSuchTarget i))

/-- Hands a component to a target without a drag. -/
def acceptAt (s : Session) (i : Nat) (c : Component) : Except SessionFault Session := do
  let l ← s.targetAt i
  .ok (s.put l.place.path (← Action.lift (l.place.target.accept l.part c)))

def setHighlightedAt (s : Session) (i : Nat) (highlighted : Bool) :
    Except SessionFault Session := do
  let l ← s.targetAt i
  .ok (s.put l.place.path ⟨l.place.target.setHighlighted highlighted l.part, none⟩)

/-- Highlights the targets that would take a payload, and counts them. -/
def highlightFor (s : Session) (p : Payload) : Except SessionFault (Session × Nat) := do
  match s.root with
  | .document d =>
    let (d, count) ← Action.lift (d.highlightFor p)
    .ok ({ s with root := .document d }, count)
  | .part r heard =>
    let (part, count) := r.site.highlightAcceptable r.part (← Action.lift p.decode)
    .ok ({ s with root := .part ⟨r.site, part⟩ heard }, count)

/-- Highlights the targets that would take what is dragged. -/
def highlight (s : Session) : Except SessionFault (Session × Nat) :=
  match s.drag.payload with
  | some p => s.highlightFor p
  | none => .error .noPayload

def clearHighlights (s : Session) : Session :=
  s.apply ⟨s.root.site.clearHighlights s.root.view.part, none⟩

/-! ### Drags -/

def dragComponent (s : Session) (c : Component) : Except SessionFault Session := do
  .ok { s with drag := ← Action.lift (s.drag.start c) }

def dragFrom (s : Session) (names : List String) : Except SessionFault Session := do
  let place ← s.follow names
  match place.site.snapshot? place.part with
  | some c => s.dragComponent c
  | none => .error .notHere

def dragPalette (s : Session) (label : String) : Except SessionFault Session :=
  match Palette.find? label with
  | some entry => s.dragComponent entry.component
  | none => .error .noSuchEntry

/-- What a release comes to, and the session after it. -/
abbrev Outcome := Session × Except SessionFault DragOutcome

/-- The session after a release; its drag is over even if the target failed. -/
def release (s : Session) : Drag.Release s.root.site.Part → Outcome
  | (drag, .ok (outcome, e)) => (⟨s.root.apply e, drag⟩, .ok outcome)
  | (drag, .error e) => (⟨s.root, drag⟩, .error (.editor e))

/-- Releases the drag over a place. -/
def dropOn (s : Session) (names : List String) : Outcome :=
  match s.follow names with
  | .error e => (s, .error e)
  | .ok place =>
    match place.target? with
    | none => (s, .error .notHere)
    | some l => s.release (s.drag.dropAtPlace s.root.view.part l)

/-- Releases the drag over the target with a number. -/
def dropAt (s : Session) (i : Nat) : Outcome :=
  match s.root with
  | .document d =>
    let (d, drag, outcome) := d.dropAt s.drag i
    (⟨.document d, drag⟩, Action.lift outcome)
  | .part _ _ => s.release (s.drag.dropAt s.root.view.part i)

def cancel (s : Session) : Outcome :=
  match s.drag.cancel with
  | .ok (drag, outcome) => ({ s with drag }, .ok outcome)
  | .error e => (s, .error (.editor e))

end Session

end SceneScript
