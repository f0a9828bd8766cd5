import SceneScript.Editor.Edit

/-! Drop targets. Every slot and every list gap is one. The targets of a part are numbered in
layout order: a slot before what it holds, a list gap behind all entries, and the parts of a scene
from top to bottom. -/

namespace SceneScript

inductive Target
  | slot (f : Family)
  | commands
  | scenes
deriving DecidableEq, Repr

namespace Target

abbrev site : Target → Site
  | slot f => .slot f
  | commands => .commands
  | scenes => .scenes

abbrev Part (t : Target) : Type := t.site.Part

def category : Target → Category
  | slot f => .expr f
  | commands => .statement
  | scenes => .scene

/-- The placeholder of a slot, or the prompt of a list gap. -/
def label : Target → String
  | slot f => (Category.expr f).label
  | commands => Entry.label StatementNode
  | scenes => Entry.label SceneNode

def frame : (t : Target) → t.Part → Frame
  | slot _, p => p.frame
  | commands, p => p.gap
  | scenes, p => p.gap

def withFrame : (t : Target) → Frame → t.Part → t.Part
  | slot _, frame, p => p.withFrame frame
  | commands, frame, p => { p with gap := frame }
  | scenes, frame, p => { p with gap := frame }

/-- Whether something is shown; a list gap never shows anything. -/
def isFull : (t : Target) → t.Part → Bool
  | slot _, p => p.isFull
  | commands, _ => false
  | scenes, _ => false

def isEnabled (t : Target) (p : t.Part) : Bool := !(t.frame p).readOnly

def accepts (t : Target) (c : Component) : Bool := c.category == t.category

def isAcceptable (t : Target) (p : t.Part) (c : Component) : Bool := t.isEnabled p && t.accepts c

/-- Takes a dropped component. -/
def accept : (t : Target) → t.Part → Component → Except EditorError (Edited t.Part)
  | slot _, p, c => p.fillComponent c
  | commands, p, c => p.appendComponent c
  | scenes, p, c => p.appendComponent c

def setHighlighted (t : Target) (highlighted : Bool) (p : t.Part) : t.Part :=
  t.withFrame { t.frame p with highlighted } p

end Target

/-- What a listing shows of a target. -/
structure TargetInfo where
  index : Nat
  category : Category
  label : String
  full : Bool
  enabled : Bool
  highlighted : Bool
deriving DecidableEq, Repr

def Target.info (t : Target) (index : Nat) (p : t.Part) : TargetInfo where
  index := index
  category := t.category
  label := t.label
  full := t.isFull p
  enabled := t.isEnabled p
  highlighted := (t.frame p).highlighted

/-! ## Layout order -/

/-- A target inside a part, and the way to it. -/
structure Place (a : Site) where
  target : Target
  path : Path a target.site

def Place.under {a b : Site} (s : Step a b) (p : Place b) : Place a := ⟨p.target, .step s p.path⟩

/-- The places of the entries of a list, from index `i` on. -/
def entryPlaces {α : Type} {a b : Site} (step : Nat → Step a b) (places : α → List (Place b)) :
    Nat → List α → List (Place a)
  | _, [] => []
  | i, item :: items =>
    (places item).map (Place.under (step i)) ++ entryPlaces step places (i + 1) items

mutual

def Node.places : {f : Family} → Node f → List (Place (.node f))
  | _, .operation _ a b _ =>
    a.places.map (Place.under .op1) ++ b.places.map (Place.under .op2)
  | _, .title v _ => v.places.map (Place.under .titleVideo)
  | _, .random c _ => c.places.map (Place.under .collection)
  | _, .related v _ => v.places.map (Place.under .relatedVideo)
  | _, .number _ _ => []
  | _, .text _ _ => []
  | _, .url _ _ => []

def Slot.places : {f : Family} → Slot f → List (Place (.slot f))
  | f, .empty _ => [⟨.slot f, .here⟩]
  | f, .full _ node => ⟨.slot f, .here⟩ :: node.places.map (Place.under .occupant)

end

def StatementNode.places : StatementNode → List (Place .statement)
  | get _ _ => []
  | set _ value _ => value.places.map (Place.under .value)

def commandPlaces (l : ListEditor StatementNode) : List (Place .commands) :=
  entryPlaces .command StatementNode.places 0 l.items ++ [⟨.commands, .here⟩]

def SequenceNode.places (s : SequenceNode) : List (Place .sequence) :=
  (commandPlaces s.commands).map (Place.under .commands)

def SceneNode.places : SceneNode → List (Place .scene)
  | text f t =>
    f.preCommands.places.map (Place.under .preCommands)
      ++ t.places.map (Place.under .text)
      ++ f.duration.places.map (Place.under .duration)
      ++ f.postCommands.places.map (Place.under .postCommands)
  | video f source offset =>
    f.preCommands.places.map (Place.under .preCommands)
      ++ source.places.map (Place.under .source)
      ++ f.duration.places.map (Place.under .duration)
      ++ offset.places.map (Place.under .offset)
      ++ f.postCommands.places.map (Place.under .postCommands)

def scenePlaces (l : ListEditor SceneNode) : List (Place .scenes) :=
  entryPlaces .scene SceneNode.places 0 l.items ++ [⟨.scenes, .here⟩]

def ActNode.places (a : ActNode) : List (Place .act) :=
  (scenePlaces a.scenes).map (Place.under .scenes)

namespace Site

def places : (s : Site) → s.Part → List (Place s)
  | slot _, p => p.places
  | node _, p => p.places
  | statement, p => p.places
  | commands, p => commandPlaces p
  | sequence, p => p.places
  | scene, p => p.places
  | scenes, p => scenePlaces p
  | act, p => p.places

/-! ## Targets by number -/

/-- A target of a part: the place, and what is there. -/
structure Located (s : Site) where
  place : Place s
  part : place.target.Part

/-- The target with a number. -/
def target? (s : Site) (p : s.Part) (i : Nat) : Option (Located s) := do
  let place ← (s.places p)[i]?
  let part ← place.path.get? p
  some ⟨place, part⟩

/-- All targets of a part, as a listing shows them. -/
def targets (s : Site) (p : s.Part) : List TargetInfo :=
  ((s.places p).zipIdx).filterMap fun (place, i) =>
    (place.path.get? p).map (place.target.info i)

/-- Edits the target with a number. -/
def withTarget {ε : Type} (s : Site) (p : s.Part) (i : Nat) (missing : ε)
    (f : (t : Target) → t.Part → Except ε (Edited t.Part)) : Except ε (Edited s.Part) :=
  match s.target? p i with
  | none => .error missing
  | some l => do
    let e ← f l.place.target l.part
    .ok ⟨l.place.path.put e p, e.origin⟩

/-- Highlights the targets that would take a component, and no others. -/
def highlightAcceptable (s : Site) (p : s.Part) (c : Component) : s.Part × Nat :=
  (s.highlight (· == c.category) p,
    (s.targets p).countP fun t => t.enabled && c.category == t.category)

def clearHighlights (s : Site) (p : s.Part) : s.Part := s.highlight (fun _ => false) p

end Site

end SceneScript
