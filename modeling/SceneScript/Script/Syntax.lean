import SceneScript.Number.Binary64

/-! Scripts of video scenes. An expression yields a number, a text, a video or a collection of
videos; a gap is an expression not yet supplied. Statements run before or after a scene, and an
act is a list of scenes played in order. -/

namespace SceneScript

/-- What an expression yields. -/
inductive Family
  | number
  | text
  | video
  | collection
deriving DecidableEq, Repr

inductive Operator
  | add
  | subtract
  | multiply
deriving DecidableEq, Repr

namespace Operator

def all : List Operator := [add, subtract, multiply]

def symbol : Operator → String
  | add => "+"
  | subtract => "-"
  | multiply => "*"

/-- The operator shown as a symbol. -/
def ofSymbol? (s : String) : Option Operator := all.find? (·.symbol == s)

end Operator

inductive Expr : Family → Type
  | gap {f : Family} : Expr f
  | number (value : Binary64) : Expr .number
  | operation (operator : Operator) (op1 op2 : Expr .number) : Expr .number
  | text (value : String) : Expr .text
  | titleOf (video : Expr .video) : Expr .text
  | url (value : String) : Expr .video
  | randomFrom (collection : Expr .collection) : Expr .video
  | relatedTo (video : Expr .video) : Expr .collection
deriving DecidableEq

def Expr.isGap {f : Family} : Expr f → Bool
  | .gap => true
  | _ => false

inductive Statement
  | get (name : String)
  | set (name : String) (value : Expr .number)
deriving DecidableEq

structure CommandSequence where
  commands : List Statement
deriving DecidableEq

structure TextScene where
  title : String
  comment : String
  duration : Expr .number
  preCommands : CommandSequence
  postCommands : CommandSequence
  text : Expr .text
deriving DecidableEq

structure VideoScene where
  title : String
  comment : String
  duration : Expr .number
  preCommands : CommandSequence
  postCommands : CommandSequence
  offset : Expr .number
  source : Expr .video
deriving DecidableEq

inductive Scene
  | text (scene : TextScene)
  | video (scene : VideoScene)
deriving DecidableEq

def Scene.title : Scene → String
  | text scene => scene.title
  | video scene => scene.title

structure Act where
  scenes : List Scene
deriving DecidableEq

/-- Any part of a script that can be moved on its own. -/
inductive Component
  | expr {f : Family} (e : Expr f)
  | statement (s : Statement)
  | scene (s : Scene)
  | sequence (s : CommandSequence)
  | act (a : Act)
deriving DecidableEq

/-! ## Equality of numbers

Two scripts agree if they differ in nothing but the representation of equal numbers. -/

def Expr.agrees : {f : Family} → Expr f → Expr f → Bool
  | _, .gap, .gap => true
  | _, .number x, .number y => x.agrees y
  | _, .operation o a b, .operation o' a' b' => o == o' && a.agrees a' && b.agrees b'
  | _, .text s, .text s' => s == s'
  | _, .titleOf v, .titleOf v' => v.agrees v'
  | _, .url s, .url s' => s == s'
  | _, .randomFrom c, .randomFrom c' => c.agrees c'
  | _, .relatedTo v, .relatedTo v' => v.agrees v'
  | _, _, _ => false

def Statement.agrees : Statement → Statement → Bool
  | .get name, .get name' => name == name'
  | .set name value, .set name' value' => name == name' && value.agrees value'
  | _, _ => false

def listAgrees {α : Type} (agrees : α → α → Bool) : List α → List α → Bool
  | [], [] => true
  | a :: as, b :: bs => agrees a b && listAgrees agrees as bs
  | _, _ => false

def CommandSequence.agrees (s t : CommandSequence) : Bool :=
  listAgrees Statement.agrees s.commands t.commands

def Scene.agrees : Scene → Scene → Bool
  | .text s, .text t =>
    s.title == t.title && s.comment == t.comment && s.duration.agrees t.duration
      && s.preCommands.agrees t.preCommands && s.postCommands.agrees t.postCommands
      && s.text.agrees t.text
  | .video s, .video t =>
    s.title == t.title && s.comment == t.comment && s.duration.agrees t.duration
      && s.preCommands.agrees t.preCommands && s.postCommands.agrees t.postCommands
      && s.offset.agrees t.offset && s.source.agrees t.source
  | _, _ => false

def Act.agrees (a b : Act) : Bool := listAgrees Scene.agrees a.scenes b.scenes

def Component.agrees : Component → Component → Bool
  | .expr (f := f) e, .expr (f := g) e' => if h : f = g then e.agrees (h ▸ e') else false
  | .statement s, .statement t => s.agrees t
  | .scene s, .scene t => s.agrees t
  | .sequence s, .sequence t => s.agrees t
  | .act a, .act b => a.agrees b
  | _, _ => false

end SceneScript
