import SceneScript.Script.Syntax

/-! Every component belongs to one category, which says where it may be placed, and is of one
kind, which says what it is. A gap belongs to the category of what it stands for. -/

namespace SceneScript

inductive Category
  | expr (f : Family)
  | statement
  | scene
  | sequence
  | act
deriving DecidableEq, Repr

namespace Category

def all : List Category :=
  [expr .number, expr .text, expr .video, expr .collection, statement, scene, sequence, act]

def name : Category → String
  | expr .number => "NumberExpression"
  | expr .text => "TextExpression"
  | expr .video => "VideoExpression"
  | expr .collection => "VideoCollectionExpression"
  | statement => "Statement"
  | scene => "Scene"
  | sequence => "CommandSequence"
  | act => "Act"

/-- The category in words. -/
def label : Category → String
  | expr .number => "number"
  | expr .text => "text"
  | expr .video => "video"
  | expr .collection => "video collection"
  | statement => "statement"
  | scene => "scene"
  | sequence => "command sequence"
  | act => "act"

def gap? : Category → Option Component
  | expr f => some (.expr (.gap (f := f)))
  | _ => none

end Category

inductive Kind
  | gap (f : Family)
  | numberValue
  | operation (o : Operator)
  | textValue
  | titleOf
  | url
  | randomFrom
  | relatedTo
  | get
  | set
  | sequence
  | textScene
  | videoScene
  | act
deriving DecidableEq, Repr

namespace Kind

def all : List Kind :=
  [gap .number, numberValue, operation .add, operation .subtract, operation .multiply,
   gap .text, textValue, titleOf, gap .video, url, randomFrom, gap .collection, relatedTo,
   get, set, sequence, textScene, videoScene, act]

def name : Kind → String
  | gap .number => "NumberGap"
  | gap .text => "TextGap"
  | gap .video => "VideoGap"
  | gap .collection => "VideoCollectionGap"
  | numberValue => "NumberValue"
  | operation .add => "Add"
  | operation .subtract => "Subtract"
  | operation .multiply => "Multiply"
  | textValue => "TextValue"
  | titleOf => "YoutubeVideoGetTitle"
  | url => "VideoValue"
  | randomFrom => "YoutubeVideoCollectionRandom"
  | relatedTo => "YoutubeVideoGetRelated"
  | get => "GetVariable"
  | set => "SetVariable"
  | sequence => "CommandSequence"
  | textScene => "TextScene"
  | videoScene => "VideoScene"
  | act => "Act"

def isGap : Kind → Bool
  | gap _ => true
  | _ => false

end Kind

def Expr.kind : {f : Family} → Expr f → Kind
  | f, .gap => .gap f
  | _, .number _ => .numberValue
  | _, .operation o _ _ => .operation o
  | _, .text _ => .textValue
  | _, .titleOf _ => .titleOf
  | _, .url _ => .url
  | _, .randomFrom _ => .randomFrom
  | _, .relatedTo _ => .relatedTo

namespace Component

def category : Component → Category
  | expr (f := f) _ => .expr f
  | statement _ => .statement
  | scene _ => .scene
  | sequence _ => .sequence
  | act _ => .act

def kind : Component → Kind
  | expr e => e.kind
  | statement (.get _) => .get
  | statement (.set _ _) => .set
  | scene (.text _) => .textScene
  | scene (.video _) => .videoScene
  | sequence _ => .sequence
  | act _ => .act

def isGap (c : Component) : Bool := c.kind.isGap

/-! ## The part inside, if the component is of the category -/

def expr? (f : Family) : Component → Option (Expr f)
  | expr (f := g) e => if h : g = f then some (h ▸ e) else none
  | _ => none

def statement? : Component → Option Statement
  | statement s => some s
  | _ => none

def scene? : Component → Option Scene
  | scene s => some s
  | _ => none

def act? : Component → Option Act
  | act a => some a
  | _ => none

end Component

end SceneScript
