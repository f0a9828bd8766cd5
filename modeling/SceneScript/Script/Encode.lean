import SceneScript.Json.Writer
import SceneScript.Script.Category

/-! Scripts as document values. A part with several forms is an object that names its form first;
a component names its category before that, in the same object. -/

namespace SceneScript

def typed (type : String) (fields : List (String × Json)) : List (String × Json) :=
  ("type", .string type) :: fields

/-- The members of an expression. -/
def Expr.members : {f : Family} → Expr f → List (String × Json)
  | _, .gap => typed "Gap" []
  | _, .number x => typed "Value" [("value", .real x)]
  | _, .operation o a b =>
    typed (Kind.operation o).name [("op1", .object a.members), ("op2", .object b.members)]
  | _, .text s => typed "Value" [("value", .string s)]
  | _, .titleOf v => typed Kind.titleOf.name [("video", .object v.members)]
  | _, .url s => typed "Value" [("value", .string s)]
  | _, .randomFrom c => typed Kind.randomFrom.name [("video_collection", .object c.members)]
  | _, .relatedTo v => typed Kind.relatedTo.name [("video", .object v.members)]

def Expr.toJson {f : Family} (e : Expr f) : Json := .object e.members

def Statement.members : Statement → List (String × Json)
  | .get name => typed Kind.get.name [("name", .string name)]
  | .set name value => typed Kind.set.name [("name", .string name), ("value", value.toJson)]

def Statement.toJson (s : Statement) : Json := .object s.members

def CommandSequence.members (s : CommandSequence) : List (String × Json) :=
  [("commands", .array (s.commands.map Statement.toJson))]

def CommandSequence.toJson (s : CommandSequence) : Json := .object s.members

def Scene.members : Scene → List (String × Json)
  | .text s => typed "Text"
      [("title", .string s.title), ("comment", .string s.comment), ("duration", s.duration.toJson),
       ("pre_commands", s.preCommands.toJson), ("post_commands", s.postCommands.toJson),
       ("text", s.text.toJson)]
  | .video s => typed "Video"
      [("title", .string s.title), ("comment", .string s.comment), ("duration", s.duration.toJson),
       ("pre_commands", s.preCommands.toJson), ("post_commands", s.postCommands.toJson),
       ("offset", s.offset.toJson), ("source", s.source.toJson)]

def Scene.toJson (s : Scene) : Json := .object s.members

def Act.members (a : Act) : List (String × Json) :=
  [("scenes", .array (a.scenes.map Scene.toJson))]

def Act.toJson (a : Act) : Json := .object a.members

namespace Component

/-- The name of a category in a component's text. -/
def tag : Category → String
  | .expr .number => "Number"
  | .expr .text => "Text"
  | .expr .video => "Video"
  | .expr .collection => "VideoCollection"
  | category => category.name

def members : Component → List (String × Json)
  | expr e => e.members
  | statement s => s.members
  | scene s => s.members
  | sequence s => s.members
  | act a => a.members

def toJson (c : Component) : Json := .object (("category", .string (tag c.category)) :: c.members)

def text (c : Component) : String := c.toJson.compact

end Component

end SceneScript
