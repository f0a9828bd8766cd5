import SceneScript.Json.Fault
import SceneScript.Script.Category

/-! How each part of a script is written: a number, a string, a list, a record of named fields, or
a choice between variants, named by a tag, each with fields of its own. -/

namespace SceneScript

/-- The parts of a script that stand where a field or an item does. -/
inductive Shape
  | real
  | string
  | expr (f : Family)
  | statement
  | statements
  | sequence
  | scene
  | scenes
  | act
deriving DecidableEq, Repr

abbrev Shape.Value : Shape → Type
  | real => Binary64
  | string => String
  | expr f => Expr f
  | statement => Statement
  | statements => List Statement
  | sequence => CommandSequence
  | scene => Scene
  | scenes => List Scene
  | act => Act

abbrev Fields := List (String × Shape)

/-- One value for each field. -/
def Record : Fields → Type
  | [] => Unit
  | (_, s) :: fields => s.Value × Record fields

/-- A named way to make a value from fields; `label` names the record in messages. -/
structure Variant (α : Type) where
  name : String
  label : String
  fields : Fields
  make : Record fields → α

inductive Form (α : Type)
  | real (make : Binary64 → α)
  | string (make : String → α)
  | list (item : Shape) (make : List item.Value → α)
  | record (variant : Variant α)
  | choice (name : String) (variants : List (Variant α))

/-- What is wanted where a value of this form belongs. -/
def Form.wanted {α : Type} : Form α → String
  | real _ => "f64"
  | string _ => "a string"
  | list _ _ => "a sequence"
  | record v => v.label
  | choice name _ => "internally tagged enum " ++ name

namespace Shape

/-- A variant of the choice called `owner`. -/
def variant {α : Type} (owner name : String) (fields : Fields) (make : Record fields → α) :
    Variant α :=
  ⟨name, "struct variant " ++ owner ++ "::" ++ name, fields, make⟩

def gapVariant (f : Family) : Variant (Expr f) :=
  variant (Category.expr f).name "Gap" [] fun _ => .gap

def operationVariant (o : Operator) : Variant (Expr .number) :=
  variant (Category.expr .number).name (Kind.operation o).name
    [("op1", .expr .number), ("op2", .expr .number)] fun (a, b, _) => .operation o a b

def exprVariants : (f : Family) → List (Variant (Expr f))
  | .number =>
    [gapVariant _,
     variant (Category.expr .number).name "Value" [("value", .real)] fun (x, _) => .number x,
     operationVariant .add, operationVariant .subtract, operationVariant .multiply]
  | .text =>
    [gapVariant _,
     variant (Category.expr .text).name "Value" [("value", .string)] fun (s, _) => .text s,
     variant (Category.expr .text).name Kind.titleOf.name [("video", .expr .video)]
       fun (v, _) => .titleOf v]
  | .video =>
    [gapVariant _,
     variant (Category.expr .video).name "Value" [("value", .string)] fun (s, _) => .url s,
     variant (Category.expr .video).name Kind.randomFrom.name
       [("video_collection", .expr .collection)] fun (c, _) => .randomFrom c]
  | .collection =>
    [gapVariant _,
     variant (Category.expr .collection).name Kind.relatedTo.name [("video", .expr .video)]
       fun (v, _) => .relatedTo v]

def statementVariants : List (Variant Statement) :=
  [variant Category.statement.name Kind.get.name [("name", .string)] fun (s, _) => .get s,
   variant Category.statement.name Kind.set.name [("name", .string), ("value", .expr .number)]
     fun (s, e, _) => .set s e]

def sceneVariants : List (Variant Scene) :=
  [⟨"Text", "struct TextScene",
    [("title", .string), ("comment", .string), ("duration", .expr .number),
     ("pre_commands", .sequence), ("post_commands", .sequence), ("text", .expr .text)],
    fun (title, comment, duration, pre, post, text, _) =>
      .text ⟨title, comment, duration, pre, post, text⟩⟩,
   ⟨"Video", "struct VideoScene",
    [("title", .string), ("comment", .string), ("duration", .expr .number),
     ("pre_commands", .sequence), ("post_commands", .sequence), ("offset", .expr .number),
     ("source", .expr .video)],
    fun (title, comment, duration, pre, post, offset, source, _) =>
      .video ⟨title, comment, duration, pre, post, offset, source⟩⟩]

def sequenceRecord : Variant CommandSequence :=
  ⟨"CommandSequence", "struct CommandSequence", [("commands", .statements)], fun (s, _) => ⟨s⟩⟩

def actRecord : Variant Act := ⟨"Act", "struct Act", [("scenes", .scenes)], fun (s, _) => ⟨s⟩⟩

def form : (s : Shape) → Form s.Value
  | real => .real id
  | string => .string id
  | expr f => .choice (Category.expr f).name (exprVariants f)
  | statement => .choice Category.statement.name statementVariants
  | statements => .list .statement id
  | sequence => .record sequenceRecord
  | scene => .choice Category.scene.name sceneVariants
  | scenes => .list .scene id
  | act => .record actRecord

end Shape

end SceneScript
