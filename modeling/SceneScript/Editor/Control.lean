import SceneScript.Editor.Error
import SceneScript.Number.Literal
import SceneScript.Text.WhiteSpace

/-! The controls that hold what is edited by hand. A control announces a change only if what it
holds became different, and a refused edit leaves it as it was. -/

namespace SceneScript

/-! ## Text -/

structure TextField where
  text : String
  readOnly : Bool
deriving DecidableEq

namespace TextField

def new (text : String) : TextField := ⟨text, false⟩

def setReadOnly (readOnly : Bool) (f : TextField) : TextField := { f with readOnly }

def setText (f : TextField) (text : String) : Except EditorError (Edited TextField) :=
  if f.readOnly then .error .readOnly
  else if text = f.text then .ok ⟨f, none⟩
  else .ok ⟨{ f with text }, some .control⟩

end TextField

/-! ## Numbers -/

/-- A number as text. Only the text of a finite number is ever taken. -/
structure NumberField where
  text : String
  value : Binary64
  readOnly : Bool
deriving DecidableEq

/-- The finite number a text stands for, white space around it aside. -/
def parseNumber (text : String) : Except EditorError Binary64 :=
  match Binary64.ofChars? (Text.trim text.toList) with
  | some x => if x.isFinite then .ok x else .error (.invalidNumber text)
  | none => .error (.invalidNumber text)

namespace NumberField

def new (value : Binary64) : NumberField := ⟨value.plainText, value, false⟩

def setReadOnly (readOnly : Bool) (f : NumberField) : NumberField := { f with readOnly }

def setText (f : NumberField) (text : String) : Except EditorError (Edited NumberField) :=
  if f.readOnly then .error .readOnly
  else do
    let value ← parseNumber text
    if text = f.text then .ok ⟨f, none⟩
    else .ok ⟨{ f with text, value }, some .control⟩

end NumberField

/-! ## Choices -/

/-- One of a fixed list of options. -/
structure Choice {α : Type} (options : List α) where
  index : Fin options.length
  readOnly : Bool
deriving DecidableEq

namespace Choice

variable {α : Type} [BEq α] {options : List α}

/-- The first position of an option. -/
def of? (options : List α) (a : α) : Option (Choice options) :=
  (options.finIdxOf? a).map fun i => ⟨i, false⟩

def selected {α : Type} {options : List α} (c : Choice options) : α := options[c.index]

def setReadOnly {α : Type} {options : List α} (readOnly : Bool) (c : Choice options) :
    Choice options := { c with readOnly }

/-- Selects an option; `display` is its text in a message. -/
def select (c : Choice options) (display : α → String) (a : α) :
    Except EditorError (Edited (Choice options)) :=
  if c.readOnly then .error .readOnly
  else
    match options.finIdxOf? a with
    | none => .error (.unknownOption (display a))
    | some i =>
      if i = c.index then .ok ⟨c, none⟩ else .ok ⟨{ c with index := i }, some .control⟩

end Choice

/-- The variables a statement may name. -/
def variableNames : List String := ["item", "curr_video", "curr_duration", "curr_offset"]

abbrev VariableChoice := Choice variableNames

def VariableChoice.of (name : String) : Except EditorError VariableChoice :=
  match Choice.of? variableNames name with
  | some c => .ok c
  | none => .error (.unknownVariable name)

def VariableChoice.selectName (c : VariableChoice) (name : String) :
    Except EditorError (Edited VariableChoice) :=
  if name ∈ variableNames then c.select id name else .error (.unknownVariable name)

abbrev OperatorChoice := Choice Operator.all

def OperatorChoice.of (o : Operator) : Except EditorError OperatorChoice :=
  match Choice.of? Operator.all o with
  | some c => .ok c
  | none => .error (.unknownOperator o.symbol)

/-- The choice of an operator; every one is an option. -/
def OperatorChoice.showing (o : Operator) : OperatorChoice :=
  match o with
  | .add => ⟨⟨0, by decide⟩, false⟩
  | .subtract => ⟨⟨1, by decide⟩, false⟩
  | .multiply => ⟨⟨2, by decide⟩, false⟩

def OperatorChoice.selectSymbol (c : OperatorChoice) (symbol : String) :
    Except EditorError (Edited OperatorChoice) :=
  match Operator.ofSymbol? symbol with
  | some o => c.select Operator.symbol o
  | none => .error (.unknownOperator symbol)

/-! ## Titles with comments -/

structure CommentBox where
  title : TextField
  comment : TextField
deriving DecidableEq

namespace CommentBox

def new (title comment : String) : CommentBox := ⟨.new title, .new comment⟩

def setReadOnly (readOnly : Bool) (b : CommentBox) : CommentBox :=
  ⟨b.title.setReadOnly readOnly, b.comment.setReadOnly readOnly⟩

def readOnly (b : CommentBox) : Bool := b.title.readOnly

/-- The title on the first line, and the comment below it if there is one. -/
def text (b : CommentBox) : String :=
  if b.comment.text = "" then b.title.text else b.title.text ++ "\n" ++ b.comment.text

def setTitle (b : CommentBox) (text : String) : Except EditorError (Edited CommentBox) := do
  let e ← b.title.setText text
  .ok ⟨{ b with title := e.part }, e.origin⟩

def setComment (b : CommentBox) (text : String) : Except EditorError (Edited CommentBox) := do
  let e ← b.comment.setText text
  .ok ⟨{ b with comment := e.part }, e.origin⟩

end CommentBox

end SceneScript
