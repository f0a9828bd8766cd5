import SceneScript.Json.Fault
import SceneScript.Script.Category

/-! What an edit can be refused for, and what a successful one announces. -/

namespace SceneScript

inductive EditorError
  | unsupported (kind : Kind)
  | slotNotOccupied (category : Category)
  | incompatible (expected : Category) (found : Kind)
  | invalidNumber (text : String)
  | unknownVariable (name : String)
  | unknownOperator (symbol : String)
  | unknownOption (text : String)
  | readOnly
  | dragInProgress
  | noActiveDrag
  | unknownFormat (format : String)
  | payload (fault : Fault)
  | noSuchTarget (index : Nat)
deriving DecidableEq

def EditorError.message : EditorError → String
  | unsupported kind => "No editable representation is registered for " ++ kind.name
  | slotNotOccupied category => "The " ++ category.label ++ " slot is not occupied"
  | incompatible expected found =>
    found.name ++ " cannot be placed where a " ++ expected.label ++ " is expected"
  | invalidNumber text => "Not a number: " ++ Text.quoted text
  | unknownVariable name => "Unknown variable: " ++ name
  | unknownOperator symbol => "Unknown operator: " ++ symbol
  | unknownOption text => "Option is not available: " ++ text
  | readOnly => "Component is read-only"
  | dragInProgress => "A drag is already in progress"
  | noActiveDrag => "No drag is in progress"
  | unknownFormat format => "Unknown payload format: " ++ format
  | payload fault => "Payload error: " ++ fault.message
  | noSuchTarget index => "No drop target at index " ++ toString index

/-- The kinds of change that are announced. -/
inductive Origin
  | control
  | slotFilled
  | slotEmptied
  | listAppended
deriving DecidableEq, Repr

def Origin.name : Origin → String
  | control => "Control"
  | slotFilled => "SlotFilled"
  | slotEmptied => "SlotEmptied"
  | listAppended => "ListAppended"

/-- A part after an edit, and the change to announce if there was one. -/
structure Edited (α : Type) where
  part : α
  origin : Option Origin
deriving DecidableEq

/-- One more announcement, if there was a change. -/
def countChange (emitted : Nat) (origin : Option Origin) : Nat :=
  emitted + if origin.isSome then 1 else 0

end SceneScript
