import SceneScript.Editor.Error

/-! The registry tells which family of nodes shows the components of a kind. A gap has no entry: it
is an empty slot, never a node. -/

namespace SceneScript

namespace Registry

/-- The family of each kind, by its category. -/
def builders : List (Kind × Category) :=
  [(.numberValue, .expr .number), (.operation .add, .expr .number),
   (.operation .subtract, .expr .number), (.operation .multiply, .expr .number),
   (.textValue, .expr .text), (.titleOf, .expr .text), (.url, .expr .video),
   (.randomFrom, .expr .video), (.relatedTo, .expr .collection), (.get, .statement),
   (.set, .statement), (.textScene, .scene), (.videoScene, .scene), (.sequence, .sequence),
   (.act, .act)]

def builder? (k : Kind) : Option Category := builders.lookup k

/-- Builds a component of a category: the family of its kind is looked up, the component narrowed
to that family, and the node constructed. -/
def build {α : Type} (category : Category) (k : Kind) (construct : Except EditorError α) :
    Except EditorError α :=
  match builder? k with
  | none => .error (.unsupported k)
  | some family => if category = family then construct else .error (.incompatible family k)

end Registry

/-- Whether components of the kind can be shown for editing. -/
def Kind.isEditable (k : Kind) : Bool := (Registry.builder? k).isSome

end SceneScript
