import SceneScript.Json.Reader
import SceneScript.Script.Decode
import SceneScript.Script.Encode

/-! Loading components and documents from text. The root of a component is read from the text
itself: its category is decided where it is met, before faults further on, and everything beside
it is only kept. What was kept is decoded once the root is complete. A document is an act, either
bare or as a component. -/

namespace SceneScript

/-- The shape behind each category's tag. -/
def Category.shape : Category → Shape
  | expr f => .expr f
  | statement => .statement
  | scene => .scene
  | sequence => .sequence
  | act => .act

def Category.component : (c : Category) → c.shape.Value → Component
  | expr _, e => .expr e
  | statement, s => .statement s
  | scene, s => .scene s
  | sequence, s => .sequence s
  | act, a => .act a

namespace Component

/-- The categories under their names in a component's text. -/
def tags : List (String × Category) := Category.all.map fun c => (tag c, c)

def wanted : String := "internally tagged enum LanguageComponent"

def decodeBody (c : Category) (body : Body) : Except Fault Component := do
  .ok (c.component (← c.shape.form.decodeBody (Shape.decode Json.maxDepth) body))

/-! ## The root -/

structure Root where
  category : Option Category
  rest : List (String × Json)

def readTag (n : Nat) (src : Source) : Except Fault (Read Category) := do
  let (name, rest) ← Json.readText n "variant identifier" src
  .ok (← findVariant tags name, rest)

def readRootMember (n : Nat) (root : Root) (key : String) (src : Source) :
    Except Fault (Read Root) :=
  if key = "category" then
    match root.category with
    | some _ => .error (.duplicateField key)
    | none => do
      let (c, rest) ← readTag n (← Json.readColon src)
      .ok ({ root with category := some c }, rest)
  else do
    let (json, rest) ← Json.readValue n (Json.maxDepth - 1) (← Json.readColon src)
    .ok ({ root with rest := (key, json) :: root.rest }, rest)

/-- The items of the root, the first of which is the tag. -/
def readRootItem (n : Nat) (root : Option Category × List Json) (src : Source) :
    Except Fault (Read (Option Category × List Json)) :=
  match root with
  | (none, items) => do
    let (c, rest) ← readTag n src
    .ok ((some c, items), rest)
  | (some c, items) => do
    let (json, rest) ← Json.readValue n (Json.maxDepth - 1) src
    .ok ((some c, json :: items), rest)

/-- The category of the root, and the parts beside its tag. -/
def readRoot (n : Nat) (src : Source) : Except Fault (Read (Category × Body)) := do
  match skipBlank src with
  | .char '\x7b' :: rest =>
    let (root, rest) ← Json.foldMembers n (readRootMember n) n true ⟨none, []⟩ rest
    match root.category with
    | some c => .ok ((c, .members root.rest.reverse), rest)
    | none => .error (.missingField "category")
  | .char '[' :: rest =>
    let (root, rest) ← Json.foldItems (readRootItem n) n true (none, []) rest
    match root with
    | (some c, items) => .ok ((c, .items items.reverse), rest)
    | (none, _) => .error (.missingField "category")
  | src =>
    let (found, _) ← Json.readFound n src
    .error (.invalidType found wanted)

def ofSource (src : Source) : Except Fault Component := do
  let ((c, body), rest) ← readRoot (Json.bound src) src
  finish (← decodeBody c body, rest)

def ofText (s : String) : Except Fault Component := ofSource (.ofString s)

end Component

/-! ## Documents -/

inductive DocumentError
  | malformed (fault : Fault)
  | notAnAct (found : Kind)
deriving DecidableEq

def DocumentError.message : DocumentError → String
  | malformed fault => "Malformed document: " ++ fault.message
  | notAnAct found => "Expected an act at the document root, found " ++ found.name

/-- A scene of a bare act, whose type is given by name. -/
def Scene.ofBare (json : Json) : Except Fault Scene :=
  match json.body? with
  | some body => decodeChoice .name (Shape.decode Json.maxDepth) Shape.sceneVariants body
  | none => .error (.mismatch json Shape.scene.form.wanted)

/-- The fields of a bare act. -/
def Act.decodeBareField : Decoder
  | .scenes, .array js => decodeList Scene.ofBare js
  | s, json => Shape.decode Json.maxDepth s json

def Act.ofBare (json : Json) : Except Fault Act :=
  match json.body? with
  | some body => Shape.actRecord.decodeWith .trailingCharacters Act.decodeBareField body
  | none => .error (.mismatch json Shape.act.form.wanted)

/-- Loads a document. An object with a category is a component, anything else a bare act. -/
def Act.ofText (s : String) : Except DocumentError Act := do
  let root ← (Json.ofText s).mapError .malformed
  if root.hasMember "category" then
    let c ← (Component.ofText s).mapError .malformed
    match c with
    | .act a => .ok a
    | c => .error (.notAnAct c.kind)
  else (Act.ofBare root).mapError .malformed

end SceneScript
