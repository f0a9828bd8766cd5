import SceneScript.Script.Category

/-! The components offered for dragging, each under a label. -/

namespace SceneScript

structure PaletteEntry where
  label : String
  component : Component

namespace Palette

def exampleUrl : String := "http://www.youtube.com/watch?v=9bZkp7q19f0"

def number (n : Nat) : Expr .number := .number (.ofNat n)

def exampleVideoScene : Scene := .video {
  title := "Example Video Scene"
  comment := "Displays Gangnam Style video for 10 seconds from offset 0 seconds."
  duration := number 10
  preCommands := ⟨[]⟩
  postCommands := ⟨[]⟩
  offset := number 0
  source := .url exampleUrl }

def exampleTextScene : Scene := .text {
  title := "Example Text Scene"
  comment := "Displays title of Gangnam Style video for 2 seconds."
  duration := number 2
  preCommands := ⟨[]⟩
  postCommands := ⟨[]⟩
  text := .titleOf (.url exampleUrl) }

def entries : List PaletteEntry :=
  [⟨"Number", .expr (number 0)⟩,
   ⟨"Arithmetic", .expr (.operation .add .gap .gap)⟩,
   ⟨"Text", .expr (.text "")⟩,
   ⟨"Video", .expr (.url exampleUrl)⟩,
   ⟨"Get Variable", .statement (.get "item")⟩,
   ⟨"Set Variable", .statement (.set "item" .gap)⟩,
   ⟨"Video Title", .expr (.titleOf .gap)⟩,
   ⟨"Related Videos", .expr (.relatedTo .gap)⟩,
   ⟨"Random Video", .expr (.randomFrom .gap)⟩,
   ⟨"Video Scene", .scene exampleVideoScene⟩,
   ⟨"Text Scene", .scene exampleTextScene⟩]

/-- The entry under a label, whatever the case of its ASCII letters. -/
def find? (label : String) : Option PaletteEntry :=
  entries.find? fun e => e.label.toList.map Char.toLower == label.toList.map Char.toLower

end Palette

end SceneScript
