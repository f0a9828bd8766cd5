import SceneScript.Editor.Target
import SceneScript.Script.Encode

/-! Building any component as a part of its own. -/

namespace SceneScript

/-- A part of any kind. -/
structure AnyPart where
  site : Site
  part : site.Part

namespace Component

/-- What the constructor of a component's own family comes to. -/
def construct : Component → Except EditorError AnyPart
  | expr (f := f) e => do .ok ⟨.node f, ← Node.new e⟩
  | statement s => do .ok ⟨.statement, ← StatementNode.new s⟩
  | scene s => do .ok ⟨.scene, ← SceneNode.new s⟩
  | sequence s => do .ok ⟨.sequence, ← SequenceNode.build s⟩
  | act a => do .ok ⟨.act, ← ActNode.build a⟩

/-- Builds the tree of a component, which may not be a gap. -/
def build (c : Component) : Except EditorError AnyPart :=
  Registry.build c.category c.kind c.construct

end Component

namespace Site

/-- The script of a part as a component; lists are none. -/
def component? : (s : Site) → s.Part → Option Component
  | slot _, p => some (.expr p.model)
  | node _, p => some (.expr p.model)
  | statement, p => some (.statement p.model)
  | commands, _ => none
  | sequence, p => some (.sequence p.model)
  | scene, p => some (.scene p.model)
  | scenes, _ => none
  | act, p => some (.act p.model)

/-- The text of a part's script, the entries of a list in brackets. -/
def text : (s : Site) → s.Part → String
  | commands, p => (Json.array (p.items.map fun i => i.model.toJson)).compact
  | scenes, p => (Json.array (p.items.map fun i => i.model.toJson)).compact
  | slot _, p => (Component.expr p.model).text
  | node _, p => (Component.expr p.model).text
  | statement, p => (Component.statement p.model).text
  | sequence, p => (Component.sequence p.model).text
  | scene, p => (Component.scene p.model).text
  | act, p => (Component.act p.model).text

/-- What a drag from a part carries; only nodes of expressions, statements and scenes can be
dragged. -/
def snapshot? : (s : Site) → s.Part → Option Component
  | node _, p => some (.expr p.model)
  | statement, p => some (.statement p.model)
  | scene, p => some (.scene p.model)
  | _, _ => none

end Site

end SceneScript
