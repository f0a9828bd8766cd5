import SceneScript.Json.Value
import SceneScript.Script.Form

/-! From document values to scripts. A record is an object with its fields in any order, or a list
of them in the order they are declared; a choice puts its tag among the members, or in front of
the list. Unknown members are skipped. Faults are found in the order of the text. -/

namespace SceneScript

/-- The parts of a record or a choice. -/
inductive Body
  | members (ms : List (String × Json))
  | items (js : List Json)

def Json.body? : Json → Option Body
  | .object ms => some (.members ms)
  | .array js => some (.items js)
  | _ => none

/-- Reads a value of any shape. -/
abbrev Decoder := (s : Shape) → Json → Except Fault s.Value

/-! ## Records -/

/-- The values met so far. -/
def Partial : Fields → Type
  | [] => Unit
  | (_, s) :: fields => Option s.Value × Partial fields

def Partial.none : (fields : Fields) → Partial fields
  | [] => ()
  | (_, _) :: fields => (Option.none, Partial.none fields)

/-- Puts a member where it belongs; it may not be there yet. -/
def Partial.put (decode : Decoder) :
    (fields : Fields) → Partial fields → String → Json → Except Fault (Partial fields)
  | [], p, _, _ => .ok p
  | (name, s) :: fields, (value, p), key, json =>
    if key = name then
      match value with
      | some _ => .error (.duplicateField name)
      | Option.none => do .ok (some (← decode s json), p)
    else do .ok (value, ← Partial.put decode fields p key json)

def Partial.putAll (decode : Decoder) (fields : Fields) :
    Partial fields → List (String × Json) → Except Fault (Partial fields)
  | p, [] => .ok p
  | p, (key, json) :: ms => do putAll decode fields (← p.put decode fields key json) ms

/-- Every field has to be there. -/
def Partial.complete : (fields : Fields) → Partial fields → Except Fault (Record fields)
  | [], _ => .ok ()
  | (name, _) :: _, (Option.none, _) => .error (.missingField name)
  | (_, _) :: fields, (some value, p) => do .ok (value, ← Partial.complete fields p)

/-- One item for each field, and the items left over; `short` is the fault of too few. -/
def Record.ofItems (decode : Decoder) (short : Fault) :
    (fields : Fields) → List Json → Except Fault (Record fields × List Json)
  | [], js => .ok ((), js)
  | _ :: _, [] => .error short
  | (_, s) :: fields, json :: js => do
    let value ← decode s json
    let (record, rest) ← Record.ofItems decode short fields js
    .ok ((value, record), rest)

/-- The fields of a variant; `surplus` is the fault of too many items. -/
def Variant.decodeWith {α : Type} (surplus : Fault) (decode : Decoder) (v : Variant α)
    (body : Body) : Except Fault α :=
  match body with
  | .members ms => do
    let p ← Partial.putAll decode v.fields (Partial.none v.fields) ms
    .ok (v.make (← Partial.complete v.fields p))
  | .items js => do
    let short := .invalidLength js.length (v.label ++ " with " ++ elements v.fields.length)
    let (record, rest) ← Record.ofItems decode short v.fields js
    if rest = [] then .ok (v.make record) else .error surplus

def Body.length : Body → Nat
  | members ms => ms.length
  | items js => js.length

def Variant.decode {α : Type} (decode : Decoder) (v : Variant α) (body : Body) : Except Fault α :=
  let surplus := .invalidLength body.length (elements v.fields.length ++ " in sequence")
  v.decodeWith surplus decode body

/-! ## Choices -/

/-- How a tag may name a variant. -/
inductive TagStyle
  | name
  | nameOrIndex
deriving DecidableEq, Repr

/-- The variant of this name. -/
def findVariant {α : Type} (options : List (String × α)) (name : String) : Except Fault α :=
  match options.find? (·.1 == name) with
  | some (_, a) => .ok a
  | none => .error (.unknownVariant name (options.map (·.1)))

def decodeTag {α : Type} (style : TagStyle) (options : List (String × α)) :
    Json → Except Fault α
  | .string name => findVariant options name
  | .number (.integer i) =>
    if style = .nameOrIndex ∧ 0 ≤ i then
      match options[i.toNat]? with
      | some (_, a) => .ok a
      | none => .error (.invalidIndex i options.length)
    else .error (.invalidType (.number (.integer i)) "variant identifier")
  | json => .error (.mismatch json "variant identifier")

/-- Takes the tag out of the members. -/
def takeTag {α : Type} (tag : String) (decode : Json → Except Fault α) :
    Option α → List (String × Json) → Except Fault (α × List (String × Json))
  | some a, [] => .ok (a, [])
  | none, [] => .error (.missingField tag)
  | found, (key, json) :: ms =>
    if key = tag then
      match found with
      | some _ => .error (.duplicateField tag)
      | none => do takeTag tag decode (some (← decode json)) ms
    else do
      let (a, rest) ← takeTag tag decode found ms
      .ok (a, (key, json) :: rest)

/-- The variant a tag names, and the parts beside the tag. -/
def Body.split {α : Type} (tag : String) (style : TagStyle) (options : List (String × α)) :
    Body → Except Fault (α × Body)
  | members ms => do
    let (a, rest) ← takeTag tag (decodeTag style options) none ms
    .ok (a, members rest)
  | items [] => .error (.missingField tag)
  | items (json :: js) => do .ok (← decodeTag style options json, items js)

def decodeChoice {α : Type} (style : TagStyle) (decode : Decoder) (variants : List (Variant α))
    (body : Body) : Except Fault α := do
  let (v, rest) ← body.split "type" style (variants.map fun v => (v.name, v))
  v.decode decode rest

/-! ## All shapes -/

def decodeList {α : Type} (decode : Json → Except Fault α) : List Json → Except Fault (List α)
  | [] => .ok []
  | json :: js => do .ok ((← decode json) :: (← decodeList decode js))

/-- Reads the parts of a record or a choice. -/
def Form.decodeBody {α : Type} (decode : Decoder) : Form α → Body → Except Fault α
  | .record v, body => v.decode decode body
  | .choice _ variants, body => decodeChoice .nameOrIndex decode variants body
  | form, .members _ => .error (.invalidType .map form.wanted)
  | form, .items _ => .error (.invalidType .sequence form.wanted)

def Form.decode {α : Type} (decode : Decoder) : Form α → Json → Except Fault α
  | .real make, .number x => .ok (make x.toBinary64)
  | .string make, .string s => .ok (make s)
  | .list item make, .array js => do .ok (make (← decodeList (decode item) js))
  | .real make, json => .error (.mismatch json (Form.real make).wanted)
  | .string make, json => .error (.mismatch json (Form.string make).wanted)
  | .list item make, json => .error (.mismatch json (Form.list item make).wanted)
  | form, json =>
    match json.body? with
    | some body => form.decodeBody decode body
    | none => .error (.mismatch json form.wanted)

/-- Reads a value nested at most `depth` levels deep. -/
def Shape.decode : Nat → Decoder
  | 0, _, _ => .error .recursionLimit
  | depth + 1, s, json => s.form.decode (Shape.decode depth) json

end SceneScript
