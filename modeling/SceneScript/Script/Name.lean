import SceneScript.Json.Reader
import SceneScript.Script.Decode

/-! Categories and kinds as document values: a string, or an object with one member of that name
and no value. -/

namespace SceneScript

/-- A name after its opening quote, and what is known by it. -/
def readName {α : Type} (n : Nat) (options : List (String × α)) (src : Source) :
    Except Fault (Read α) := do
  let (name, rest) ← Json.readString n [] true src
  .ok (← findVariant options name, rest)

/-- The value of a name's member is `null`. -/
def readNothing (n : Nat) (src : Source) : Except Fault Source := do
  match ← Json.readFound n src with
  | (.null, rest) => .ok rest
  | (found, _) => .error (.invalidType found "unit")

/-- An object after its brace: a name, nothing, and the end. -/
def readWrapped {α : Type} (n : Nat) (options : List (String × α)) (src : Source) :
    Except Fault (Read α) := do
  match ← Json.nextKey true src with
  | .inr _ => .error .expectedValue
  | .inl src =>
    let (a, rest) ← readName n options src
    let rest ← readNothing n (← Json.readColon rest)
    match skipBlank rest with
    | [] => .error (.eof .object)
    | s :: rest => if s = .char '\x7d' then .ok (a, rest) else .error .expectedValue

def readChoice {α : Type} (n : Nat) (options : List (String × α)) (src : Source) :
    Except Fault (Read α) :=
  match skipBlank src with
  | [] => .error (.eof .value)
  | .char '"' :: rest => readName n options rest
  | .char '\x7b' :: rest => readWrapped n options rest
  | _ => .error .expectedValue

def choiceOfText {α : Type} (options : List (String × α)) (s : String) : Except Fault α := do
  let src := Source.ofString s
  finish (← readChoice (Json.bound src) options src)

def Category.ofText (s : String) : Except Fault Category :=
  choiceOfText (Category.all.map fun c => (c.name, c)) s

def Kind.ofText (s : String) : Except Fault Kind :=
  choiceOfText (Kind.all.map fun k => (k.name, k)) s

end SceneScript
