import SceneScript.Json.Skip
import SceneScript.Json.Writer
import SceneScript.Script.Load

/-! The configuration of the command line, an optional file beside the documents. Every setting
has a default, and settings of other names are passed over unread. -/

namespace SceneScript

structure Config where
  logLevel : String
  pretty : Bool
  readOnly : Bool
deriving DecidableEq, Repr

namespace Config

def fileName : String := "montage.config.json"

def default : Config := ⟨"warn", true, false⟩

def wanted : String := "struct Config"

/-- The text of a value, as the configuration wants it. -/
def write (c : Config) (json : Json) : String := if c.pretty then json.pretty else json.compact

/-! ## Reading -/

/-- The settings met so far. -/
structure Settings where
  logLevel : Option String
  pretty : Option Bool
  readOnly : Option Bool

def Settings.complete (s : Settings) : Config where
  logLevel := s.logLevel.getD default.logLevel
  pretty := s.pretty.getD default.pretty
  readOnly := s.readOnly.getD default.readOnly

def readFlag (n : Nat) (src : Source) : Except Fault (Read Bool) := do
  match ← Json.readFound n src with
  | (.bool b, rest) => .ok (b, rest)
  | (found, _) => .error (.invalidType found "a boolean")

def readLevel (n : Nat) (src : Source) : Except Fault (Read String) :=
  Json.readText n "a string" src

/-- A setting after its key, unless it is there already. -/
def readOnce {α : Type} (key : String) (read : Source → Except Fault (Read α)) (known : Option α)
    (src : Source) : Except Fault (Read (Option α)) :=
  match known with
  | some _ => .error (.duplicateField key)
  | none => do
    let (a, rest) ← read (← Json.readColon src)
    .ok (some a, rest)

def readSetting (n : Nat) (s : Settings) (key : String) (src : Source) :
    Except Fault (Read Settings) := do
  if key = "logLevel" then
    let (logLevel, rest) ← readOnce key (readLevel n) s.logLevel src
    .ok ({ s with logLevel }, rest)
  else if key = "pretty" then
    let (pretty, rest) ← readOnce key (readFlag n) s.pretty src
    .ok ({ s with pretty }, rest)
  else if key = "readOnly" then
    let (readOnly, rest) ← readOnce key (readFlag n) s.readOnly src
    .ok ({ s with readOnly }, rest)
  else
    .ok (s, ← Json.skipValue n n [] (← Json.readColon src))

/-- The settings as a list, in the order of their declaration; those missing at the end keep their
defaults. -/
def readList (n : Nat) (src : Source) : Except Fault (Read Settings) := do
  match ← Json.nextItem true src with
  | .inr rest => .ok (⟨none, none, none⟩, rest)
  | .inl src =>
    let (logLevel, rest) ← readLevel n src
    match ← Json.nextItem false rest with
    | .inr rest => .ok (⟨some logLevel, none, none⟩, rest)
    | .inl src =>
      let (pretty, rest) ← readFlag n src
      match ← Json.nextItem false rest with
      | .inr rest => .ok (⟨some logLevel, some pretty, none⟩, rest)
      | .inl src =>
        let (readOnly, rest) ← readFlag n src
        .ok (⟨some logLevel, some pretty, some readOnly⟩, ← closeList rest)
where
  /-- The end of a list that is already full. -/
  closeList (src : Source) : Except Fault Source :=
    match skipBlank src with
    | [] => .error (.eof .list)
    | s :: rest =>
      if s = .char ']' then .ok rest
      else if s = .char ',' ∧ (skipBlank rest).head? = some (.char ']') then .error .trailingComma
      else .error .trailingCharacters

def readSettings (n : Nat) (src : Source) : Except Fault (Read Settings) :=
  match skipBlank src with
  | .char '\x7b' :: rest => Json.foldMembers n (readSetting n) n true ⟨none, none, none⟩ rest
  | .char '[' :: rest => readList n rest
  | src => do
    let (found, _) ← Json.readFound n src
    .error (.invalidType found wanted)

def ofText (s : String) : Except Fault Config := do
  let src := Source.ofString s
  let settings ← finish (← readSettings (Json.bound src) src)
  .ok settings.complete

end Config

end SceneScript
