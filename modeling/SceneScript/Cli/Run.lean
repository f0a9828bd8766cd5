import SceneScript.Cli.Arguments
import SceneScript.Cli.Config
import SceneScript.Cli.Files
import SceneScript.Editor.Document
import SceneScript.Editor.Palette

/-! The commands. Each is a function of the files it may read; what it prints and writes is its
result. A failure is told with all that led to it, and leaves files as they were. -/

namespace SceneScript

/-! ## Failures -/

/-- A failure, the outermost message first. -/
structure Failure where
  message : String
  causes : List String
deriving DecidableEq, Repr

namespace Failure

def plain (message : String) : Failure := ⟨message, []⟩

/-- The failure as the cause of another. -/
def within (context : String) (f : Failure) : Failure := ⟨context, f.message :: f.causes⟩

def text (f : Failure) : String := ": ".intercalate (f.message :: f.causes)

def ofFault (f : Fault) : Failure := plain f.message

def ofDocument (e : DocumentError) : Failure :=
  match e with
  | .malformed f => ⟨e.message, [f.message]⟩
  | .notAnAct _ => plain e.message

def ofEditor (e : EditorError) : Failure :=
  match e with
  | .payload f => ⟨e.message, [f.message]⟩
  | _ => plain e.message

end Failure

/-- What a command prints and writes. -/
structure Output where
  stdout : String
  stderr : String
  writes : List (String × String)
  failure : Option Failure
deriving DecidableEq

namespace Output

def printed (stdout : String) : Output := ⟨stdout, "", [], none⟩

def failed (f : Failure) : Output := ⟨"", "", [], some f⟩

def ofExcept : Except Failure Output → Output
  | .ok o => o
  | .error f => failed f

end Output

/-! ## Commands -/

def loadConfig (read : ReadFile) : Except Failure Config :=
  match read Config.fileName with
  | .ok s => (Config.ofText s).mapError .ofFault
  | .error .notFound => .ok .default
  | .error e => .error (.plain e.message)

def loadAct (read : ReadFile) (path : String) : Except Failure Act := do
  let s ← (read path).mapError fun e => (Failure.plain e.message).within ("Cannot read " ++ path)
  (Act.ofText s).mapError fun e => (Failure.ofDocument e).within (path ++ " is not an act document")

def openDocument (a : Act) : Except Failure Document := (Document.ofAct a).mapError .ofEditor

/-- The number of drop targets of a document that survives the editor. -/
def checkFile (read : ReadFile) (path : String) : Except Failure Nat := do
  let a ← loadAct read path
  let d ← openDocument a
  if d.model.agrees a then .ok d.targets.length
  else .error (.plain "document does not survive the editor round trip")

/-- The report on one file, and whether it failed. -/
def reportFile (read : ReadFile) (path : String) : String × String × Bool :=
  match checkFile read path with
  | .ok n => ("  ✓ " ++ path ++ " (" ++ toString n ++ " drop targets)\n", "", false)
  | .error f => ("", "  ✗ " ++ path ++ " - " ++ f.message ++ "\n", true)

def runCheck (read : ReadFile) (paths : List String) : Output :=
  let reports := paths.map (reportFile read)
  let passed := String.join (reports.map (·.1)) ++ "\n"
  let refused := String.join (reports.map (·.2.1))
  let failures := reports.countP (·.2.2)
  if failures = 0 then
    ⟨passed ++ "✅ Checked " ++ toString paths.length ++ " documents\n", refused, [], none⟩
  else
    ⟨passed, refused, [],
      some (.plain (toString failures ++ " of " ++ toString paths.length ++ " documents failed"))⟩

namespace TargetInfo

def toJson (t : TargetInfo) : Json := .object
  [("index", .number (.integer t.index)), ("category", .string t.category.name),
   ("label", .string t.label), ("full", .bool t.full), ("enabled", .bool t.enabled),
   ("highlighted", .bool t.highlighted)]

def padLeft (n : Nat) (s : String) : String := "".pushn ' ' (n - s.length) ++ s

def padRight (n : Nat) (s : String) : String := s.pushn ' ' (n - s.length)

def describe (t : TargetInfo) : String :=
  "[" ++ padLeft 3 (toString t.index) ++ "] " ++ padRight 17 t.category.label ++ " "
    ++ (if t.full then "occupied" else t.label) ++ if t.enabled then "" else " (read-only)"

end TargetInfo

def runTargets (c : Config) (read : ReadFile) (path : String) (json : Bool) :
    Except Failure Output := do
  let d ← openDocument (← loadAct read path)
  let targets := (d.setReadOnly c.readOnly).targets
  if json then .ok (.printed (c.write (.array (targets.map TargetInfo.toJson)) ++ "\n"))
  else
    let title := "🎯 " ++ toString targets.length ++ " drop targets in " ++ path ++ "\n"
    .ok (.printed (title ++ String.join (targets.map fun t => "  " ++ t.describe ++ "\n")))

def givenComponent : Given → Except Failure Component
  | .component json => (Component.ofText json).mapError fun f =>
    (Failure.ofDocument (.malformed f)).within "Invalid component"
  | .palette label =>
    match Palette.find? label with
    | some entry => .ok entry.component
    | none => .error (.plain ("No palette entry named " ++ Text.quoted label))

/-- The document with a component dropped on a target, by a drag of its own. -/
def dropInto (d : Document) (c : Component) (target : Nat) : Except Failure Document := do
  let drag ← (Drag.idle.start c).mapError .ofEditor
  let (d, _) ← (d.highlightFor (.encode c)).mapError .ofEditor
  let (d, _, outcome) := d.dropAt drag target
  match ← outcome.mapError .ofEditor with
  | .dropped => .ok d
  | .cancelled reason =>
    .error (.plain
      ("Drop on target " ++ toString target ++ " was cancelled (" ++ reason.name ++ ")"))

def runDrop (c : Config) (read : ReadFile) (path : String) (target : Nat) (given : Given)
    (write : Bool) : Except Failure Output := do
  let d ← openDocument (← loadAct read path)
  let component ← givenComponent given
  let d ← dropInto (d.setReadOnly c.readOnly) component target
  let text := c.write d.model.toJson ++ "\n"
  if write then .ok ⟨"✓ Updated " ++ path ++ "\n", "", [(path, text)], none⟩
  else .ok (.printed text)

def PaletteEntry.toJson (e : PaletteEntry) : Json :=
  .object [("label", .string e.label), ("component", e.component.toJson)]

def runPalette (c : Config) (labels : Bool) : Output :=
  if labels then .printed (String.join (Palette.entries.map fun e => "  • " ++ e.label ++ "\n"))
  else .printed (c.write (Json.array (Palette.entries.map PaletteEntry.toJson)).sorted ++ "\n")

def Command.run (read : ReadFile) (command : Command) : Output :=
  .ofExcept do
    let c ← loadConfig read
    match command with
    | .check paths => .ok (runCheck read paths)
    | .targets path json => runTargets c read path json
    | .drop path target given write => runDrop c read path target given write
    | .palette labels => .ok (runPalette c labels)

/-! ## The program -/

/-- How the program ends. -/
structure Exit where
  code : Nat
  stdout : String
  stderr : String
  writes : List (String × String)
deriving DecidableEq

def Output.exit (o : Output) : Exit :=
  match o.failure with
  | none => ⟨0, o.stdout, o.stderr, o.writes⟩
  | some f => ⟨1, o.stdout, o.stderr ++ "\nError: " ++ f.text ++ "\n\n", o.writes⟩

def programVersion : String := "montage 0.1.0"

/-- Runs the program. Arguments that are refused end it before anything is read. -/
def runProgram (read : ReadFile) (args : List String) : Exit :=
  match Request.ofArguments args with
  | .command c => (c.run read).exit
  | .version => ⟨0, programVersion ++ "\n", "", []⟩
  | .help => ⟨0, "", "", []⟩
  | .refused => ⟨2, "", "", []⟩

end SceneScript
