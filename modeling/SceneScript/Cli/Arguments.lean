import SceneScript.Number.Literal

/-! The arguments of the command line. An option is given by its name or its letter; letters may
share a dash, and a value may be glued to either form. Behind two dashes nothing is an option. -/

namespace SceneScript

/-- Where the component to be dropped comes from. -/
inductive Given
  | component (json : String)
  | palette (label : String)
deriving DecidableEq, Repr

inductive Command
  | check (paths : List String)
  | targets (path : String) (json : Bool)
  | drop (path : String) (target : Nat) (given : Given) (write : Bool)
  | palette (labels : Bool)
deriving DecidableEq, Repr

/-- What a list of arguments asks for. -/
inductive Request
  | command (c : Command)
  | version
  | help
  | refused
deriving DecidableEq, Repr

/-! ## Options -/

/-- What an option is followed by. -/
inductive SwitchValue
  | nothing
  | text
  | index
deriving DecidableEq, Repr

structure Switch where
  name : String
  letter : Option Char
  value : SwitchValue
deriving DecidableEq, Repr

/-- The arguments taken apart so far; `awaiting` is an option whose value comes next. -/
structure Scan where
  switches : List Switch
  room : Nat
  given : List (String × String)
  places : List String
  awaiting : Option Switch

namespace Scan

def start (switches : List Switch) (room : Nat) : Scan := ⟨switches, room, [], [], none⟩

def value? (s : Scan) (name : String) : Option String := s.given.lookup name

def has (s : Scan) (name : String) : Bool := (s.value? name).isSome

/-- Takes an option, which may be given once. -/
def give (s : Scan) (sw : Switch) (value : String) : Except Request Scan :=
  if s.has sw.name then .error .refused
  else if sw.value = .index ∧ (index? value).isNone then .error .refused
  else .ok { s with given := (sw.name, value) :: s.given, awaiting := none }

/-- Takes an argument that is no option. -/
def place (s : Scan) (arg : String) : Except Request Scan :=
  if arg = "" ∨ s.room ≤ s.places.length then .error .refused
  else .ok { s with places := s.places ++ [arg] }

/-- Splits at the first equals sign. -/
def splitValue (cs : List Char) : List Char × Option (List Char) :=
  let name := cs.takeWhile (· != '=')
  match cs.drop name.length with
  | [] => (name, none)
  | _ :: value => (name, some value)

/-- An option by its name. -/
def long (s : Scan) (cs : List Char) : Except Request Scan :=
  let (name, value) := splitValue cs
  let name := String.ofList name
  match s.switches.find? (·.name == name) with
  | none => .error (if name = "help" ∧ value = none then .help else .refused)
  | some sw =>
    match sw.value, value with
    | .nothing, none => s.give sw ""
    | .nothing, some _ => .error .refused
    | _, some value => s.give sw (.ofList value)
    | _, none => if s.has sw.name then .error .refused else .ok { s with awaiting := some sw }

/-- Options by their letters. -/
def letters (s : Scan) : List Char → Except Request Scan
  | [] => .ok s
  | c :: cs =>
    match s.switches.find? (·.letter == some c) with
    | none => .error (if c = 'h' then .help else .refused)
    | some sw =>
      match sw.value, cs with
      | .nothing, cs => do letters (← s.give sw "") cs
      | _, [] => if s.has sw.name then .error .refused else .ok { s with awaiting := some sw }
      | _, '=' :: value => s.give sw (.ofList value)
      | _, value => s.give sw (.ofList value)

def placeAll (s : Scan) : List String → Except Request Scan
  | [] => .ok s
  | arg :: args => do placeAll (← s.place arg) args

def run (s : Scan) : List String → Except Request Scan
  | [] => if s.awaiting.isSome then .error .refused else .ok s
  | arg :: args =>
    match s.awaiting, arg.toList with
    | some _, '-' :: _ :: _ => .error .refused
    | some sw, _ => do run (← s.give sw arg) args
    | none, ['-', '-'] => s.placeAll args
    | none, '-' :: '-' :: cs => do run (← s.long cs) args
    | none, '-' :: c :: cs => do run (← s.letters (c :: cs)) args
    | none, _ => do run (← s.place arg) args

end Scan

/-! ## Commands -/

namespace Command

def jsonSwitch : Switch := ⟨"json", none, .nothing⟩

def labelsSwitch : Switch := ⟨"labels", none, .nothing⟩

def dropSwitches : List Switch :=
  [⟨"target", some 't', .index⟩, ⟨"component", some 'c', .text⟩, ⟨"palette", some 'p', .text⟩,
   ⟨"write", some 'w', .nothing⟩]

/-- A component is given in exactly one way. -/
def given? (s : Scan) : Option Given :=
  match s.value? "component", s.value? "palette" with
  | some json, none => some (.component json)
  | none, some label => some (.palette label)
  | _, _ => none

def names : List String := ["check", "targets", "drop", "palette", "help"]

/-- Help is given on the program or on one command. -/
def parseHelp : List String → Request
  | [] => .help
  | [name] => if name ∈ names then .help else .refused
  | _ => .refused

def parse (name : String) (args : List String) : Except Request Command := do
  if name = "check" then
    let s ← (Scan.start [] args.length).run args
    if s.places = [] then .error .refused else .ok (check s.places)
  else if name = "targets" then
    let s ← (Scan.start [jsonSwitch] 1).run args
    match s.places with
    | [path] => .ok (targets path (s.has jsonSwitch.name))
    | _ => .error .refused
  else if name = "drop" then
    let s ← (Scan.start dropSwitches 1).run args
    match s.places, (s.value? "target").bind index?, given? s with
    | [path], some target, some given => .ok (drop path target given (s.has "write"))
    | _, _, _ => .error .refused
  else if name = "palette" then
    let s ← (Scan.start [labelsSwitch] 0).run args
    .ok (palette (s.has labelsSwitch.name))
  else .error (if name = "help" then parseHelp args else .refused)

end Command

/-- The documents a command reads. -/
def Command.paths : Command → List String
  | check paths => paths
  | targets path _ => [path]
  | drop path _ _ _ => [path]
  | palette _ => []

def Request.paths : Request → List String
  | command c => c.paths
  | _ => []

/-- Reads the arguments: an option of the program itself, or the name of a command first. Nothing
behind an option of the program is looked at. -/
def Request.ofArguments : List String → Request
  | [] => .refused
  | name :: args =>
    match name.toList with
    | '-' :: 'V' :: _ => .version
    | '-' :: 'h' :: _ => .help
    | _ =>
      if name = "--version" then .version
      else if name = "--help" then .help
      else
        match Command.parse name args with
        | .ok c => .command c
        | .error r => r

end SceneScript
