/-! Files as the command line sees them. A path is walked name by name, starting in the directory
that holds the files; each name but the last has to lead to a directory. That directory is a
temporary one: the one above it is right below the root of the system, and the root is above
itself, so a walk that only goes up ends at the root. -/

namespace SceneScript

/-- Why a file cannot be read. -/
inductive FileError
  | notFound
  | notADirectory
  | isADirectory
  | nameTooLong
  | other (reason : String)
deriving DecidableEq, Repr

def FileError.message : FileError → String
  | notFound => "No such file or directory (os error 2)"
  | notADirectory => "Not a directory (os error 20)"
  | isADirectory => "Is a directory (os error 21)"
  | nameTooLong => "File name too long (os error 36)"
  | other reason => reason

/-- Reads a whole file as text. -/
abbrev ReadFile := String → Except FileError String

/-! ## Paths -/

/-- The names between slashes; `name` holds the letters of the first, the last one in front. -/
def splitPath (name : List Char) : List Char → List String
  | [] => [.ofList name.reverse]
  | c :: cs =>
    if c = '/' then .ofList name.reverse :: splitPath [] cs else splitPath (c :: name) cs

/-- Whether a name stands for the directory it is looked up in. -/
def staysHere (name : String) : Bool := name = "" ∨ name = "."

/-- How many bytes a name may have. -/
def maxNameBytes : Nat := 255

/-- How many bytes a path may have. -/
def maxPathBytes : Nat := 4095

/-- Directories found at the root of every system. -/
def systemDirectories : List String :=
  ["bin", "boot", "dev", "etc", "home", "lib", "media", "mnt", "opt", "proc", "root", "run", "sbin",
   "srv", "sys", "tmp", "usr", "var"]

/-- A file that is always empty. -/
def nullDevice : String := "/dev/null"

/-- The system directory above the one that holds the files. -/
def temporaryDirectory : String := "tmp"

/-- Where a walk has come to. -/
inductive Spot
  /-- A file, by the name it is listed under. -/
  | file (name content : String)
  /-- A directory at or below the one that holds the files, the innermost name first. -/
  | held (names : List String)
  /-- The root of the system, or a directory right below it. -/
  | system (name : Option String)

def Spot.parent : Spot → Spot
  | held (_ :: names) => held names
  | held [] => system (some temporaryDirectory)
  | system _ => system none
  | spot => spot

/-- A directory held in memory, as paths with contents. -/
structure Directory where
  files : List (String × String)

namespace Directory

/-- The names that lead to a listed file, the innermost first. -/
def namesOf (file : String × String) : List String :=
  ((splitPath [] file.1.toList).filter (!staysHere ·)).reverse

/-- What is held under these names. -/
def child (d : Directory) (names : List String) : Except FileError Spot :=
  match d.files.find? (namesOf · == names) with
  | some (name, content) => .ok (.file name content)
  | none =>
    if d.files.any (names.isSuffixOf <| namesOf ·) then .ok (.held names) else .error .notFound

/-- Follows one name. -/
def enter (d : Directory) (spot : Spot) (name : String) : Except FileError Spot :=
  match spot with
  | .file _ _ => .error .notADirectory
  | spot =>
    if staysHere name then .ok spot
    else if name = ".." then .ok spot.parent
    else if maxNameBytes < name.utf8ByteSize then .error .nameTooLong
    else
      match spot with
      | .held names => d.child (name :: names)
      | .system none =>
        if name ∈ systemDirectories then .ok (.system (some name)) else .error .notFound
      | .system (some "dev") =>
        if name = "null" then .ok (.file nullDevice "") else .error .notFound
      | _ => .error .notFound

/-- Follows names one after the other. -/
def walk (d : Directory) : Spot → List String → Except FileError Spot
  | spot, [] => .ok spot
  | spot, name :: names => do d.walk (← d.enter spot name) names

/-- Where a path leads. -/
def locate (d : Directory) (path : String) : Except FileError Spot :=
  if path = "" then .error .notFound
  else if maxPathBytes < path.utf8ByteSize then .error .nameTooLong
  else
    match path.toList with
    | '/' :: cs => d.walk (.system none) (splitPath [] cs)
    | cs => d.walk (.held []) (splitPath [] cs)

/-- The file a path leads to, under the name it is listed by. -/
def find? (d : Directory) (path : String) : Option (String × String) :=
  match d.locate path with
  | .ok (.file name content) => some (name, content)
  | _ => none

def read (d : Directory) : ReadFile := fun path => do
  match ← d.locate path with
  | .file _ content => .ok content
  | _ => .error .isADirectory

end Directory

end SceneScript
