import SceneScript.Cli.Run

/-! The program as it is run. Files and streams are touched here and nowhere else: what a command
may read is read first, and what it prints and writes is carried out at the end. -/

namespace SceneScript

def FileError.ofIOError : IO.Error → FileError
  | .noFileOrDirectory .. => .notFound
  | e => .other (toString e)

def readFile (path : String) : IO (Except FileError String) := do
  try
    let data ← IO.FS.readBinFile path
    match String.fromUTF8? data with
    | some s => return .ok s
    | none => return .error (.other "stream did not contain valid UTF-8")
  catch e => return .error (.ofIOError e)

/-- The files read beforehand; no others are there. -/
def lookup (files : List (String × Except FileError String)) : ReadFile := fun path =>
  (files.lookup path).getD (.error .notFound)

end SceneScript

open SceneScript in
def main (args : List String) : IO UInt32 := do
  let paths := Config.fileName :: (Request.ofArguments args).paths
  let files ← paths.mapM fun path => do return (path, ← readFile path)
  let e := runProgram (lookup files) args
  for (path, content) in e.writes do
    IO.FS.writeFile path content
  IO.print e.stdout
  IO.eprint e.stderr
  return e.code.toUInt32
