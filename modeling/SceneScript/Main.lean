import SceneScript.Command.Run

/-!
The command as a program: it reads the files that the arguments name, runs, and writes what has
changed.
-/

open SceneScript Command

namespace SceneScript.Command

/-- The paths that the arguments may refer to. -/
def pathsOf (arguments : List String) : List Path :=
  match Settings.ofArguments arguments with
  | .error _ => []
  | .ok s =>
    let sources := [s.emitTree, s.runTree, s.program].filterMap CommandM.given
    let targets := ((CommandM.given s.emitTree).map (·.addSuffix ".ast.json")).toList
    (logPath :: sources ++ targets).eraseDups

/-- Reads a file or notes a directory. -/
def load (files : Files) (path : Path) : IO Files := do
  try
    let bytes ← IO.FS.readBinFile path.text
    return { files with entries := files.entries ++ [(path, String.fromUTF8? bytes)] }
  catch e =>
    match e with
    | .inappropriateType .. => return { files with directories := files.directories ++ [path] }
    | _ => return files

/-- What went wrong, in a line. -/
def Crash.message : Crash → String
  | .undecodable => "file is not UTF-8"
  | .directory => "file is a directory"
  | .nameTooLong => "file has a name that is too long"
  | .notJson .malformed => "file is not JSON"
  | .notJson .hugeInteger => "file has an integer that is too long"
  | .tree fault => "bad tree file: " ++ fault.message?.getD "wrong field"
  | .unwritable _ => "tree cannot be written"
  | .unreadable _ => "fault cannot be shown"
  | .evaluation failure => "cannot evaluate: " ++ failure.message?.getD "bad tree"

end SceneScript.Command

def main (arguments : List String) : IO UInt32 := do
  let files ← (pathsOf arguments).foldlM load ⟨[], []⟩
  let outcome := run files arguments
  IO.print outcome.output
  IO.eprint outcome.errors
  for (path, text) in outcome.files.changesSince files do
    IO.FS.writeFile path.text (text.getD "")
  match outcome.stop with
  | .exit code => return UInt32.ofNat code
  | .crash cause =>
    IO.eprintln cause.message
    return 1
