import SceneScript.Command.Arguments
import SceneScript.Command.Files
import SceneScript.Command.Log
import SceneScript.Eval.Run
import SceneScript.Json.Printer
import SceneScript.Json.Reader
import SceneScript.Node.Json

/-!
The command: it runs a program, writes the tree of one to a file, or runs such a file, always
against a scene that is only recorded.
-/

namespace SceneScript.Command

/-- What the command cannot deal with and does not report. -/
inductive Crash where
  /-- A file is no UTF-8 text. -/
  | undecodable
  /-- A directory stands where a file is needed. -/
  | directory
  /-- A file's name is too long. -/
  | nameTooLong
  /-- A tree file is no JSON that can be read. -/
  | notJson (fault : Json.ReadFault)
  | tree (fault : TreeFault)
  | unwritable (cause : Unwritable)
  | evaluation (failure : Failure)
  /-- A fault cannot be reported. -/
  | unreadable (cause : Unreadable)

inductive Stop where
  | exit (code : Nat)
  | crash (cause : Crash)

/-- What the command has done so far; of the events the latest comes first. -/
structure Progress where
  files : Files
  output : String
  errors : String
  events : List Event

abbrev CommandM := EStateM Stop Progress

def usage : String :=
  "usage: blocklang [-h] [-v] [--grammar] [--dump-scene]\n" ++
  "                 [--emit-ast PROGRAM_FILE | --ast AST_JSON_FILE]\n" ++
  "                 [program]\n"

def help : String :=
  usage ++
  "\n" ++
  "blocklang interpreter\n" ++
  "\n" ++
  "positional arguments:\n" ++
  "  program               blocklang program file to execute\n" ++
  "\n" ++
  "options:\n" ++
  "  -h, --help            show this help message and exit\n" ++
  "  -v                    increase log verbosity (can be repeated)\n" ++
  "  --grammar             parse with the Lark grammar front-end\n" ++
  "  --dump-scene          print the recorded scene as JSON\n" ++
  "  --emit-ast PROGRAM_FILE\n" ++
  "                        emit AST JSON for the given program file\n" ++
  "  --ast AST_JSON_FILE   execute AST from a JSON file\n"

namespace CommandM

def print (text : String) : CommandM Unit := modify fun p => { p with output := p.output ++ text }

def printError (text : String) : CommandM Unit :=
  modify fun p => { p with errors := p.errors ++ text }

/-- Stops because of wrong arguments. -/
def usageError {α : Type} (f : UsageFault) : CommandM α := do
  printError (usage ++ "blocklang: error: " ++ f.message ++ "\n")
  throw (.exit 2)

/-- Stops because of a fault of the program. -/
def report {α : Type} (r : Report) : CommandM α :=
  match r.message with
  | .ok message => do
    printError (message ++ "\n")
    throw (.exit 1)
  | .error cause => throw (.crash (.unreadable cause))

/-- Writes a file. -/
def write (path : Path) (text : String) : CommandM Unit := do
  match (← get).files.find path with
  | .directory => throw (.crash .directory)
  | .nameTooLong => throw (.crash .nameTooLong)
  | _ => modify fun p => { p with files := p.files.write path text }

/-- Every line break becomes a newline. -/
def unifyNewlines : List Char → List Char
  | [] => []
  | '\r' :: '\n' :: cs => '\n' :: unifyNewlines cs
  | '\r' :: cs => '\n' :: unifyNewlines cs
  | c :: cs => c :: unifyNewlines cs

/-- The text of a file that has to be there. -/
def read (path : Path) : CommandM String := do
  match (← get).files.find path with
  | .missing =>
    printError ("Error: file " ++ path.text ++ " not found\n")
    throw (.exit 1)
  | .directory => throw (.crash .directory)
  | .nameTooLong => throw (.crash .nameTooLong)
  | .file none => throw (.crash .undecodable)
  | .file (some text) => return String.ofList (unifyNewlines text.toList)

/-- The program of a text file. Parsing by precedence is an event. -/
def parseFile (frontEnd : FrontEnd) (path : Path) : CommandM Program := do
  let text ← read path
  match frontEnd.parse ⟨path.text, text⟩ with
  | .error fault => report fault.report
  | .ok program =>
    if frontEnd = .precedence then
      modify fun p => { p with events := .parsed program.body.length path.text :: p.events }
    return program

/-- The program of a tree file. -/
def loadFile (path : Path) : CommandM Program := do
  match Json.ofText (← read path) with
  | .error fault => throw (.crash (.notJson fault))
  | .ok json =>
    match Program.ofJson json with
    | .error fault => throw (.crash (.tree fault))
    | .ok program => return program

/-- Writes the tree of a program next to it. -/
def emitTree (path : Path) (program : Program) : CommandM Unit := do
  let target := path.addSuffix ".ast.json"
  match program.toJson with
  | .ok json => write target (json.pretty false)
  | .error cause => throw (.crash (.unwritable cause))
  print (target.text ++ "\n")

/-- Runs a program against a recorded scene, which it returns. -/
def runProgram (program : Program) : CommandM Scene := do
  let (context, machine) := Machine.initial.programContext Builtin.scene
  let host := SceneHost.recording .none
  let finish (m : Machine) : CommandM Unit := do
    print m.output
    modify fun p => { p with events := m.events ++ p.events }
  match (EvalM.runProgram host context program).run machine with
  | .ok _ m =>
    finish m
    return m.scene
  | .error failure m =>
    finish m
    match failure with
    | .runtime fault => report fault.report
    | failure => throw (.crash (.evaluation failure))

def tripleJson (t : Triple) : Json := .array (t.toList.map fun x => .float (.ofFloat x))

def objectJson (o : SceneObject) : Json :=
  .object [
    ("kind", .string o.shape.label),
    ("dimensions", tripleJson o.dimensions),
    ("position", tripleJson o.position),
    ("color", .string o.color)]

def sceneJson (s : Scene) : Json :=
  .object [
    ("background", (s.background.map Json.string).getD .null),
    ("objects", .array (s.objects.map objectJson))]

/-- An argument that was given and is not empty. -/
def given (argument : Option String) : Option Path :=
  argument.bind fun text => if text.isEmpty then none else some (.ofText text)

/-- Does what the settings ask for. -/
def perform (s : Settings) : CommandM Unit := do
  let frontEnd : FrontEnd := if s.grammar then .grammar else .precedence
  match given s.emitTree with
  | some path => emitTree path (← parseFile frontEnd path)
  | none =>
    let program ←
      match given s.runTree with
      | some path => loadFile path
      | none =>
        match given s.program with
        | some path => parseFile frontEnd path
        | none => usageError .missingProgram
    let scene ← runProgram program
    if s.dumpScene then print ((sceneJson scene).pretty true ++ "\n")

end CommandM

/-- The file of the log. -/
def logPath : Path := ["debug.txt"]

/-- What the command leaves behind. -/
structure Outcome where
  stop : Stop
  files : Files
  output : String
  errors : String

/-- How a computation of the command ended, and what it did. -/
def outcome (m : CommandM Unit) (files : Files) : Stop × Progress :=
  match m.run ⟨files, "", "", []⟩ with
  | .ok _ p => (.exit 0, p)
  | .error stop p => (stop, p)

/-- Runs with a log: the log file is emptied first and filled with the events at last. -/
def runLogged (s : Settings) (files : Files) : Outcome :=
  let (stop, p) := outcome (do CommandM.write logPath ""; CommandM.perform s) files
  let logged :=
    match files.find logPath with
    | .directory => p.files
    | _ => p.files.write logPath (logText s.verbosity p.events.reverse)
  ⟨stop, logged, p.output, p.errors⟩

/-- The command with its arguments. -/
def run (files : Files) (arguments : List String) : Outcome :=
  match Settings.ofArguments arguments with
  | .error .help => ⟨.exit 0, files, help, ""⟩
  | .error (.fault f) =>
    let (stop, p) := outcome (CommandM.usageError f) files
    ⟨stop, p.files, p.output, p.errors⟩
  | .ok s =>
    if s.verbosity = 0 then
      let (stop, p) := outcome (CommandM.perform s) files
      ⟨stop, p.files, p.output, p.errors⟩
    else runLogged s files

end SceneScript.Command
