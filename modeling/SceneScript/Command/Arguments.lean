import SceneScript.Text.Decimal
import SceneScript.Text.Quoted

/-!
The arguments of the command. Options may stand anywhere before a `--`, long ones may be shortened
as long as they are unique, and their values may follow an equals sign. One argument that is no
option names the program; the first thing wrong is the one reported.
-/

namespace SceneScript.Command

inductive Switch where
  | help
  | verbose
  | grammar
  | dumpScene
  | emitTree
  | runTree
deriving DecidableEq

namespace Switch

/-- How an option can be written. -/
def spellings : Switch → List String
  | .help => ["-h", "--help"]
  | .verbose => ["-v"]
  | .grammar => ["--grammar"]
  | .dumpScene => ["--dump-scene"]
  | .emitTree => ["--emit-ast"]
  | .runTree => ["--ast"]

def all : List Switch := [.help, .verbose, .grammar, .dumpScene, .emitTree, .runTree]

/-- All spellings, each with its option. -/
def spelled : List (String × Switch) :=
  all.flatMap fun s => s.spellings.map fun text => (text, s)

/-- The name of an option in messages. -/
def label (s : Switch) : String := "/".intercalate s.spellings

def ofSpelling? (text : String) : Option Switch := spelled.lookup text

/-- Whether the option has a value. -/
def takesValue : Switch → Bool
  | .emitTree | .runTree => true
  | _ => false

end Switch

/-- What is wrong with the arguments. -/
inductive UsageFault where
  | ambiguous (text : String) (candidates : List String)
  | ignoredValue (option : Switch) (value : String)
  | missingValue (option : Switch)
  | conflict (option other : Switch)
  | unrecognized (arguments : List String)
  | missingProgram
deriving DecidableEq

namespace UsageFault

def about (option : Switch) (message : String) : String :=
  "argument " ++ option.label ++ ": " ++ message

def message : UsageFault → String
  | .ambiguous text candidates =>
    "ambiguous option: " ++ text ++ " could match " ++ ", ".intercalate candidates
  | .ignoredValue option value => about option ("ignored explicit argument " ++ Text.quoted value)
  | .missingValue option => about option "expected one argument"
  | .conflict option other => about option ("not allowed with argument " ++ other.label)
  | .unrecognized arguments => "unrecognized arguments: " ++ " ".intercalate arguments
  | .missingProgram => "missing program file; or use --emit-ast/--ast"

end UsageFault

/-- An argument on its own. -/
inductive Argument where
  | plain (text : String)
  /-- An option, and the value behind its equals sign. -/
  | option (s : Switch) (value : Option String)
  /-- A one-letter option and what stands behind it, which has to be more such letters. -/
  | letters (first : Switch) (rest : List Char)
  /-- Looks like an option but is none. -/
  | unknown (text : String)
  /-- `--` -/
  | separator

namespace Argument

/-- Splits at the first equals sign. -/
def splitValue (cs : List Char) : List Char × Option (List Char) :=
  match cs.span (· != '=') with
  | (front, _ :: value) => (front, some value)
  | (front, []) => (front, none)

/-- A minus sign before digits with at most one point, which does not end them. -/
def isNegativeNumber (cs : List Char) : Bool :=
  match cs with
  | '-' :: rest =>
    let digit (c : Char) : Bool := (Text.decimalDigit? c).isSome
    let rest := if rest.getLast? = some '\n' then rest.dropLast else rest
    let (whole, part) := rest.span digit
    match part with
    | [] => !whole.isEmpty
    | '.' :: digits => !digits.isEmpty && digits.all digit
    | _ => false
  | _ => false

/-- An argument that is no spelling of an option as it stands. -/
def unlisted (text : String) : Argument :=
  if isNegativeNumber text.toList || text.toList.contains ' ' then .plain text else .unknown text

/-- A shortened long option. -/
def abbreviated (text : String) : Except UsageFault Argument :=
  let (front, value) := splitValue text.toList
  match Switch.spelled.filter fun (spelling, _) => front.isPrefixOf spelling.toList with
  | [] => .ok (unlisted text)
  | [(_, s)] => .ok (.option s (value.map String.ofList))
  | several => .error (.ambiguous text (several.map Prod.fst))

/-- Classifies an argument that stands before any `--`. -/
def classify (text : String) : Except UsageFault Argument :=
  if text = "--" then .ok .separator
  else
    match Switch.ofSpelling? text with
    | some s => .ok (.option s none)
    | none =>
      match text.toList with
      | '-' :: '-' :: _ =>
        let (front, value) := splitValue text.toList
        match Switch.ofSpelling? (String.ofList front), value with
        | some s, some value => .ok (.option s (some (String.ofList value)))
        | _, _ => abbreviated text
      | '-' :: c :: rest =>
        match Switch.ofSpelling? (String.ofList ['-', c]) with
        | some s => .ok (.letters s (if rest.head? = some '=' then rest.tail else rest))
        | none => .ok (unlisted text)
      | _ => .ok (.plain text)

/-- Classifies all arguments; those behind `--` are no options. -/
def classifyAll : List String → Except UsageFault (List Argument)
  | [] => .ok []
  | text :: texts => do
    match ← classify text with
    | .separator => .ok (.separator :: texts.map .plain)
    | argument => .ok (argument :: (← classifyAll texts))

end Argument

/-- What the arguments ask for. -/
structure Settings where
  verbosity : Nat
  grammar : Bool
  dumpScene : Bool
  emitTree : Option String
  runTree : Option String
  program : Option String
deriving DecidableEq

def Settings.initial : Settings := ⟨0, false, false, none, none, none⟩

/-- Arguments read so far. -/
structure Reading where
  settings : Settings
  /-- Whether an argument may still name the program. -/
  wantsProgram : Bool
  /-- Arguments that mean nothing. -/
  extras : List String

/-- Why reading stops early. -/
inductive Halt where
  | help
  | fault (f : UsageFault)

namespace Reading

def initial : Reading := ⟨.initial, true, []⟩

def change (r : Reading) (f : Settings → Settings) : Reading := { r with settings := f r.settings }

def addExtra (r : Reading) (text : String) : Reading := { r with extras := r.extras ++ [text] }

/-- Takes the name of the program, or nothing for it. -/
def takeProgram (r : Reading) (name : Option String) : Reading :=
  { r with settings := { r.settings with program := name }, wantsProgram := false }

/-- Applies an option without a value. -/
def flag (r : Reading) : Switch → Except Halt Reading
  | .help => .error .help
  | .verbose => .ok (r.change fun s => { s with verbosity := s.verbosity + 1 })
  | .grammar => .ok (r.change fun s => { s with grammar := true })
  | .dumpScene => .ok (r.change fun s => { s with dumpScene := true })
  | .emitTree | .runTree => .ok r

/-- Applies an option with a value; of emitting and running trees only one is possible. -/
def assign (r : Reading) (option : Switch) (value : String) : Except Halt Reading :=
  match option with
  | .emitTree =>
    if r.settings.runTree.isSome then .error (.fault (.conflict .emitTree .runTree))
    else .ok (r.change fun s => { s with emitTree := some value })
  | .runTree =>
    if r.settings.emitTree.isSome then .error (.fault (.conflict .runTree .emitTree))
    else .ok (r.change fun s => { s with runTree := some value })
  | _ => .ok r

/-- The options that letters stand for, `previous` being the one before them. -/
def readLetters (previous : Switch) : List Char → Except Halt (List Switch)
  | [] => .ok []
  | c :: rest =>
    match Switch.ofSpelling? (String.ofList ['-', c]) with
    | some s => (readLetters s rest).map (s :: ·)
    | none => .error (.fault (.ignoredValue previous (String.ofList (c :: rest))))

/-- Applies a one-letter option and those behind it, once all of them are known. -/
def letters (r : Reading) (first : Switch) (rest : List Char) : Except Halt Reading :=
  if rest.isEmpty then .error (.fault (.ignoredValue first ""))
  else do
    let more ← readLetters first rest
    (first :: more).foldlM flag r

/-- A value behind an equals sign; a separator there counts as an empty one. -/
def explicitValue (text : String) : String := if text = "--" then "" else text

/-- Reads arguments from left to right. The name of the program takes a `--` next to it along. -/
def readAll (r : Reading) : List Argument → Except Halt Reading
  | [] => .ok r
  | .plain text :: .separator :: rest =>
    if r.wantsProgram then readAll (r.takeProgram (some text)) rest
    else readAll ((r.addExtra text).addExtra "--") rest
  | .plain text :: rest =>
    if r.wantsProgram then readAll (r.takeProgram (some text)) rest
    else readAll (r.addExtra text) rest
  | .separator :: .plain text :: rest =>
    if r.wantsProgram then readAll (r.takeProgram (some text)) rest
    else readAll ((r.addExtra "--").addExtra text) rest
  | .separator :: rest =>
    if r.wantsProgram then readAll (r.takeProgram none) rest
    else readAll (r.addExtra "--") rest
  | .unknown text :: rest => readAll (r.addExtra text) rest
  | .letters first more :: rest => do readAll (← r.letters first more) rest
  | .option s (some value) :: rest =>
    if s.takesValue then do readAll (← r.assign s (explicitValue value)) rest
    else .error (.fault (.ignoredValue s value))
  | .option s none :: rest =>
    if s.takesValue then
      match rest with
      | .plain value :: rest => do readAll (← r.assign s value) rest
      | _ => .error (.fault (.missingValue s))
    else do readAll (← r.flag s) rest

end Reading

/-- Reads the arguments of the command. -/
def Settings.ofArguments (arguments : List String) : Except Halt Settings := do
  let classified ← (Argument.classifyAll arguments).mapError Halt.fault
  let reading ← Reading.initial.readAll classified
  if reading.extras.isEmpty then .ok reading.settings
  else .error (.fault (.unrecognized reading.extras))

end SceneScript.Command
