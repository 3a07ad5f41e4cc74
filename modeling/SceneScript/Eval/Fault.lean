import SceneScript.Number.Text
import SceneScript.Parse.Fault
import SceneScript.Source.Excerpt
import SceneScript.Value.Repetition
import SceneScript.Value.Scene
import SceneScript.Value.View

/-!
What can go wrong while a program runs, and how faults of all kinds are reported: the traceback of
a fault at run time, its file and line, its name, its details, and the excerpt of its span.
-/

namespace SceneScript

inductive RuntimeCause where
  | illegalOperation
  | divisionByZero
  | notAList
  | cannotRepeat (count : Float) (limit : RepeatLimit)
  | undefined (name : String)
  | unknownOperator
  | notANumber
  | tooFewArguments (function : String)
  | tooManyArguments (function : String)
  | argumentNotList (number : Nat)
  | argumentNotNumber (number : Nat)
  | indexOutOfRange (index : Float)
  | argumentNotTriple (number : Nat)
  | argumentComponent (number component : Nat)
  | argumentNotString (number : Nat)
  /-- The host refused a request for the scene. -/
  | refused (kind : SceneKind) (message : String)
  /-- A host's function failed. -/
  | hostFailure (message : String)

namespace RuntimeCause

def limitDetails : RepeatLimit → String
  | .notACount => ""
  | .countTooLarge => ": cannot fit 'int' into an index-sized integer"
  | .resultTooLarge => ": repeated string is too long"
  | .noRoom => ": "

def details : RuntimeCause → String
  | .illegalOperation => "operation done is illegal"
  | .divisionByZero => "Dividing by zero is illegal"
  | .notAList => "To concatenate, must add a list"
  | .cannotRepeat count limit =>
    "cannot repeat a string " ++ numberText count ++ " times" ++ limitDetails limit
  | .undefined name => name ++ " is not defined"
  | .unknownOperator => "binary expression nonexistent on operator"
  | .notANumber => "unary expression must be on number"
  | .tooFewArguments function => "not enough arguments passed into " ++ function
  | .tooManyArguments function => "too many arguments passed into " ++ function
  | .argumentNotList number => "Argument #" ++ toString number ++ " must be list"
  | .argumentNotNumber number => "Argument #" ++ toString number ++ " must be number"
  | .indexOutOfRange index =>
    "Failed to index: list index " ++ numberText index ++ " out of range"
  | .argumentNotTriple number => "Argument #" ++ toString number ++ " must be a list"
  | .argumentComponent number component =>
    "Argument #" ++ toString number ++ " index " ++ toString component ++ " must be number"
  | .argumentNotString number => "Argument #" ++ toString number ++ " must be string"
  | .refused kind message => "Failed to " ++ kind.purpose ++ ": " ++ message
  | .hostFailure message => message

end RuntimeCause

structure RuntimeFault where
  cause : RuntimeCause
  span : Span
  context : Option Context

/-- Why evaluation stopped: a fault of the program, or a tree that no program text has. -/
inductive Failure where
  | runtime (fault : RuntimeFault)
  /-- The tree holds a node that stands for nothing. -/
  | unexpectedNode (kind : String)
  /-- The text of a number is no numeral. -/
  | notANumeral
  /-- A value of the tree does not fit its use. -/
  | misfit (cause : Misfit)
  /-- The value cannot be copied. -/
  | uncopyable
  /-- A host's function answered with a name that is not bound. -/
  | missingValue

/-- What is said about a failure that is no fault of a program, if anything. -/
def Failure.message? : Failure → Option String
  | .unexpectedNode kind => some ("visit: unexpected node type " ++ kind)
  | _ => none

/-- The names under which faults are reported. -/
inductive FaultName where
  | illegalCharacter
  | expectedCharacter
  | illegalSyntax
  | invalidSyntax
  | runtimeError
  | divisionByZero
deriving DecidableEq

def FaultName.label : FaultName → String
  | .illegalCharacter => "Illegal character"
  | .expectedCharacter => "Expected character"
  | .illegalSyntax => "Illegal syntax"
  | .invalidSyntax => "Invalid syntax"
  | .runtimeError => "Runtime error"
  | .divisionByZero => "Division by zero"

/-- What is told about a fault. -/
structure Report where
  name : FaultName
  details : String
  span : Span
  /-- Stands before everything else. -/
  traceback : Except Unreadable String

namespace Report

def message (r : Report) : Except Unreadable String := do
  let traceback ← r.traceback
  let number ← r.span.start.lineNumber
  let lines ← r.span.excerpt
  return traceback ++ "File '" ++ r.span.start.file.display ++ "', line " ++ number ++
    "\n\nError name: " ++ r.name.label ++ "\nDetails: " ++ r.details ++ "\n\n" ++ lines

end Report

def LexicalFault.report (f : LexicalFault) : Report :=
  let name :=
    match f.cause with
    | .illegalCharacter _ => .illegalCharacter
    | .unclosedString _ => .expectedCharacter
  ⟨name, f.cause.details, f.span, .ok ""⟩

def SyntaxFault.report (f : SyntaxFault) : Report :=
  let name := if f.expectation = .operand then .illegalSyntax else .invalidSyntax
  ⟨name, f.expectation.details, f.span, .ok ""⟩

def ParseFault.report : ParseFault → Report
  | .lexical f => f.report
  | .grammatical f => f.report

def RuntimeFault.report (f : RuntimeFault) : Report :=
  let name :=
    match f.cause with
    | .divisionByZero => .divisionByZero
    | _ => .runtimeError
  ⟨name, f.cause.details, f.span, Context.traceback f.context f.span.start⟩

end SceneScript
