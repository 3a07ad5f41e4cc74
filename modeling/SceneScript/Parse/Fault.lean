import SceneScript.Token.Fault

/-!
What can be wrong with the order of tokens: at some token, something else was expected.
-/

namespace SceneScript

/-- What a bracket belongs to. -/
inductive Bracket where
  | group
  | call
  | list
deriving DecidableEq

/-- The tokens that can follow a part between such brackets. -/
def Bracket.closers : Bracket → List String
  | .group => [")"]
  | .call => [")", ","]
  | .list => ["]", ","]

inductive Expectation where
  /-- Something to compute with. -/
  | operand
  /-- The name that is assigned to. -/
  | name
  /-- The sign between a name and its value. -/
  | equals
  /-- The semicolon behind a statement. -/
  | statementEnd
  /-- The end of a part between brackets. -/
  | closer (bracket : Bracket)
  /-- More, where the text ends behind an operand inside the given bracket or none. -/
  | continuation (bracket : Option Bracket)
  /-- One of these terminals of the grammar. -/
  | terminals (names : List String)
deriving DecidableEq

structure SyntaxFault where
  expectation : Expectation
  span : Span
deriving DecidableEq

inductive ParseFault where
  | lexical (fault : LexicalFault)
  | grammatical (fault : SyntaxFault)
deriving DecidableEq

namespace Expectation

/-- Between apostrophes, separated by commas. -/
def quote (values : List String) : String :=
  ", ".intercalate (values.map fun value => "'" ++ value ++ "'")

def expected (what : List String) : String := "Expected " ++ ", ".intercalate what

/-- The operators that can follow any operand, besides arithmetic. -/
def continuations : List String := ["==", "!=", "<", "<=", ">", ">=", "and", "or"]

/-- What can end a part inside the given bracket, or a statement. -/
def terminators : Option Bracket → List String
  | some bracket => bracket.closers
  | none => [";"]

def details : Expectation → String
  | .operand => expected ["number", "identifier", "string", quote ["(", "["]]
  | .name => expected ["identifier"]
  | .equals => expected [quote ["="]]
  | .statementEnd => expected ["statement to end with semicolon"]
  | .closer bracket => expected [quote bracket.closers]
  | .continuation bracket => expected [quote (continuations ++ terminators bracket)]
  | .terminals names => expected names

end Expectation

end SceneScript
