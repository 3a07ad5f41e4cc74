import SceneScript.Parse.Frame
import SceneScript.Token.Scanner

/-!
The parser by precedence. It takes the tokens one by one and keeps a stack of constructs that
wait for an operand, so that its work on a text is a fold over the tokens.

    statements := (expr ';' | ';')*
    expr       := 'let' NAME '=' expr | logic
    logic      := comparison (('and' | 'or') comparison)*
    comparison := '!' comparison | relation
    relation   := sum (('==' | '!=' | '<' | '<=' | '>' | '>=') sum)*
    sum        := product (('+' | '-') product)*
    product    := factor (('*' | '/') factor)*
    factor     := ('+' | '-') factor | power
    power      := call ('^' factor)?
    call       := atom ('(' (expr (',' expr)*)? ')')?
    atom       := NUMBER | STRING | NAME | '(' expr ')' | '[' (expr (',' expr)*)? ']'
-/

namespace SceneScript

/-- What the parser looks for next. -/
inductive Focus where
  /-- A statement or the end of the text. -/
  | statement
  /-- An operand. -/
  | operand
  /-- The first part between brackets, or the closing one. -/
  | item
  /-- The name behind `let`. -/
  | name
  /-- The sign behind the name of an assignment. -/
  | equals (name : Token)
  /-- What follows an operand; `callable` when it may be called. -/
  | operator (operand : Node) (callable : Bool)

structure Parser where
  /-- The finished statements, the last one first. -/
  statements : List Node
  /-- What waits for an operand, the innermost first. -/
  frames : List Frame
  focus : Focus

namespace Parser

def initial : Parser := ⟨[], [], .statement⟩

def fail (expectation : Expectation) (t : Token) : Except ParseFault Parser :=
  .error (.grammatical ⟨expectation, t.span⟩)

def push (p : Parser) (frame : Frame) (focus : Focus) : Parser :=
  { p with frames := frame :: p.frames, focus := focus }

def look (p : Parser) (focus : Focus) : Parser := { p with focus := focus }

/-- A token where an operand starts. -/
def startOperand (p : Parser) (t : Token) : Except ParseFault Parser :=
  match t.kind with
  | .number => .ok (p.look (.operator (.ofNumber t) true))
  | .string => .ok (p.look (.operator (.ofString t) true))
  | .identifier => .ok (p.look (.operator (.ofIdentifier t) true))
  | .leftParen => .ok (p.push .group .operand)
  | .leftSquare => .ok (p.push (.list t []) .item)
  | .plus | .minus => .ok (p.push (.sign t) .operand)
  | .bang =>
    if p.frames.head?.all Frame.admitsNegation then .ok (p.push (.negate t) .operand)
    else fail .operand t
  | .keyword =>
    if t.value = .string "let" ∧ p.frames.head?.all Frame.admitsAssignment then .ok (p.look .name)
    else fail .operand t
  | _ => fail .operand t

/-- A token behind a whole part, which stands in the innermost bracket or is a statement. -/
def endPart (p : Parser) (part : Node) (frames : List Frame) (t : Token) :
    Except ParseFault Parser :=
  match frames with
  | .group :: outer =>
    if t.kind = .rightParen then .ok { p with frames := outer, focus := .operator part true }
    else fail (.closer .group) t
  | .call callee args :: outer =>
    let args := args ++ [part]
    if t.kind = .rightParen then
      .ok { p with frames := outer, focus := .operator (.invoke callee args t) false }
    else if t.kind = .comma then
      .ok { p with frames := .call callee args :: outer, focus := .operand }
    else fail (.closer .call) t
  | .list opener elements :: outer =>
    let elements := elements ++ [part]
    if t.kind = .rightSquare then
      .ok { p with frames := outer, focus := .operator (.enumerate opener elements t) true }
    else if t.kind = .comma then
      .ok { p with frames := .list opener elements :: outer, focus := .operand }
    else fail (.closer .list) t
  | _ =>
    if t.kind = .semicolon then .ok ⟨part :: p.statements, [], .statement⟩
    else .error (.grammatical ⟨.statementEnd, part.span⟩)

/-- A token behind an operand. -/
def afterOperand (p : Parser) (operand : Node) (callable : Bool) (t : Token) :
    Except ParseFault Parser :=
  if t.kind = .leftParen ∧ callable then .ok (p.push (.call operand []) .item)
  else
    match Level.ofToken? t with
    | some level =>
      let (left, frames) := reduceWhile (·.yieldsTo level) operand p.frames
      .ok { p with frames := .binary level left t :: frames, focus := .operand }
    | none =>
      let (part, frames) := reduceWhile (fun _ => true) operand p.frames
      endPart p part frames t

/-- A token behind an opening bracket that may be closed at once. -/
def startItem (p : Parser) (t : Token) : Except ParseFault Parser :=
  match p.frames with
  | .call callee args :: outer =>
    if t.kind = .rightParen then
      .ok { p with frames := outer, focus := .operator (.invoke callee args t) false }
    else p.startOperand t
  | .list opener elements :: outer =>
    if t.kind = .rightSquare then
      .ok { p with frames := outer, focus := .operator (.enumerate opener elements t) true }
    else p.startOperand t
  | _ => p.startOperand t

def step (p : Parser) (t : Token) : Except ParseFault Parser :=
  match p.focus with
  | .statement => if t.kind = .semicolon then .ok p else p.startOperand t
  | .operand => p.startOperand t
  | .item => p.startItem t
  | .name => if t.kind = .identifier then .ok (p.look (.equals t)) else fail .name t
  | .equals name =>
    if t.kind = .equal then .ok (p.push (.assign name) .operand) else fail .equals t
  | .operator operand callable => p.afterOperand operand callable t

/-- What is missing where the text ends. -/
def missing? (p : Parser) : Option Expectation :=
  match p.focus with
  | .statement => none
  | .operand | .item => some .operand
  | .name => some .name
  | .equals _ => some .equals
  | .operator .. => some (.continuation (openBracket? p.frames))

/-- The text ends; its fault comes first, if it has one. -/
def finish (origin : Origin) (p : Parser) (ending : Ending) : Except ParseFault Program :=
  match ending with
  | .fault fault => .error (.lexical fault)
  | .finished position =>
    match p.missing? with
    | none => .ok (.ofBody origin p.statements.reverse)
    | some expectation =>
      .error (.grammatical ⟨expectation, ⟨position, position.past⟩⟩)

end Parser

/-- Parses a text by precedence. -/
def parse (origin : Origin) : Except ParseFault Program := do
  let stream := TokenStream.ofOrigin origin
  let parser ← stream.tokens.foldlM Parser.step .initial
  parser.finish origin stream.ending

end SceneScript
