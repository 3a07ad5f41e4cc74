import SceneScript.Token.Basic

/-!
Syntax trees. Every node has a span; built from its parts, it reaches from the first of them to
the last. Parentheses leave no node behind.
-/

namespace SceneScript

inductive Node where
  | program (body : List Node) (span : Span)
  | identifier (token : Token) (span : Span)
  | number (token : Token) (span : Span)
  | string (token : Token) (span : Span)
  | binary (left : Node) (op : Token) (right : Node) (span : Span)
  | unary (op : Token) (operand : Node) (span : Span)
  | list (elements : List Node) (span : Span)
  | call (callee : Node) (args : List Node) (span : Span)
  | assign (name : Token) (value : Node) (span : Span)
  /-- A node that stands for nothing, perhaps nowhere; no program text has one. -/
  | blank (start stop : Option Place)
deriving Inhabited

namespace Node

def span : Node → Span
  | .program _ span | .identifier _ span | .number _ span | .string _ span | .binary _ _ _ span
  | .unary _ _ span | .list _ span | .call _ _ span | .assign _ _ span => span
  | .blank start stop => ⟨start.getD .nowhere, stop.getD .nowhere⟩

/-- The name of a kind of node in tree files, descriptions and the log. -/
def kindName : Node → String
  | .program .. => "Program"
  | .identifier .. => "Identifier"
  | .number .. => "NumberLiteral"
  | .string .. => "StringLiteral"
  | .binary .. => "BinaryExpression"
  | .unary .. => "UnaryExpression"
  | .list .. => "ListExpression"
  | .call .. => "CallExpression"
  | .assign .. => "AssignExpression"
  | .blank .. => "Node"

/-! Nodes with the spans of their parts. -/

def ofIdentifier (t : Token) : Node := .identifier t t.span

def ofNumber (t : Token) : Node := .number t t.span

def ofString (t : Token) : Node := .string t t.span

def combine (left : Node) (op : Token) (right : Node) : Node :=
  .binary left op right (left.span.join right.span)

def apply (op : Token) (operand : Node) : Node :=
  .unary op operand (op.span.join operand.span)

def bind (name : Token) (value : Node) : Node :=
  .assign name value (name.span.join value.span)

/-- A call up to its closing bracket. -/
def invoke (callee : Node) (args : List Node) (closer : Token) : Node :=
  .call callee args (callee.span.join closer.span)

/-- A list between its brackets. -/
def enumerate (opener : Token) (elements : List Node) (closer : Token) : Node :=
  .list elements (opener.span.join closer.span)

/-- Without a closing bracket, a call reaches to the end of its last argument. -/
def callSpan (callee : Node) (args : List Node) : Span :=
  callee.span.join (args.getLastD callee).span

/-- A program reaches from its first statement to its last. -/
def bodySpan : List Node → Span
  | [] => .nowhere
  | first :: rest => first.span.join (rest.getLastD first).span

mutual

/-- Nodes are alike when they differ in places only. -/
def alike : Node → Node → Bool
  | .program a _, .program b _ => allAlike a b
  | .identifier s _, .identifier t _ => s.alike t
  | .number s _, .number t _ => s.alike t
  | .string s _, .string t _ => s.alike t
  | .binary a s c _, .binary b t d _ => alike a b && s.alike t && alike c d
  | .unary s a _, .unary t b _ => s.alike t && alike a b
  | .list a _, .list b _ => allAlike a b
  | .call a c _, .call b d _ => alike a b && allAlike c d
  | .assign s a _, .assign t b _ => s.alike t && alike a b
  | .blank .., .blank .. => true
  | _, _ => false

def allAlike : List Node → List Node → Bool
  | [], [] => true
  | a :: as, b :: bs => alike a b && allAlike as bs
  | _, _ => false

end

/-- Parenthesised and separated by commas; a single part has a comma behind it. -/
def describeTuple : List String → String
  | [] => "()"
  | [part] => "(" ++ part ++ ",)"
  | parts => "(" ++ ", ".intercalate parts ++ ")"

mutual

def describe : Node → String
  | .program body _ => "Program(body=" ++ describeTuple (describeAll body) ++ ")"
  | .identifier t _ => "Identifier(token=" ++ t.describe ++ ")"
  | .number t _ => "NumberLiteral(token=" ++ t.describe ++ ")"
  | .string t _ => "StringLiteral(token=" ++ t.describe ++ ")"
  | .binary left op right _ =>
    "BinaryExpression(left=" ++ describe left ++ ", op=" ++ op.describe ++ ", right=" ++
      describe right ++ ")"
  | .unary op operand _ =>
    "UnaryExpression(op=" ++ op.describe ++ ", operand=" ++ describe operand ++ ")"
  | .list elements _ => "ListExpression(elements=" ++ describeTuple (describeAll elements) ++ ")"
  | .call callee args _ =>
    "CallExpression(callee=" ++ describe callee ++ ", args=" ++
      describeTuple (describeAll args) ++ ")"
  | .assign name value _ =>
    "AssignExpression(name=" ++ name.describe ++ ", value=" ++ describe value ++ ")"
  | .blank .. => "Node()"

def describeAll : List Node → List String
  | [] => []
  | node :: nodes => describe node :: describeAll nodes

end

end Node

/-- A whole program: its statements in order. -/
structure Program where
  body : List Node
  span : Span
deriving Inhabited

namespace Program

def toNode (p : Program) : Node := .program p.body p.span

/-- A program without statements stands at the start of its text. -/
def ofBody (origin : Origin) (body : List Node) : Program :=
  if body.isEmpty then ⟨[], ⟨Position.start origin, Position.start origin⟩⟩
  else ⟨body, Node.bodySpan body⟩

def alike (a b : Program) : Bool := Node.allAlike a.body b.body

end Program

end SceneScript
