import SceneScript.Eval.Call
import SceneScript.Node.Basic
import SceneScript.Number.Numeral

/-!
Evaluation of syntax trees in a context: parts from left to right, each exactly once, and both
operands of every operator. The value of an expression is stamped with its place and context.
-/

namespace SceneScript

namespace EvalM

/-- The name that a token gives. -/
def nameOf (token : Token) : EvalM Name :=
  match Name.ofJson? token.value with
  | some name => return name
  | none => throw (.misfit .kind)

/-- The value of a name, copied to where the name stands. -/
def readName (context : Context) (token : Token) (span : Span) : EvalM Ref := do
  let name ← nameOf token
  let m ← get
  match m.lookup context.table name with
  | none => fail (.undefined token.value.display) span context
  | some stored =>
    let copy ← clone stored
    setContext copy context
    setSpan copy span
    return copy

/-- The number that a literal denotes. -/
def readNumber (value : Json) : EvalM Float :=
  match value with
  | .string text =>
    match Numeral.ofText? text with
    | some numeral => return numeral.value.toFloat
    | none => throw .notANumeral
  | value => do
    let x ← fitting value.toNumber
    return x.toFloat

/-- A binary operation on two values, placed at `span`. -/
def combine (context : Context) (op : Token) (left right : Ref) (span : Span) : EvalM Ref :=
  match Operator.ofToken? op with
  | none => do
    if op.kind = .keyword then let _ ← nameOf op
    fail .unknownOperator span context
  | some operator => do
    let result ← operate operator left right
    setSpan result span
    return result

/-- A sign or a negation in front of a value, placed at `span`. A plus sign changes nothing, so
    the value itself is placed there. -/
def apply (context : Context) (op : Token) (operand : Ref) (span : Span) : EvalM Ref := do
  match (← cell operand).content with
  | .number _ =>
    let result ←
      match op.kind with
      | .minus => do
        let minusOne ← alloc (.number (-1)) .none
        operate .mul operand minusOne
      | .bang => negate operand
      | _ => pure operand
    setSpan result span
    return result
  | _ => fail .notANumber span context

/-- A copy of a value that is about to be called from `span`. -/
def prepareCallee (callee : Ref) (span : Span) : EvalM Ref := do
  let copy ← clone callee
  setSpan copy span
  return copy

/-- The result of a call, copied to where the call stands. -/
def takeResult (context : Context) (result : Ref) (span : Span) : EvalM Ref := do
  let copy ← clone result
  setSpan copy span
  setContext copy context
  return copy

mutual

/-- The value of a node. -/
def eval (host : Host) (context : Context) : Node → EvalM Ref
  | .program body span => do
    record (.visited "Program" span.start)
    let _ ← evalAll host context body
    clone (Machine.constant .null)
  | .identifier token span => do
    record (.visited "Identifier" span.start)
    readName context token span
  | .number token span => do
    record (.visited "NumberLiteral" span.start)
    let x ← readNumber token.value
    alloc (.number x) ⟨span, context⟩
  | .string token span => do
    record (.visited "StringLiteral" span.start)
    alloc (.ofLiteral token.value) ⟨span, context⟩
  | .binary left op right span => do
    record (.visited "BinaryExpression" span.start)
    let a ← eval host context left
    let b ← eval host context right
    combine context op a b span
  | .unary op operand span => do
    record (.visited "UnaryExpression" span.start)
    let a ← eval host context operand
    apply context op a span
  | .list elements span => do
    record (.visited "ListExpression" span.start)
    let refs ← evalAll host context elements
    alloc (.list refs) ⟨span, context⟩
  | .call callee args span => do
    record (.visited "CallExpression" span.start)
    let function ← eval host context callee
    let function ← prepareCallee function span
    let refs ← evalAll host context args
    let result ← execute host function refs
    takeResult context result span
  | .assign name value span => do
    record (.visited "AssignExpression" span.start)
    let r ← eval host context value
    let name ← nameOf name
    modify (·.bind context.table name r)
    return r
  | .blank start _ => do
    record (.visited "Node" (start.getD .nowhere))
    throw (.unexpectedNode "Node")

/-- The values of nodes, from left to right. -/
def evalAll (host : Host) (context : Context) : List Node → EvalM (List Ref)
  | [] => return []
  | node :: nodes => do
    let r ← eval host context node
    let rs ← evalAll host context nodes
    return r :: rs

end

end EvalM

end SceneScript
