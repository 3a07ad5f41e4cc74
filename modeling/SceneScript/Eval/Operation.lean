import SceneScript.Eval.Fault
import SceneScript.Number.Power
import SceneScript.Token.Basic
import SceneScript.Value.Store

/-!
Operations on values. Each takes references and makes a new cell; what an operation is not defined
for is an illegal operation that spans both operands.
-/

namespace SceneScript

/-- Evaluation: it changes the machine, also when it fails. -/
abbrev EvalM := EStateM Failure Machine

namespace EvalM

def alloc (content : Content) (stamp : Stamp) : EvalM Ref :=
  modifyGet (·.alloc ⟨content, stamp⟩)

def cell (r : Ref) : EvalM Cell := do return (← get).cell r

def update (r : Ref) (f : Cell → Cell) : EvalM Unit :=
  modify fun m => { m with cells := m.cells.modify r f }

/-- Gives a value a new place. -/
def setSpan (r : Ref) (span : Span) : EvalM Unit :=
  update r fun c => { c with stamp := { c.stamp with span := span } }

/-- Gives a value a new context. -/
def setContext (r : Ref) (context : Context) : EvalM Unit :=
  update r fun c => { c with stamp := { c.stamp with context := context } }

/-- Copies a value; a list's elements are shared. -/
def clone (r : Ref) : EvalM Ref := do
  let c ← cell r
  match c.content with
  | .plain => throw .uncopyable
  | content => alloc content c.stamp

def fail {α : Type} (cause : RuntimeCause) (span : Span) (context : Context) : EvalM α :=
  throw (.runtime ⟨cause, span, some context⟩)

/-- The failure of an operation that is not defined for these operands. -/
def illegal {α : Type} (left right : Cell) : EvalM α :=
  fail .illegalOperation (left.stamp.span.join right.stamp.span) left.stamp.context

/-- A result of arithmetic on what a tree file holds. -/
def fitting {α : Type} (result : Except Misfit α) : EvalM α :=
  match result with
  | .ok value => return value
  | .error cause => throw (.misfit cause)

def record (e : Event) : EvalM Unit := modify fun m => { m with events := e :: m.events }

end EvalM

/-- The binary operations. -/
inductive Operator where
  | add
  | sub
  | mul
  | div
  | pow
  | eq
  | ne
  | lt
  | le
  | gt
  | ge
  | and
  | or
deriving DecidableEq

namespace Operator

/-- The operation of an operator's token. -/
def ofToken? (t : Token) : Option Operator :=
  match t.kind with
  | .plus => some .add
  | .minus => some .sub
  | .star => some .mul
  | .slash => some .div
  | .power => some .pow
  | .equalEqual => some .eq
  | .notEqual => some .ne
  | .lessThan => some .lt
  | .lessThanEqual => some .le
  | .greaterThan => some .gt
  | .greaterThanEqual => some .ge
  | .keyword =>
    if t.value = .string "and" then some .and
    else if t.value = .string "or" then some .or
    else none
  | _ => none

/-- Truth values are numbers. -/
def truth (b : Bool) : Float := if b then 1 else 0

/-- The operation on numbers, apart from a division by zero. -/
def onNumbers (op : Operator) (x y : Float) : Float :=
  match op with
  | .add => x + y
  | .sub => x - y
  | .mul => x * y
  | .div => x / y
  | .pow => power x y
  | .eq => truth (x == y)
  | .ne => truth (x != y)
  | .lt => truth (x < y)
  | .le => truth (x ≤ y)
  | .gt => truth (x > y)
  | .ge => truth (x ≥ y)
  | .and => truth (x != 0 && y != 0)
  | .or => truth (x != 0 || y != 0)

end Operator

namespace EvalM

/-- The text of one cell as often as the number of the other says. -/
def repeatText (s : String) (text : Stamp) (x : Float) (count : Stamp) : EvalM Ref :=
  match Repetition.text s x with
  | .ok result => alloc (.text result) ⟨.nowhere, text.context⟩
  | .error limit => fail (.cannotRepeat x limit) (text.span.join count.span) text.context

/-- A literal that is no text as often as a number says. -/
def repeatLiteral (value : Json) (literal : Stamp) (x : Float) (count : Stamp) : EvalM Ref :=
  let refuse (limit : RepeatLimit) : EvalM Ref :=
    fail (.cannotRepeat x limit) (literal.span.join count.span) literal.context
  match value with
  | .array items =>
    match Repetition.array items x with
    | .ok result => alloc (.literal (.array result)) ⟨.nowhere, literal.context⟩
    | .error limit => refuse limit
  | value =>
    match Repetition.count? x with
    | none => refuse .notACount
    | some n => do
      let result ← fitting (value.multiple n)
      alloc (.literal result) ⟨.nowhere, literal.context⟩

/-- Two literals of which one is no text. -/
def joinLiterals (left right : Json) (context : Context) : EvalM Ref := do
  let result ← fitting (left.sum right)
  alloc (.ofLiteral result) ⟨.nowhere, context⟩

/-- Applies a binary operation. The result belongs to the context of the left operand, except
    that a repeated text belongs to its own. -/
def operate (op : Operator) (left right : Ref) : EvalM Ref := do
  let a ← cell left
  let b ← cell right
  match a.content, b.content, op with
  | .number x, .number y, op =>
    if op = .div ∧ (y == 0) = true then fail .divisionByZero b.stamp.span a.stamp.context
    else alloc (.number (op.onNumbers x y)) ⟨.nowhere, a.stamp.context⟩
  | .number x, .text s, .mul => repeatText s b.stamp x a.stamp
  | .text s, .number x, .mul => repeatText s a.stamp x b.stamp
  | .text s, .text t, .add => alloc (.text (s ++ t)) ⟨.nowhere, a.stamp.context⟩
  | .number x, .literal j, .mul => repeatLiteral j b.stamp x a.stamp
  | .literal j, .number x, .mul => repeatLiteral j a.stamp x b.stamp
  | .literal i, .text t, .add => joinLiterals i (.string t) a.stamp.context
  | .text s, .literal j, .add => joinLiterals (.string s) j a.stamp.context
  | .literal i, .literal j, .add => joinLiterals i j a.stamp.context
  | .list xs, .list ys, .add => alloc (.list (xs ++ ys)) a.stamp
  | .list _, _, .add => fail .notAList b.stamp.span a.stamp.context
  | _, _, _ => illegal a b

/-- Negation of a truth value. -/
def negate (operand : Ref) : EvalM Ref := do
  let a ← cell operand
  match a.content with
  | .number x => alloc (.number (Operator.truth (x == 0))) ⟨.nowhere, a.stamp.context⟩
  | _ => illegal a a

end EvalM

end SceneScript
