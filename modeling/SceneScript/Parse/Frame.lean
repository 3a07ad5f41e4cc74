import SceneScript.Node.Basic
import SceneScript.Parse.Fault

/-!
Constructs that wait for an operand. Reading an expression from left to right leaves a stack of
them; an operand completes the ones on top that bind tighter than what follows it.
-/

namespace SceneScript

/-- The levels of binary operators, from the loosest to the tightest. -/
inductive Level where
  | logic
  | relation
  | sum
  | product
  | power
deriving DecidableEq

namespace Level

/-- The level of a token that is a binary operator. -/
def ofToken? (t : Token) : Option Level :=
  match t.kind with
  | .keyword => if t.value = .string "and" ∨ t.value = .string "or" then some .logic else none
  | .equalEqual | .notEqual | .lessThan | .lessThanEqual | .greaterThan | .greaterThanEqual =>
    some .relation
  | .plus | .minus => some .sum
  | .star | .slash => some .product
  | .power => some .power
  | _ => none

/-- How tightly a level binds; negation stands between `logic` and `relation`, a sign between
    `product` and `power`. -/
def rank : Level → Nat
  | .logic => 1
  | .relation => 3
  | .sum => 4
  | .product => 5
  | .power => 7

end Level

inductive Frame where
  /-- `let name =` -/
  | assign (name : Token)
  /-- `left op` -/
  | binary (level : Level) (left : Node) (op : Token)
  /-- `!` -/
  | negate (op : Token)
  /-- A sign. -/
  | sign (op : Token)
  /-- `(` -/
  | group
  /-- `callee(` with some arguments, each with its comma. -/
  | call (callee : Node) (args : List Node)
  /-- `[` with some elements, each with its comma. -/
  | list (opener : Token) (elements : List Node)

namespace Frame

def bracket? : Frame → Option Bracket
  | .group => some .group
  | .call .. => some .call
  | .list .. => some .list
  | _ => none

/-- What the frame becomes with its operand; a bracket has to be closed first. -/
def complete? (frame : Frame) (operand : Node) : Option Node :=
  match frame with
  | .assign name => some (.bind name operand)
  | .binary _ left op => some (.combine left op operand)
  | .negate op => some (.apply op operand)
  | .sign op => some (.apply op operand)
  | .group | .call .. | .list .. => none

/-- Whether an operand completes the frame when an operator of the level follows: operators of
    one level group to the left, powers to the right. -/
def yieldsTo (frame : Frame) (level : Level) : Bool :=
  match frame with
  | .binary own _ _ => level.rank < own.rank || (own == level && level != .power)
  | .negate _ => level == .logic
  | .sign _ => level != .power
  | _ => false

/-- Whether `!` may stand right behind the frame. -/
def admitsNegation : Frame → Bool
  | .binary level _ _ => level == .logic
  | .sign _ => false
  | _ => true

/-- Whether `let` may stand right behind the frame. -/
def admitsAssignment : Frame → Bool
  | .binary .. | .negate _ | .sign _ => false
  | _ => true

end Frame

/-- Completes the frames on top of the stack that are no brackets, as long as they satisfy
    `ends`. -/
def reduceWhile (ends : Frame → Bool) (operand : Node) : List Frame → Node × List Frame
  | [] => (operand, [])
  | frame :: frames =>
    match frame.complete? operand with
    | some node => if ends frame then reduceWhile ends node frames else (operand, frame :: frames)
    | none => (operand, frame :: frames)

/-- The innermost bracket that is open. -/
def openBracket? (frames : List Frame) : Option Bracket := frames.findSome? Frame.bracket?

end SceneScript
