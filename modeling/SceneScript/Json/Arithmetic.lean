import SceneScript.Json.Basic

/-!
Arithmetic on JSON values. Truth values count as integers, an integer meets another number as the
number nearest to it, and arrays and texts are added by joining them.
-/

namespace SceneScript

/-- Why a value does not fit its use. -/
inductive Misfit where
  /-- It is of another kind. -/
  | kind
  /-- It is an integer too large to be a number. -/
  | size
deriving DecidableEq

namespace Json

/-- The number that a value is. -/
def toNumber : Json → Except Misfit Binary64
  | .float x => .ok x
  | j =>
    match j.toInt? with
    | none => .error .kind
    | some n =>
      match Binary64.ofInt? n with
      | some x => .ok x
      | none => .error .size

def sum : Json → Json → Except Misfit Json
  | .string s, .string t => .ok (.string (s ++ t))
  | .array xs, .array ys => .ok (.array (xs ++ ys))
  | .float x, b => b.toNumber.map fun y => .float (x.plus y)
  | a, .float y => a.toNumber.map fun x => .float (x.plus y)
  | a, b =>
    match a.toInt?, b.toInt? with
    | some m, some n => .ok (.int (m + n))
    | _, _ => .error .kind

/-- A number a number of times. -/
def multiple (n : Nat) : Json → Except Misfit Json
  | .float x => .ok (.float (x.times (.nearest false n 1)))
  | j =>
    match j.toInt? with
    | some m => .ok (.int (m * n))
    | none => .error .kind

end Json

end SceneScript
