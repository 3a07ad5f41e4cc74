import SceneScript.Json.Arithmetic
import SceneScript.Size

/-!
Repetition: a text as often as a number says, which means its whole part. What is beyond all sizes
is refused.
-/

namespace SceneScript

/-- Why something cannot be repeated. -/
inductive RepeatLimit where
  /-- The count is negative or no number of times. -/
  | notACount
  /-- The count is beyond all sizes. -/
  | countTooLarge
  /-- The result would be beyond all sizes. -/
  | resultTooLarge
  /-- There is no room for the result. -/
  | noRoom
deriving DecidableEq

namespace Repetition

/-- The number of times that a number means. -/
def count? (x : Float) : Option Nat :=
  match Binary64.ofFloat x with
  | .finite negative mantissa exponent =>
    if negative && mantissa != 0 then none
    else
      let (num, den) := Binary64.fraction mantissa exponent
      some (num / den)
  | _ => none

/-- A text repeated. -/
def text (s : String) (times : Float) : Except RepeatLimit String :=
  match count? times with
  | none => .error .notACount
  | some n =>
    if sizeLimit ≤ n then .error .countTooLarge
    else if s.isEmpty || n == 0 then .ok ""
    else if sizeLimit ≤ s.length * n then .error .resultTooLarge
    else if roomLimit ≤ s.length * n then .error .noRoom
    else .ok (String.join (List.replicate n s))

/-- An array repeated. -/
def array (items : List Json) (times : Float) : Except RepeatLimit (List Json) :=
  match count? times with
  | none => .error .notACount
  | some n =>
    if sizeLimit ≤ n then .error .countTooLarge
    else if items.isEmpty || n == 0 then .ok []
    else if roomLimit ≤ items.length * n then .error .noRoom
    else .ok (List.replicate n items).flatten

end Repetition

end SceneScript
