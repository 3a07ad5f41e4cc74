import SceneScript.Bisection
import SceneScript.Source.Position

/-!
Looking positions up by index. The table holds the index at which each line starts; the line
of an index is found by halving the table.
-/

namespace SceneScript

/-- The indices, counted from `index`, at which the lines after the first one start. -/
def lineStartsAfter (index : Nat) : List Char → List Nat
  | [] => []
  | c :: cs =>
    if c = '\n' then (index + 1) :: lineStartsAfter (index + 1) cs
    else lineStartsAfter (index + 1) cs

structure LineIndex where
  origin : Origin
  starts : Array Nat

namespace LineIndex

def ofOrigin (origin : Origin) : LineIndex :=
  ⟨origin, (0 :: lineStartsAfter 0 origin.text.toList).toArray⟩

/-- The position of the character at `index`; it may lie beyond the end of the text. -/
def position (lines : LineIndex) (index : Nat) : Position :=
  let line := countUpTo lines.starts index - 1
  ⟨lines.origin, index, line, index - lines.starts[line]?.getD 0⟩

end LineIndex

end SceneScript
