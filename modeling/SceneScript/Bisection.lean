/-!
Counting in a sorted table by halving it.
-/

namespace SceneScript

/-- How many entries of the ascending `table` are at most `n`, given that those below `low` are
    and those from `high` on are not. -/
def countBetween (table : Array Nat) (n low high : Nat) : Nat :=
  if low < high then
    let middle := (low + high) / 2
    if n < table[middle]?.getD 0 then countBetween table n low middle
    else countBetween table n (middle + 1) high
  else low
termination_by high - low

/-- How many entries of the ascending `table` are at most `n`. -/
def countUpTo (table : Array Nat) (n : Nat) : Nat := countBetween table n 0 table.size

end SceneScript
