import SceneScript.Json.Describe
import SceneScript.Number.Text
import SceneScript.Text.Quoted
import SceneScript.Value.Context

/-!
Views: what can be seen of a value, all the way down. A view does not share anything, so it keeps
what a value was when it was taken.
-/

namespace SceneScript

inductive View where
  | number (x : Float) (stamp : Stamp)
  | text (s : String) (stamp : Stamp)
  /-- A string literal of a tree file that holds something else. -/
  | literal (value : Json) (stamp : Stamp)
  | list (elements : List View) (stamp : Stamp)
  | builtin (name : String) (stamp : Stamp)
  | plain (stamp : Stamp)
deriving Inhabited

namespace View

def stamp : View → Stamp
  | .number _ stamp | .text _ stamp | .literal _ stamp | .list _ stamp | .builtin _ stamp
  | .plain stamp => stamp

mutual

/-- The text that printing shows. A literal that is no text has none. -/
def display? : View → Option String
  | .number x _ => some (numberText x)
  | .text s _ => some s
  | .literal .. => none
  | .list elements _ => do
    let parts ← displayAll? elements
    return "[" ++ ", ".intercalate parts ++ "]"
  | .builtin name _ => some ("[function " ++ name ++ "]")
  | .plain _ => some "[value]"

def displayAll? : List View → Option (List String)
  | [] => some []
  | v :: vs => do
    let part ← display? v
    let parts ← displayAll? vs
    return part :: parts

end

mutual

/-- The text that tells values of different kinds apart. -/
def describe : View → String
  | .number x _ => "NumberValue(" ++ numberText x ++ ")"
  | .text s _ => "StringValue(" ++ Text.quoted s ++ ")"
  | .literal value _ => "StringValue(" ++ value.describe ++ ")"
  | .list elements _ => "ListValue([" ++ ", ".intercalate (describeAll elements) ++ "])"
  | .builtin name _ => "BuiltinFunction(" ++ Text.quoted name ++ ")"
  | .plain _ => "Value()"

def describeAll : List View → List String
  | [] => []
  | v :: vs => describe v :: describeAll vs

end

end View

end SceneScript
