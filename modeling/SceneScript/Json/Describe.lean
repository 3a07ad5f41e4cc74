import SceneScript.Json.Basic
import SceneScript.Number.Text
import SceneScript.Text.Quoted

/-!
JSON values as messages show them, and which of them are the same: numbers and truth values are
compared by their amount, objects without regard to the order of their fields.
-/

namespace SceneScript

namespace Json

mutual

/-- A value inside another one. -/
def describe : Json → String
  | .null => "None"
  | .bool b => if b then "True" else "False"
  | .int n => toString n
  | .float x => x.decimalText "nan" "inf"
  | .string s => Text.quoted s
  | .array items => "[" ++ ", ".intercalate (describeItems items) ++ "]"
  | .object fields => "\x7b" ++ ", ".intercalate (describeFields fields) ++ "\x7d"

def describeItems : List Json → List String
  | [] => []
  | item :: items => describe item :: describeItems items

def describeFields : List (String × Json) → List String
  | [] => []
  | (key, value) :: fields => (Text.quoted key ++ ": " ++ describe value) :: describeFields fields

end

/-- A value by itself; a text is shown as it is. -/
def display : Json → String
  | .string s => s
  | j => j.describe

/-- The name of a kind of value in messages. -/
def kindName : Json → String
  | .null => "NoneType"
  | .bool _ => "bool"
  | .int _ => "int"
  | .float _ => "float"
  | .string _ => "str"
  | .array _ => "list"
  | .object _ => "dict"

/-- Truth values and whole numbers as integers. -/
def amount : Json → Json
  | .bool b => .int (if b then 1 else 0)
  | .float x =>
    match x.toInt? with
    | some n => .int n
    | none => .float x
  | j => j

mutual

def same : Json → Json → Bool
  | .array xs, .array ys => sameItems xs ys
  | .object xs, .object ys => xs.length == ys.length && sameFields xs ys
  | a, b => a.amount == b.amount

def sameItems : List Json → List Json → Bool
  | [], [] => true
  | x :: xs, y :: ys => same x y && sameItems xs ys
  | _, _ => false

/-- Every field of the first object is one of the second. -/
def sameFields : List (String × Json) → List (String × Json) → Bool
  | [], _ => true
  | (key, value) :: fields, others =>
    (match field? others key with
      | some other => same value other
      | none => false) && sameFields fields others

end

end Json

end SceneScript
