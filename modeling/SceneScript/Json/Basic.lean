import SceneScript.Number.Binary64

/-!
JSON values. Integers are kept apart from other numbers, and the fields of an object keep their
order.
-/

namespace SceneScript

inductive Json where
  | null
  | bool (b : Bool)
  | int (n : Int)
  | float (x : Binary64)
  | string (s : String)
  | array (items : List Json)
  | object (fields : List (String × Json))
deriving Inhabited

namespace Json

mutual

def decEq (a b : Json) : Decidable (a = b) := by
  cases a <;> cases b
  case null.null => exact isTrue rfl
  case bool.bool a b => exact decidable_of_iff (a = b) (by simp)
  case int.int a b => exact decidable_of_iff (a = b) (by simp)
  case float.float a b => exact decidable_of_iff (a = b) (by simp)
  case string.string a b => exact decidable_of_iff (a = b) (by simp)
  case array.array xs ys =>
    exact match decEqItems xs ys with
    | isTrue same => isTrue (by rw [same])
    | isFalse other => isFalse (by simpa using other)
  case object.object xs ys =>
    exact match decEqFields xs ys with
    | isTrue same => isTrue (by rw [same])
    | isFalse other => isFalse (by simpa using other)
  all_goals exact isFalse (by simp)

def decEqItems : (xs ys : List Json) → Decidable (xs = ys)
  | [], [] => isTrue rfl
  | [], _ :: _ => isFalse (by simp)
  | _ :: _, [] => isFalse (by simp)
  | x :: xs, y :: ys =>
    match decEq x y, decEqItems xs ys with
    | isTrue head, isTrue tail => isTrue (by rw [head, tail])
    | isFalse head, _ => isFalse (by simp [head])
    | _, isFalse tail => isFalse (by simp [tail])

def decEqFields : (xs ys : List (String × Json)) → Decidable (xs = ys)
  | [], [] => isTrue rfl
  | [], _ :: _ => isFalse (by simp)
  | _ :: _, [] => isFalse (by simp)
  | (k, x) :: xs, (l, y) :: ys =>
    match decEq x y, decEqFields xs ys with
    | isTrue head, isTrue tail =>
      if key : k = l then isTrue (by rw [head, tail, key]) else isFalse (by simp [key])
    | isFalse head, _ => isFalse (by simp [head])
    | _, isFalse tail => isFalse (by simp [tail])

end

instance : DecidableEq Json := decEq

/-- The field of an object. -/
def field? (fields : List (String × Json)) (key : String) : Option Json := fields.lookup key

/-- Puts a field into an object, in place of an earlier one of that name. -/
def setField (key : String) (value : Json) : List (String × Json) → List (String × Json)
  | [] => [(key, value)]
  | (k, v) :: fields =>
    if k = key then (k, value) :: fields else (k, v) :: setField key value fields

/-- The object of fields, of which those with one name are one: it stands where the first of them
    stood and has the value of the last. -/
def ofFields (fields : List (String × Json)) : Json :=
  .object (fields.foldl (fun object (key, value) => setField key value object) [])

def nat (n : Nat) : Json := .int n

/-- The integer that a truth value or an integer counts as. -/
def toInt? : Json → Option Int
  | .bool b => some (if b then 1 else 0)
  | .int n => some n
  | _ => none

/-- One more than a number. -/
def next? : Json → Option Json
  | .float x => some (.float x.next)
  | j => j.toInt?.map fun n => .int (n + 1)

/-- A truth value or an integer that is not negative. -/
def toCount? (j : Json) : Option Nat := j.toInt?.bind Int.toNat?

/-- The most digits with which an integer is read or written. -/
def digitLimit : Nat := 4300

/-- The least integer with more digits. -/
def integerLimit : Nat := Nat.pow 10 digitLimit

mutual

/-- How deep values are nested; a value without parts has depth one. -/
def depth : Json → Nat
  | .array items => depthOfItems items + 1
  | .object fields => depthOfFields fields + 1
  | _ => 1

def depthOfItems : List Json → Nat
  | [] => 0
  | item :: items => max (depth item) (depthOfItems items)

def depthOfFields : List (String × Json) → Nat
  | [] => 0
  | (_, value) :: fields => max (depth value) (depthOfFields fields)

end

end Json

end SceneScript
