import SceneScript.Value.Context

/-!
Builtin functions. Besides those of the language and of scenes there are functions that a host
defines: a name, parameters, and either what every call answers or a number under which the host
knows what to do.
-/

namespace SceneScript

inductive Constant where
  | null
  | no
  | yes
deriving DecidableEq

mutual

inductive Builtin where
  | print
  | get
  | append
  | setBackgroundColor
  | block
  | pyramid
  | host (name : String) (params : List String) (reply : Reply)
  | foreign (name : String) (params : List String) (number : Nat)

/-- What a host's function answers. -/
inductive Reply where
  | null
  /-- The value bound to a name. -/
  | variable (name : String)
  | failure (message : String)
  /-- A value made for each call. -/
  | fresh (value : Blueprint)

/-- A value to be made: its content, its place and the name of its context. -/
inductive Blueprint where
  | number (x : Float) (span : Span) (context : String)
  | text (s : String) (span : Span) (context : String)
  | list (elements : List Blueprint) (span : Span) (context : String)
  | builtin (b : Builtin) (span : Span) (context : String)
  | constant (c : Constant)
  | plain (span : Span) (context : String)

end

instance : Inhabited Builtin := ⟨.print⟩

instance : Inhabited Blueprint := ⟨.constant .null⟩

namespace Builtin

def name : Builtin → String
  | .print => "print"
  | .get => "get"
  | .append => "append"
  | .setBackgroundColor => "setBackgroundColor"
  | .block => "block"
  | .pyramid => "pyramid"
  | .host name _ _ | .foreign name _ _ => name

/-- The names to which the arguments of a call are bound. -/
def params : Builtin → List String
  | .print => ["value"]
  | .get => ["list", "index"]
  | .append => ["list", "value"]
  | .setBackgroundColor => ["color"]
  | .block => ["listWidthHeightDepth", "listXYZ", "color"]
  | .pyramid => ["listRadiusHeightRadialSegments", "listXYZ", "color"]
  | .host _ params _ | .foreign _ params _ => params

/-- The builtins of every program. -/
def core : List Builtin := [.print, .get, .append]

/-- The builtins of programs with a scene. -/
def scene : List Builtin := [.setBackgroundColor, .block, .pyramid]

/-- The text of the function as a value. -/
def display (b : Builtin) : String := "[function " ++ b.name ++ "]"

end Builtin

end SceneScript
