import SceneScript.Number.Text
import SceneScript.Text.Blank
import SceneScript.Text.Quoted

/-!
Scenes: a background and the objects placed in front of it, in the order in which they were placed.
A host decides on every request of a program; the recording host accepts what has a valid color.
-/

namespace SceneScript

structure Triple where
  x : Float
  y : Float
  z : Float

inductive Shape where
  | block
  | pyramid
deriving DecidableEq

def Shape.label : Shape → String
  | .block => "block"
  | .pyramid => "pyramid"

structure SceneObject where
  shape : Shape
  dimensions : Triple
  position : Triple
  color : String

structure Scene where
  background : Option String
  objects : List SceneObject

/-- What can be done to a scene. -/
inductive SceneKind where
  | background
  | object (shape : Shape)
deriving DecidableEq

/-- What a program wants with a request of a kind. -/
def SceneKind.purpose : SceneKind → String
  | .background => "set background color"
  | .object shape => "create " ++ shape.label

inductive SceneRequest where
  | background (color : String)
  | place (object : SceneObject)

namespace SceneRequest

def kind : SceneRequest → SceneKind
  | .background _ => .background
  | .place object => .object object.shape

def color : SceneRequest → String
  | .background color => color
  | .place object => object.color

end SceneRequest

namespace Scene

def empty : Scene := ⟨none, []⟩

/-- The scene after a request was accepted. -/
def accept (scene : Scene) : SceneRequest → Scene
  | .background color => { scene with background := some color }
  | .place object => { scene with objects := scene.objects ++ [object] }

end Scene

/-- A host. It refuses requests with messages. -/
structure SceneHost where
  /-- The message for all requests of a kind, which it does not look at. -/
  closed : SceneKind → Option String
  /-- The message for a request, given the scene so far. -/
  refuse : Scene → SceneRequest → Option String

namespace Color

def isHexDigit (c : Char) : Bool :=
  Text.isDigit c || ('a' ≤ c && c ≤ 'f') || ('A' ≤ c && c ≤ 'F')

/-- `#` and three or six hexadecimal digits, or a word of letters. -/
def isPlain (cs : List Char) : Bool :=
  match cs with
  | '#' :: digits => (digits.length == 3 || digits.length == 6) && digits.all isHexDigit
  | _ => !cs.isEmpty && cs.all Text.isLetter

/-- A color; a newline behind it does no harm. -/
def isColor (color : String) : Bool :=
  let cs := color.toList
  isPlain cs || (cs.getLast? == some '\n' && isPlain cs.dropLast)

end Color

namespace SceneHost

/-- Messages with which requests of a kind are refused without a look at them. -/
structure Refusals where
  background : Option String
  block : Option String
  pyramid : Option String

def Refusals.none : Refusals := ⟨.none, .none, .none⟩

def Refusals.of (r : Refusals) : SceneKind → Option String
  | .background => r.background
  | .object .block => r.block
  | .object .pyramid => r.pyramid

/-- A host that records scenes. -/
def recording (refusals : Refusals) : SceneHost where
  closed := refusals.of
  refuse _ request :=
    if Color.isColor request.color then none
    else some ("invalid color " ++ Text.quoted request.color)

end SceneHost

namespace Triple

def toList (t : Triple) : List Float := [t.x, t.y, t.z]

end Triple

end SceneScript
