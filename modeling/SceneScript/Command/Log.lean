import SceneScript.Source.Describe
import SceneScript.Value.Store

/-!
The log. Events of a program's work are lines of it: the course of the run and of the scene from
verbosity one on, everything from two on.
-/

namespace SceneScript.Command

def tripleText (t : Triple) : String :=
  let part (x : Float) : String := (Binary64.ofFloat x).decimalText "nan" "inf"
  "(" ++ ", ".intercalate (t.toList.map part) ++ ")"

def objectText (o : SceneObject) : String :=
  "SceneObject(kind=" ++ Text.quoted o.shape.label ++ ", dimensions=" ++ tripleText o.dimensions ++
    ", position=" ++ tripleText o.position ++ ", color=" ++ Text.quoted o.color ++ ")"

/-- The verbosity from which on an event is logged. -/
def verbosityOf : Event → Nat
  | .running .. | .accepted _ => 1
  | .parsed .. | .visited .. | .called .. => 2

/-- The part of the program that an event comes from, and what is said about it. -/
def describeEvent : Event → String × String
  | .parsed count file => ("parser", "parsed " ++ toString count ++ " statement(s) from " ++ file)
  | .running file count =>
    ("interpreter", "running " ++ file.display ++ " (" ++ toString count ++ " statement(s))")
  | .visited kind place => ("interpreter", "visit " ++ kind ++ " at " ++ place.describe)
  | .called b _ =>
    ("values", "calling " ++ b.name ++ " with " ++ toString b.params.length ++ " argument(s)")
  | .accepted (.background color) => ("std.scene", "background set to " ++ color)
  | .accepted (.place object) => ("std.scene", "added " ++ objectText object)

def eventLine (e : Event) : String :=
  let (part, message) := describeEvent e
  let level := if verbosityOf e = 1 then "INFO" else "DEBUG"
  level ++ " blocklang." ++ part ++ ": " ++ message ++ "\n"

/-- The log of events, the first of which comes first. -/
def logText (verbosity : Nat) (events : List Event) : String :=
  String.join ((events.filter fun e => verbosityOf e ≤ verbosity).map eventLine)

end SceneScript.Command
