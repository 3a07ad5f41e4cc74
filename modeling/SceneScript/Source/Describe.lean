import SceneScript.Json.Describe
import SceneScript.Source.Place

/-!
Places as the log shows them.
-/

namespace SceneScript

def Place.describe (p : Place) : String :=
  "Position(" ++ p.file.describe ++ ", " ++ p.line.display ++ ":" ++ p.column.display ++ ")"

end SceneScript
