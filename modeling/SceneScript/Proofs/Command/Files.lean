import SceneScript.Command.Files

/-!
Files that are written next to others: there is a place for them wherever there is one for those,
and they are found again with the text that was written.
-/

namespace SceneScript.Command

namespace Files

variable {fs fs' : Files} {here front : List String} {name : String} {p place : Path}
  {text : String}

end Files

namespace Files

variable {fs : Files} {p place : Path} {text : String}

end Files

end SceneScript.Command
