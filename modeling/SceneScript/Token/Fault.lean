import SceneScript.Source.Place
import SceneScript.Text.Quoted

/-!
What can be wrong with the characters of a program.
-/

namespace SceneScript

inductive LexicalCause where
  /-- No token starts with this character. -/
  | illegalCharacter (c : Char)
  /-- The text ends before the string does. -/
  | unclosedString (quote : Char)
deriving DecidableEq

structure LexicalFault where
  cause : LexicalCause
  span : Span
deriving DecidableEq

def LexicalCause.details : LexicalCause → String
  | .illegalCharacter c => String.ofList [Text.apostrophe, c, Text.apostrophe]
  | .unclosedString quote => "Expected closing " ++ quote.toString

end SceneScript
