/-!
What literals denote: numerals get a digit on both sides of their point, and a backslash in a
string stands for a tab or a newline, or for the character after it.
-/

namespace SceneScript.Literal

/-- Completes a numeral that starts or ends with its point. -/
def completeNumeral (cs : List Char) : List Char :=
  let cs := if cs.head? = some '.' then '0' :: cs else cs
  if cs.getLast? = some '.' then cs ++ ['0'] else cs

/-- The character that a backslash and `c` stand for. -/
def escaped (c : Char) : Char :=
  if c = 't' then '\t' else if c = 'n' then '\n' else c

/-- Resolves the backslashes of a string's body; one at its very end is dropped. -/
def unescape : List Char → List Char
  | [] => []
  | '\\' :: c :: cs => escaped c :: unescape cs
  | ['\\'] => []
  | c :: cs => c :: unescape cs

end SceneScript.Literal
