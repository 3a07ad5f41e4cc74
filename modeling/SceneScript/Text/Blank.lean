/-!
Character classes of the language: blanks are the Unicode white space characters together with
the four information separators; letters and digits are the ASCII ones.
-/

namespace SceneScript.Text

/-- White space, which separates tokens and means nothing else. -/
def isBlank (c : Char) : Bool :=
  let n := c.toNat
  (0x09 ≤ n && n ≤ 0x0D) || (0x1C ≤ n && n ≤ 0x20) || n == 0x85 || n == 0xA0 || n == 0x1680 ||
    (0x2000 ≤ n && n ≤ 0x200A) || n == 0x2028 || n == 0x2029 || n == 0x202F || n == 0x205F ||
    n == 0x3000

def isDigit (c : Char) : Bool := '0' ≤ c && c ≤ '9'

def isLetter (c : Char) : Bool := ('a' ≤ c && c ≤ 'z') || ('A' ≤ c && c ≤ 'Z')

/-- A character with which a name may start. -/
def startsName (c : Char) : Bool := isLetter c || c == '_'

/-- A character with which a name may go on. -/
def continuesName (c : Char) : Bool := isLetter c || isDigit c || c == '_'

theorem isBlank_of_isWhitespace (c : Char) (h : c.isWhitespace = true) : isBlank c = true := by
  simp only [Char.isWhitespace, Bool.or_eq_true, decide_eq_true_eq] at h
  rcases h with ((rfl | rfl) | rfl) | rfl <;> decide

end SceneScript.Text
