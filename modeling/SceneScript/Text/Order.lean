import SceneScript.Text.Blank

/-!
Texts between two characters in the order of texts, and the classes of characters carried over to
texts by it: a text of one character is in a class exactly if that character is.
-/

namespace SceneScript.Text

/-- Whether a text lies between two texts of one character. -/
def liesBetween (low high : Char) : List Char → Bool
  | [] => false
  | c :: rest => low ≤ c && (c < high || (c = high && rest.isEmpty))

theorem liesBetween_single (low high c : Char) :
    liesBetween low high [c] = (decide (low ≤ c) && decide (c ≤ high)) := by
  have upper : c ≤ high ↔ c < high ∨ c = high := by
    rw [Char.le_def, Char.lt_def, Char.ext_iff, UInt32.le_iff_toNat_le, UInt32.lt_iff_toNat_lt,
      ← UInt32.toNat_inj]
    exact Nat.le_iff_lt_or_eq
  simp [liesBetween, upper]

namespace Order

def isDigit (cs : List Char) : Bool := liesBetween '0' '9' cs

def isLetter (cs : List Char) : Bool := liesBetween 'a' 'z' cs || liesBetween 'A' 'Z' cs

def startsName (cs : List Char) : Bool := isLetter cs || cs == ['_']

def continuesName (cs : List Char) : Bool := isLetter cs || isDigit cs || cs == ['_']

theorem isDigit_single (c : Char) : isDigit [c] = Text.isDigit c := liesBetween_single '0' '9' c

theorem isLetter_single (c : Char) : isLetter [c] = Text.isLetter c := by
  simp only [isLetter, liesBetween_single, Text.isLetter]

theorem startsName_single (c : Char) : startsName [c] = Text.startsName c := by
  simp [startsName, isLetter_single, Text.startsName]

theorem continuesName_single (c : Char) : continuesName [c] = Text.continuesName c := by
  simp [continuesName, isLetter_single, isDigit_single, Text.continuesName]

end Order

end SceneScript.Text
