import SceneScript.Grammar.Symbol
import SceneScript.Source.Lines
import SceneScript.Text.Blank
import SceneScript.Token.Literal

/-!
Lexemes by patterns. At every index the patterns are tried in order, and the first that matches
takes its characters; blanks and comments are dropped. A name that is a keyword as a whole is that
keyword. Places are indices, from which positions are looked up.
-/

namespace SceneScript.Grammar

inductive Pattern where
  | name
  | numeral
  | quoted (quote : Char)
  | comment
  | blanks
  | literal (terminal : Terminal) (text : List Char)
deriving DecidableEq

namespace Pattern

/-- The length of a string's body up to and with its closing quote. -/
def quotedLength? (quote : Char) : List Char → Option Nat
  | [] => none
  | '\\' :: _ :: cs => (quotedLength? quote cs).map (· + 2)
  | ['\\'] => none
  | c :: cs => if c = quote then some 1 else (quotedLength? quote cs).map (· + 1)

def countWhile (p : Char → Bool) (cs : List Char) : Nat := (cs.takeWhile p).length

/-- How many characters the pattern takes behind its first one, if it matches here. -/
def extent? (pattern : Pattern) (c : Char) (cs : List Char) : Option Nat :=
  match pattern with
  | .name => if Text.startsName c then some (countWhile Text.continuesName cs) else none
  | .numeral =>
    if Text.isDigit c then
      let whole := countWhile Text.isDigit cs
      match cs.drop whole with
      | '.' :: part => some (whole + 1 + countWhile Text.isDigit part)
      | _ => some whole
    else if c = '.' then some (countWhile Text.isDigit cs)
    else none
  | .quoted quote => if c = quote then quotedLength? quote cs else none
  | .comment => if c = '#' then some (countWhile (· != '\n') cs) else none
  | .blanks => if Text.isBlank c then some (countWhile Text.isBlank cs) else none
  | .literal _ text => if text.isPrefixOf (c :: cs) then some (text.length - 1) else none

/-- All patterns; longer literals come before shorter ones. -/
def all : List Pattern :=
  [.name, .numeral, .quoted '"', .quoted Text.apostrophe, .comment, .blanks,
    .literal .equalEqual ['=', '='], .literal .notEqual ['!', '='],
    .literal .lessThanEqual ['<', '='], .literal .greaterThanEqual ['>', '='],
    .literal .lessThan ['<'], .literal .greaterThan ['>'], .literal .equal ['='],
    .literal .bang ['!'], .literal .plus ['+'], .literal .minus ['-'], .literal .star ['*'],
    .literal .slash ['/'], .literal .power ['^'], .literal .comma [','],
    .literal .semicolon [';'], .literal .leftParen ['('], .literal .rightParen [')'],
    .literal .leftSquare ['['], .literal .rightSquare [']']]

/-- The terminal of a name: a keyword if the whole of it is one. -/
def nameTerminal (text : List Char) : Terminal :=
  if text = ['l', 'e', 't'] then .letWord
  else if text = ['a', 'n', 'd'] then .andWord
  else if text = ['o', 'r'] then .orWord
  else .identifier

/-- The terminal of what the pattern took; none for what is dropped. -/
def terminal? (pattern : Pattern) (text : List Char) : Option Terminal :=
  match pattern with
  | .name => some (nameTerminal text)
  | .numeral => some .number
  | .quoted _ => some .string
  | .comment | .blanks => none
  | .literal terminal _ => some terminal

end Pattern

/-- A terminal with its characters and the indices they take up. -/
structure Lexeme where
  terminal : Terminal
  text : List Char
  start : Nat
  stop : Nat
deriving DecidableEq, Inhabited

namespace Lexeme

/-- What the characters of a lexeme denote, where that varies. -/
def value (l : Lexeme) : Json :=
  match l.terminal with
  | .letWord | .andWord | .orWord | .identifier => .string (String.ofList l.text)
  | .number => .string (String.ofList (Literal.completeNumeral l.text))
  | .string => .string (String.ofList (Literal.unescape (l.text.drop 1).dropLast))
  | _ => .null

def toToken (lines : LineIndex) (l : Lexeme) : Token :=
  ⟨l.terminal.kind, l.value, ⟨lines.position l.start, lines.position l.stop⟩⟩

end Lexeme

/-- The lexemes of a text up to its end, or up to the index where no pattern matches, with the
    character that stands there. -/
structure LexemeStream where
  lexemes : List Lexeme
  fault : Option (Nat × Char)
deriving DecidableEq

namespace LexemeStream

/-- The first pattern that matches here, and how far it reaches behind `c`. -/
def match? (c : Char) (cs : List Char) : Option (Pattern × Nat) :=
  Pattern.all.findSome? fun pattern => (pattern.extent? c cs).map fun extent => (pattern, extent)

/-- The lexemes of `cs`, which starts at `index`. -/
def ofCharsAt (index : Nat) : List Char → LexemeStream
  | [] => ⟨[], none⟩
  | c :: cs =>
    match match? c cs with
    | none => ⟨[], some (index, c)⟩
    | some (pattern, extent) =>
      have : (cs.drop extent).length < (c :: cs).length := by
        simp only [List.length_drop, List.length_cons]
        omega
      let stop := index + extent + 1
      let following := ofCharsAt stop (cs.drop extent)
      let text := c :: cs.take extent
      match pattern.terminal? text with
      | some terminal => ⟨⟨terminal, text, index, stop⟩ :: following.lexemes, following.fault⟩
      | none => following
termination_by cs => cs.length

def ofOrigin (origin : Origin) : LexemeStream := ofCharsAt 0 origin.text.toList

end LexemeStream

end SceneScript.Grammar
