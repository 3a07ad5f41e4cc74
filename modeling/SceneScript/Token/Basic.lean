import SceneScript.Json.Describe
import SceneScript.Source.Place

/-!
Tokens: the words of a program, each with its kind, its text where the kind alone does not
determine it, and its place. In a tree file anything may stand for the text.
-/

namespace SceneScript

inductive TokenKind where
  | number
  | string
  | identifier
  | keyword
  | plus
  | minus
  | star
  | slash
  | bang
  | equal
  | comma
  | lessThan
  | greaterThan
  | power
  | semicolon
  | equalEqual
  | notEqual
  | lessThanEqual
  | greaterThanEqual
  | leftParen
  | rightParen
  | leftSquare
  | rightSquare
  | endOfInput
deriving DecidableEq, Inhabited

namespace TokenKind

/-- The name of a kind in tree files and in descriptions. -/
def label : TokenKind → String
  | .number => "NUMBER"
  | .string => "STRING"
  | .identifier => "IDENTIFIER"
  | .keyword => "KEYWORD"
  | .plus => "PLUS"
  | .minus => "MINUS"
  | .star => "STAR"
  | .slash => "SLASH"
  | .bang => "BANG"
  | .equal => "EQUAL"
  | .comma => "COMMA"
  | .lessThan => "LESS_THAN"
  | .greaterThan => "GREATER_THAN"
  | .power => "POWER"
  | .semicolon => "SEMICOLON"
  | .equalEqual => "EQUAL_EQUAL"
  | .notEqual => "NOT_EQUAL"
  | .lessThanEqual => "LESS_THAN_EQUAL"
  | .greaterThanEqual => "GREATER_THAN_EQUAL"
  | .leftParen => "LPAREN"
  | .rightParen => "RPAREN"
  | .leftSquare => "LSQUARE"
  | .rightSquare => "RSQUARE"
  | .endOfInput => "EOF"

def all : List TokenKind :=
  [.number, .string, .identifier, .keyword, .plus, .minus, .star, .slash, .bang, .equal, .comma,
    .lessThan, .greaterThan, .power, .semicolon, .equalEqual, .notEqual, .lessThanEqual,
    .greaterThanEqual, .leftParen, .rightParen, .leftSquare, .rightSquare, .endOfInput]

def ofLabel? (s : String) : Option TokenKind := all.find? (·.label == s)

/-- The operators of one character. -/
def ofChar? (c : Char) : Option TokenKind :=
  match c with
  | '+' => some .plus
  | '-' => some .minus
  | '*' => some .star
  | '/' => some .slash
  | '!' => some .bang
  | '=' => some .equal
  | ',' => some .comma
  | '<' => some .lessThan
  | '>' => some .greaterThan
  | '^' => some .power
  | ';' => some .semicolon
  | '(' => some .leftParen
  | ')' => some .rightParen
  | '[' => some .leftSquare
  | ']' => some .rightSquare
  | _ => none

/-- The operators of two characters. -/
def ofPair? (c d : Char) : Option TokenKind :=
  match c, d with
  | '=', '=' => some .equalEqual
  | '!', '=' => some .notEqual
  | '<', '=' => some .lessThanEqual
  | '>', '=' => some .greaterThanEqual
  | _, _ => none

end TokenKind

structure Token where
  kind : TokenKind
  /-- The text or null. -/
  value : Json
  span : Span
deriving DecidableEq, Inhabited

namespace Token

/-- A token that takes up one character. -/
def single (kind : TokenKind) (value : Json) (start : Place) : Token :=
  ⟨kind, value, ⟨start, start.past⟩⟩

/-- Tokens are alike when they differ in their places only. -/
def alike (a b : Token) : Bool := a.kind == b.kind && a.value.same b.value

/-- Whether the token is of the given kind and, unless it is null, has the given value. -/
def matchesKind (t : Token) (kind : TokenKind) (value : Json) : Bool :=
  t.kind == kind && (value == .null || t.value.same value)

def describe (t : Token) : String :=
  match t.value with
  | .null => "Token(" ++ t.kind.label ++ ")"
  | value => "Token(" ++ t.kind.label ++ ", " ++ value.describe ++ ")"

end Token

/-- The words that are no names. -/
def keywords : List String := ["let", "and", "or"]

end SceneScript
