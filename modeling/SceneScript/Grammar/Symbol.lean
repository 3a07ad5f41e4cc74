import SceneScript.Token.Basic

/-!
The symbols of the grammar. A terminal is a kind of token, except that each keyword is one of its
own; the end of the text is a terminal too.
-/

namespace SceneScript.Grammar

inductive Terminal where
  | endOfText
  | andWord
  | bang
  | comma
  | equal
  | equalEqual
  | greaterThan
  | greaterThanEqual
  | identifier
  | lessThan
  | lessThanEqual
  | letWord
  | leftParen
  | leftSquare
  | minus
  | notEqual
  | number
  | orWord
  | plus
  | power
  | rightParen
  | rightSquare
  | semicolon
  | slash
  | star
  | string
deriving DecidableEq, Inhabited

namespace Terminal

/-- The name of a terminal in messages. -/
def label : Terminal → String
  | .endOfText => "$END"
  | .andWord => "AND"
  | .bang => "BANG"
  | .comma => "COMMA"
  | .equal => "EQUAL"
  | .equalEqual => "EQUAL_EQUAL"
  | .greaterThan => "GREATER_THAN"
  | .greaterThanEqual => "GREATER_THAN_EQUAL"
  | .identifier => "IDENTIFIER"
  | .lessThan => "LESS_THAN"
  | .lessThanEqual => "LESS_THAN_EQUAL"
  | .letWord => "LET"
  | .leftParen => "LPAREN"
  | .leftSquare => "LSQUARE"
  | .minus => "MINUS"
  | .notEqual => "NOT_EQUAL"
  | .number => "NUMBER"
  | .orWord => "OR"
  | .plus => "PLUS"
  | .power => "POWER"
  | .rightParen => "RPAREN"
  | .rightSquare => "RSQUARE"
  | .semicolon => "SEMICOLON"
  | .slash => "SLASH"
  | .star => "STAR"
  | .string => "STRING"

/-- All terminals in the order of their names, which is the order of messages. -/
def all : List Terminal :=
  [.endOfText, .andWord, .bang, .comma, .equal, .equalEqual, .greaterThan, .greaterThanEqual,
    .identifier, .lessThan, .lessThanEqual, .letWord, .leftParen, .leftSquare, .minus, .notEqual,
    .number, .orWord, .plus, .power, .rightParen, .rightSquare, .semicolon, .slash, .star, .string]

/-- The kind of token that a terminal stands for. -/
def kind : Terminal → TokenKind
  | .endOfText => .endOfInput
  | .andWord | .letWord | .orWord => .keyword
  | .bang => .bang
  | .comma => .comma
  | .equal => .equal
  | .equalEqual => .equalEqual
  | .greaterThan => .greaterThan
  | .greaterThanEqual => .greaterThanEqual
  | .identifier => .identifier
  | .lessThan => .lessThan
  | .lessThanEqual => .lessThanEqual
  | .leftParen => .leftParen
  | .leftSquare => .leftSquare
  | .minus => .minus
  | .notEqual => .notEqual
  | .number => .number
  | .plus => .plus
  | .power => .power
  | .rightParen => .rightParen
  | .rightSquare => .rightSquare
  | .semicolon => .semicolon
  | .slash => .slash
  | .star => .star
  | .string => .string

end Terminal

inductive Nonterminal where
  | root
  | start
  | statements
  | expr
  | assign
  | logic
  | logicTail
  | comparison
  | negation
  | relation
  | relationTail
  | sum
  | sumTail
  | product
  | productTail
  | factor
  | sign
  | power
  | call
  | invocation
  | atom
  | group
  | list
  | items
deriving DecidableEq, Inhabited

namespace Nonterminal

def all : List Nonterminal :=
  [.root, .start, .statements, .expr, .assign, .logic, .logicTail, .comparison, .negation,
    .relation, .relationTail, .sum, .sumTail, .product, .productTail, .factor, .sign, .power,
    .call, .invocation, .atom, .group, .list, .items]

end Nonterminal

inductive Symbol where
  | terminal (t : Terminal)
  | nonterminal (n : Nonterminal)
deriving DecidableEq

def Symbol.all : List Symbol :=
  Terminal.all.map .terminal ++ Nonterminal.all.map .nonterminal

end SceneScript.Grammar
