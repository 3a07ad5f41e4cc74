import Mathlib.Computability.RegularExpressions
import SceneScript.Proofs.Parse.Terminal

/-!
Grammars whose productions are regular expressions over words and phrases, and the trees that such
a grammar derives. Two of them describe the language; they differ in how powers are written.
-/

namespace SceneScript

open Grammar (Terminal)

namespace Ebnf

inductive Category where
  | statements
  | expr
  | logic
  | comparison
  | arithmetic
  | term
  | factor
  | power
  | call
  | atom
  | list
deriving DecidableEq

namespace Category

def all : List Category :=
  [.statements, .expr, .logic, .comparison, .arithmetic, .term, .factor, .power, .call, .atom,
    .list]

theorem mem_all (c : Category) : c ∈ all := by cases c <;> decide

end Category

inductive Symbol where
  | word (t : Terminal)
  | phrase (c : Category)
deriving DecidableEq

abbrev Productions := Category → RegularExpression Symbol

def word (t : Terminal) : RegularExpression Symbol := .char (.word t)

def phrase (c : Category) : RegularExpression Symbol := .char (.phrase c)

def oneOf : List Terminal → RegularExpression Symbol
  | [] => 0
  | t :: ts => word t + oneOf ts

/-- Phrases with one of the words between each two. -/
def chain (c : Category) (ops : List Terminal) : RegularExpression Symbol :=
  phrase c * (oneOf ops * phrase c).star

def items : RegularExpression Symbol := 1 + chain .expr [.comma]

/-- The productions of the language, given those of powers. -/
def productions (power : RegularExpression Symbol) : Productions
  | .statements => (phrase .expr * word .semicolon + word .semicolon).star
  | .expr => word .letWord * word .identifier * word .equal * phrase .expr + phrase .logic
  | .logic => chain .comparison [.andWord, .orWord]
  | .comparison =>
    word .bang * phrase .comparison +
      chain .arithmetic
        [.equalEqual, .notEqual, .lessThan, .lessThanEqual, .greaterThan, .greaterThanEqual]
  | .arithmetic => chain .term [.plus, .minus]
  | .term => chain .factor [.star, .slash]
  | .factor => oneOf [.plus, .minus] * phrase .factor + phrase .power
  | .power => power
  | .call => phrase .atom * (1 + word .leftParen * items * word .rightParen)
  | .atom =>
    oneOf [.number, .string, .identifier] + word .leftParen * phrase .expr * word .rightParen +
      phrase .list
  | .list => word .leftSquare * items * word .rightSquare

/-- The documented grammar: any number of exponents. -/
def documented : Productions := productions (phrase .call * (word .power * phrase .factor).star)

/-- The grammar with one exponent at most. -/
def refined : Productions := productions (phrase .call * (1 + word .power * phrase .factor))

inductive Tree where
  | leaf (token : Token)
  | node (category : Category) (parts : List Tree)

namespace Tree

def symbol : Tree → Symbol
  | .leaf t => .word t.terminal
  | .node c _ => .phrase c

mutual

def tokens : Tree → List Token
  | .leaf t => [t]
  | .node _ parts => allTokens parts

def allTokens : List Tree → List Token
  | [] => []
  | d :: ds => tokens d ++ allTokens ds

end

/-- The grammar derives the tree: the parts of every node make up its category. -/
inductive Valid (g : Productions) : Tree → Prop
  | leaf (t : Token) : Valid g (.leaf t)
  | node {c : Category} {parts : List Tree} (fits : parts.map symbol ∈ (g c).matches')
      (valid : ∀ d ∈ parts, Valid g d) : Valid g (.node c parts)

@[simp]
theorem allTokens_append (ds es : List Tree) :
    allTokens (ds ++ es) = allTokens ds ++ allTokens es := by
  induction ds with
  | nil => rfl
  | cons d ds ih => simp only [List.cons_append, allTokens, ih, List.append_assoc]

end Tree

def Derives (g : Productions) (c : Category) (ts : List Token) : Prop :=
  ∃ d : Tree, d.Valid g ∧ d.symbol = .phrase c ∧ d.tokens = ts

/-- No two trees derive the same tokens from the same category. -/
def Unambiguous (g : Productions) : Prop :=
  ∀ d e : Tree, d.Valid g → e.Valid g → d.symbol = e.symbol → d.tokens = e.tokens → d = e

inductive Piece where
  | token (t : Token)
  | node (n : Node)
  | nodes (ns : List Node)

namespace Piece

def gather : List Piece → List Node
  | [] => []
  | .node n :: rest => n :: gather rest
  | _ :: rest => gather rest

theorem gather_append (ps qs : List Piece) : gather (ps ++ qs) = gather ps ++ gather qs := by
  induction ps with
  | nil => rfl
  | cons p ps ih => cases p <;> simp [gather, ih]

/-- Operations on `left`, grouped to the left. -/
def chain? (left : Node) : List Piece → Option Node
  | [] => some left
  | .token op :: .node right :: rest => chain? (.combine left op right) rest
  | _ => none

def closed? (pieces : List Piece) : Option (List Node × Token) :=
  match pieces.getLast? with
  | some (.token closer) => some (gather pieces, closer)
  | _ => none

/-- The meaning of a phrase from those of its parts; the parts of a valid tree always have one. -/
def build? (c : Category) (parts : List Piece) : Option Piece :=
  match c, parts with
  | .statements, parts => some (.nodes (gather parts))
  | .expr, [.token _, .token name, .token _, .node value] => some (.node (.bind name value))
  | .expr, [.node n] => some (.node n)
  | .comparison, [.token op, .node operand] => some (.node (.apply op operand))
  | .factor, [.token op, .node operand] => some (.node (.apply op operand))
  | .factor, [.node n] => some (.node n)
  | .logic, .node first :: rest | .comparison, .node first :: rest
  | .arithmetic, .node first :: rest | .term, .node first :: rest | .power, .node first :: rest =>
    (chain? first rest).map .node
  | .call, [.node n] => some (.node n)
  | .call, .node callee :: .token _ :: rest =>
    (closed? rest).map fun (args, closer) => .node (.invoke callee args closer)
  | .atom, [.token t] =>
    match t.kind with
    | .number => some (.node (.ofNumber t))
    | .string => some (.node (.ofString t))
    | .identifier => some (.node (.ofIdentifier t))
    | _ => none
  | .atom, [.token _, .node inner, .token _] => some (.node inner)
  | .atom, [.node n] => some (.node n)
  | .list, .token opener :: rest =>
    (closed? rest).map fun (elements, closer) => .node (.enumerate opener elements closer)
  | _, _ => none

end Piece

namespace Tree

mutual

def piece? : Tree → Option Piece
  | .leaf t => some (.token t)
  | .node c parts => (pieces? parts).bind (Piece.build? c)

def pieces? : List Tree → Option (List Piece)
  | [] => some []
  | d :: ds => (piece? d).bind fun p => (pieces? ds).map (p :: ·)

end

def program? (origin : Origin) (d : Tree) : Option Program :=
  match d.piece? with
  | some (.nodes body) => some (.ofBody origin body)
  | _ => none

end Tree

end Ebnf

end SceneScript
