import SceneScript.Grammar.Lexeme
import SceneScript.Grammar.Rule
import SceneScript.Node.Basic

/-!
Derivations, and the programs they stand for.
-/

namespace SceneScript.Grammar

inductive Derivation where
  | leaf (lexeme : Lexeme)
  | branch (rule : Rule) (parts : List Derivation)
deriving Inhabited

/-- What a derivation stands for. -/
inductive Piece where
  | lexeme (l : Lexeme)
  | node (n : Node)
  | nodes (ns : List Node)
  /-- Operators with their right operands. -/
  | tail (links : List (Token × Node))

namespace Piece

/-- The expressions among the pieces, in order. -/
def gather : List Piece → List Node
  | [] => []
  | .node n :: rest => n :: gather rest
  | .nodes ns :: rest => ns ++ gather rest
  | _ :: rest => gather rest

/-- Groups a chain of operators to the left. -/
def chain (first : Node) (links : List (Token × Node)) : Node :=
  links.foldl (fun left (op, right) => .combine left op right) first

/-- The meaning of a derivation from those of its parts, given as positions are looked up in
    `lines`. The parts of a rule always fit its meaning. -/
def build? (lines : LineIndex) (meaning : Meaning) (parts : List Piece) : Option Piece :=
  match meaning, parts with
  | .same, [part] => some part
  | .gather, parts => some (.nodes (gather parts))
  | .tail, [.lexeme op, .node right] => some (.tail [(op.toToken lines, right)])
  | .tail, [.tail links, .lexeme op, .node right] =>
    some (.tail (links ++ [(op.toToken lines, right)]))
  | .chain, [.node first, .tail links] => some (.node (chain first links))
  | .chain, [.node left, .lexeme op, .node right] =>
    some (.node (.combine left (op.toToken lines) right))
  | .assignment, [_, .lexeme name, _, .node value] =>
    some (.node (.bind (name.toToken lines) value))
  | .application, [.lexeme op, .node operand] => some (.node (.apply (op.toToken lines) operand))
  | .invocation, .node callee :: rest =>
    match rest.getLast? with
    | some (.lexeme closer) =>
      some (.node (.invoke callee (gather rest) (closer.toToken lines)))
    | _ => none
  | .enumeration, .lexeme opener :: rest =>
    match rest.getLast? with
    | some (.lexeme closer) =>
      some (.node (.enumerate (opener.toToken lines) (gather rest) (closer.toToken lines)))
    | _ => none
  | .parenthesised, [_, .node inner, _] => some (.node inner)
  | .number, [.lexeme l] => some (.node (.ofNumber (l.toToken lines)))
  | .string, [.lexeme l] => some (.node (.ofString (l.toToken lines)))
  | .identifier, [.lexeme l] => some (.node (.ofIdentifier (l.toToken lines)))
  | _, _ => none

end Piece

namespace Derivation

/-- The symbol that is derived. -/
def symbol : Derivation → Symbol
  | .leaf l => .terminal l.terminal
  | .branch rule _ => .nonterminal rule.head

mutual

/-- The lexemes from left to right. -/
def lexemes : Derivation → List Lexeme
  | .leaf l => [l]
  | .branch _ parts => allLexemes parts

def allLexemes : List Derivation → List Lexeme
  | [] => []
  | d :: ds => lexemes d ++ allLexemes ds

end

mutual

def piece? (lines : LineIndex) : Derivation → Option Piece
  | .leaf l => some (.lexeme l)
  | .branch rule parts => (pieces? lines parts).bind (Piece.build? lines rule.meaning)

def pieces? (lines : LineIndex) : List Derivation → Option (List Piece)
  | [] => some []
  | d :: ds => (piece? lines d).bind fun p => (pieces? lines ds).map (p :: ·)

end

/-- The program that a derivation of a whole text stands for. -/
def program? (lines : LineIndex) (d : Derivation) : Option Program :=
  match d.piece? lines with
  | some (.nodes body) => some (.ofBody lines.origin body)
  | _ => none

end Derivation

end SceneScript.Grammar
