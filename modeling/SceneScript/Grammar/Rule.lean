import SceneScript.Grammar.Symbol

/-!
The rules of the grammar, and what the derivations by them mean. A chain of operators is one
derivation with a tail; the arguments of a call and the elements of a list share their tail.
-/

namespace SceneScript.Grammar

/-- How the meaning of a derivation comes from those of its parts. -/
inductive Meaning where
  /-- The only part. -/
  | same
  /-- The expressions among the parts, in order. -/
  | gather
  /-- Pairs of an operator and its right operand, in order. -/
  | tail
  /-- An operand and a tail, grouped to the left. -/
  | chain
  | assignment
  | application
  | invocation
  | enumeration
  /-- The expression between brackets. -/
  | parenthesised
  | number
  | string
  | identifier
deriving DecidableEq, Inhabited

structure Rule where
  head : Nonterminal
  body : List Symbol
  meaning : Meaning
deriving DecidableEq, Inhabited

/-- `t` and a symbol after it. -/
def after (t : Terminal) (n : Nonterminal) : List Symbol := [.terminal t, .nonterminal n]

/-- A tail of operators `ops`, each with an operand `operand`. -/
def tailRules (tail operand : Nonterminal) (ops : List Terminal) : List Rule :=
  ops.map (fun op => ⟨tail, after op operand, .tail⟩) ++
    ops.map (fun op => ⟨tail, .nonterminal tail :: after op operand, .tail⟩)

/-- A level of operators: an operand with a tail, or an operand alone. -/
def chainRules (level tail operand : Nonterminal) (ops : List Terminal) : List Rule :=
  [⟨level, [.nonterminal operand, .nonterminal tail], .chain⟩,
    ⟨level, [.nonterminal operand], .same⟩] ++ tailRules tail operand ops

/-- A symbol that is one of several others. -/
def choiceRules (head : Nonterminal) (choices : List Nonterminal) : List Rule :=
  choices.map fun n => ⟨head, [.nonterminal n], .same⟩

/-- `opener`, any number of expressions with commas between them, `closer`; with `front`
    before all. -/
def bracketRules (head : Nonterminal) (meaning : Meaning) (front : List Symbol)
    (opener closer : Terminal) : List Rule :=
  [⟨head, front ++ [.terminal opener, .nonterminal .expr, .nonterminal .items,
      .terminal closer], meaning⟩,
    ⟨head, front ++ [.terminal opener, .nonterminal .expr, .terminal closer], meaning⟩,
    ⟨head, front ++ [.terminal opener, .terminal closer], meaning⟩]

def rules : List Rule :=
  [⟨.root, [.nonterminal .start, .terminal .endOfText], .gather⟩,
    ⟨.start, [.nonterminal .statements], .gather⟩,
    ⟨.start, [], .gather⟩,
    ⟨.statements, [.nonterminal .expr, .terminal .semicolon], .gather⟩,
    ⟨.statements, [.terminal .semicolon], .gather⟩,
    ⟨.statements, [.nonterminal .statements, .nonterminal .expr, .terminal .semicolon], .gather⟩,
    ⟨.statements, [.nonterminal .statements, .terminal .semicolon], .gather⟩] ++
  choiceRules .expr [.assign, .logic] ++
  [⟨.assign, [.terminal .letWord, .terminal .identifier, .terminal .equal, .nonterminal .expr],
    .assignment⟩] ++
  chainRules .logic .logicTail .comparison [.andWord, .orWord] ++
  choiceRules .comparison [.negation, .relation] ++
  [⟨.negation, after .bang .comparison, .application⟩] ++
  chainRules .relation .relationTail .sum
    [.equalEqual, .notEqual, .lessThanEqual, .greaterThanEqual, .lessThan, .greaterThan] ++
  chainRules .sum .sumTail .product [.plus, .minus] ++
  chainRules .product .productTail .factor [.star, .slash] ++
  choiceRules .factor [.sign, .power] ++
  [⟨.sign, after .plus .factor, .application⟩,
    ⟨.sign, after .minus .factor, .application⟩,
    ⟨.power, .nonterminal .call :: after .power .factor, .chain⟩,
    ⟨.power, [.nonterminal .call], .same⟩] ++
  choiceRules .call [.atom, .invocation] ++
  bracketRules .invocation .invocation [.nonterminal .atom] .leftParen .rightParen ++
  [⟨.atom, [.terminal .number], .number⟩,
    ⟨.atom, [.terminal .string], .string⟩,
    ⟨.atom, [.terminal .identifier], .identifier⟩] ++
  choiceRules .atom [.group, .list] ++
  [⟨.group, [.terminal .leftParen, .nonterminal .expr, .terminal .rightParen], .parenthesised⟩] ++
  bracketRules .list .enumeration [] .leftSquare .rightSquare ++
  [⟨.items, after .comma .expr, .gather⟩,
    ⟨.items, .nonterminal .items :: after .comma .expr, .gather⟩]

end SceneScript.Grammar
