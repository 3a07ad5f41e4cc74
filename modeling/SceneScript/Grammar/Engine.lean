import SceneScript.Grammar.Automaton
import SceneScript.Grammar.Derivation
import SceneScript.Parse.Fault

/-!
The parser by grammar: the automaton reads the lexemes and keeps a stack of derivations. In front
of each lexeme it reduces what its table allows and then shifts, or it stops there.
-/

namespace SceneScript.Grammar

/-- Derivations with the states reached behind them, the last one first. -/
abbrev Stack := List (Nat × Derivation)

namespace Stack

/-- The state behind a stack; the empty one is in the first state. -/
def state : Stack → Nat
  | [] => 0
  | (state, _) :: _ => state

/-- Replaces the derivations of a rule's body by one of its head. -/
def reduce? (m : Automaton) (rule : Rule) (stack : Stack) : Option Stack :=
  let count := rule.body.length
  let below : Stack := stack.drop count
  (m.goto? below.state rule.head).map fun target =>
    (target, .branch rule ((stack.take count).reverse.map (·.2))) :: below

/-- Reduces in front of a terminal until it can be shifted: the stack then and the state it
    leads to, or the terminals that were expected. -/
def settle (m : Automaton) (t : Terminal) : Nat → Stack → Except (List Terminal) (Stack × Nat)
  | 0, stack => .error (m.row stack.state).expected
  | fuel + 1, stack =>
    match m.action? stack.state t with
    | some (.shift target) => .ok (stack, target)
    | some (.reduce rule) =>
      match stack.reduce? m rule with
      | some reduced => settle m t fuel reduced
      | none => .error (m.row stack.state).expected
    | none => .error (m.row stack.state).expected

/-- Each derivation on the stack can be the only part of a reduction as often as there are
    nonterminals. -/
def patience (stack : Stack) : Nat := (stack.length + 1) * Nonterminal.all.length

end Stack

/-- The fault of meeting a terminal other than the expected ones. -/
def unexpected (expected : List Terminal) (span : Span) : ParseFault :=
  .grammatical ⟨.terminals (expected.map Terminal.label), span⟩

/-- Reads one lexeme. -/
def step (m : Automaton) (lines : LineIndex) (stack : Stack) (l : Lexeme) :
    Except ParseFault Stack :=
  match stack.settle m l.terminal stack.patience with
  | .ok (settled, target) => .ok ((target, .leaf l) :: settled)
  | .error expected => .error (unexpected expected (l.toToken lines).span)

/-- The fault at an index where no pattern matches: a quote there opens a string that is never
    closed. -/
def lexicalFault (lines : LineIndex) (index : Nat) (c : Char) : LexicalFault :=
  let start := lines.position index
  if c = '"' ∨ c = Text.apostrophe then
    ⟨.unclosedString c, ⟨start, lines.position lines.origin.text.length⟩⟩
  else ⟨.illegalCharacter c, ⟨start, start.past⟩⟩

/-- The end of the text: the derivation of all of it. -/
def finish (m : Automaton) (lines : LineIndex) (stack : Stack) : Except ParseFault Program :=
  let stop := lines.position lines.origin.text.length
  match stack.settle m .endOfText stack.patience with
  | .error expected => .error (unexpected expected ⟨stop, stop.past⟩)
  | .ok (settled, _) =>
    match settled.head?.bind (·.2.program? lines) with
    | some program => .ok program
    | none => .error (unexpected [] ⟨stop, stop.past⟩)

/-- Parses a text by the grammar. -/
def parse (origin : Origin) : Except ParseFault Program := do
  let lines := LineIndex.ofOrigin origin
  let stream := LexemeStream.ofOrigin origin
  let stack ← stream.lexemes.foldlM (step automaton lines) []
  match stream.fault with
  | some (index, c) => .error (.lexical (lexicalFault lines index c))
  | none => finish automaton lines stack

end SceneScript.Grammar
