import SceneScript.Grammar.Symbol
import SceneScript.Proofs.Parse.Reading

/-!
Tokens as terminals of a grammar, and the operators of each level among them.
-/

namespace SceneScript

open Grammar (Terminal)

/-- The terminal that a token is; the end of the text stands for tokens that no text has. -/
def Token.terminal (t : Token) : Terminal :=
  match t.kind with
  | .keyword =>
    if t.value = .string "let" then .letWord
    else if t.value = .string "and" then .andWord
    else if t.value = .string "or" then .orWord
    else .endOfText
  | .number => .number
  | .string => .string
  | .identifier => .identifier
  | .plus => .plus
  | .minus => .minus
  | .star => .star
  | .slash => .slash
  | .bang => .bang
  | .equal => .equal
  | .comma => .comma
  | .lessThan => .lessThan
  | .greaterThan => .greaterThan
  | .power => .power
  | .semicolon => .semicolon
  | .equalEqual => .equalEqual
  | .notEqual => .notEqual
  | .lessThanEqual => .lessThanEqual
  | .greaterThanEqual => .greaterThanEqual
  | .leftParen => .leftParen
  | .rightParen => .rightParen
  | .leftSquare => .leftSquare
  | .rightSquare => .rightSquare
  | .endOfInput => .endOfText

namespace Token

variable {t : Token}

theorem terminal_eq_letWord_iff : t.terminal = .letWord ↔ t.isLet := by
  unfold terminal isLet
  cases kind : t.kind <;> grind

theorem kind_terminal (known : t.terminal ≠ .endOfText) : t.terminal.kind = t.kind := by
  unfold terminal at known ⊢
  cases kind : t.kind <;> grind [Terminal.kind]

theorem terminal_of_kind {w : Terminal} (notKeyword : w.kind ≠ .keyword) (kind : t.kind = w.kind) :
    t.terminal = w := by
  unfold terminal
  cases w <;> simp only [Terminal.kind, ne_eq, not_true_eq_false] at notKeyword kind <;> rw [kind]

/-- Apart from keywords and the end of the text, a terminal is a kind of token. -/
theorem terminal_eq_iff {w : Terminal} (notKeyword : w.kind ≠ .keyword) (notEnd : w ≠ .endOfText) :
    t.terminal = w ↔ t.kind = w.kind := by
  refine ⟨fun same => ?_, terminal_of_kind notKeyword⟩
  rw [← same, kind_terminal (by rw [same]; exact notEnd)]

end Token

namespace Level

def operators : Level → List Terminal
  | .logic => [.andWord, .orWord]
  | .relation =>
    [.equalEqual, .notEqual, .lessThan, .lessThanEqual, .greaterThan, .greaterThanEqual]
  | .sum => [.plus, .minus]
  | .product => [.star, .slash]
  | .power => [.power]

theorem ofToken?_eq_some_iff {t : Token} {level : Level} :
    ofToken? t = some level ↔ t.terminal ∈ level.operators := by
  unfold ofToken? Token.terminal
  cases kind : t.kind
  case keyword => cases level <;> grind [operators]
  all_goals cases level <;> simp [operators]

end Level

end SceneScript
