import SceneScript.Proofs.Grammar.Derivations
import SceneScript.Proofs.Parse.Terminal

/-!
What the derivations of the grammar stand for are the readings of their tokens.
-/

namespace SceneScript

namespace Grammar

/-- What the derivations of a nonterminal stand for. -/
inductive Role where
  /-- A node of a rank. -/
  | operand (rank : Nat)
  /-- Operators of a level with their right operands. -/
  | tail (level : Level)
  | items
  | body
  | whole

def Nonterminal.role : Nonterminal → Role
  | .root => .whole
  | .start | .statements => .body
  | .expr | .assign => .operand 0
  | .logic => .operand 1
  | .comparison | .negation => .operand 2
  | .relation => .operand 3
  | .sum => .operand 4
  | .product => .operand 5
  | .factor | .sign | .power => .operand 6
  | .call | .invocation => .operand 7
  | .atom | .group | .list => .operand 8
  | .logicTail => .tail .logic
  | .relationTail => .tail .relation
  | .sumTail => .tail .sum
  | .productTail => .tail .product
  | .items => .items

/-- The tokens stand for the piece in the role. Tails and further items go on with what they
    follow. -/
def Role.Stands : Role → List Token → Piece → Prop
  | .operand k, ts, q => ∃ n, q = .node n ∧ Reads k ts n
  | .tail level, ts, q => ∃ links, q = .tail links ∧ ∀ us first, Reads level.result us first →
    Reads level.result (us ++ ts) (Piece.chain first links)
  | .items, ts, q => ∃ ns, q = .nodes ns ∧ ∀ us ms, ms ≠ [] → Items (Reads 0) us ms →
    Items (Reads 0) (us ++ ts) (ms ++ ns)
  | .body, ts, q => ∃ ns, q = .nodes ns ∧ Statements (Reads 0) ts ns
  | .whole, _, _ => True

def Symbol.Stands (lines : LineIndex) : Symbol → List Token → Piece → Prop
  | .terminal w, ts, q => ∃ l : Lexeme, ts = [l.toToken lines] ∧ q = .lexeme l ∧
    (l.toToken lines).terminal = w
  | .nonterminal n, ts, q => n.role.Stands ts q

structure Part (lines : LineIndex) where
  symbol : Symbol
  tokens : List Token
  piece : Piece
  stands : symbol.Stands lines tokens piece

namespace Part

variable {lines : LineIndex} {xs : List (Part lines)} {a b c d : Symbol} {r : Rule}

theorem one_part (fits : xs.map symbol = [a]) :
    ∃ x : Part lines, xs = [x] ∧ a.Stands lines x.tokens x.piece := by
  obtain ⟨x, rfl, rfl⟩ := List.map_eq_singleton_iff.mp fits
  exact ⟨x, rfl, x.stands⟩

theorem two_parts (fits : xs.map symbol = [a, b]) :
    ∃ x y : Part lines, xs = [x, y] ∧ a.Stands lines x.tokens x.piece ∧
      b.Stands lines y.tokens y.piece := by
  obtain ⟨x, ys, rfl, rfl, rest⟩ := List.map_eq_cons_iff.mp fits
  obtain ⟨y, rfl, second⟩ := one_part rest
  exact ⟨x, y, rfl, x.stands, second⟩

theorem three_parts (fits : xs.map symbol = [a, b, c]) :
    ∃ x y z : Part lines, xs = [x, y, z] ∧ a.Stands lines x.tokens x.piece ∧
      b.Stands lines y.tokens y.piece ∧ c.Stands lines z.tokens z.piece := by
  obtain ⟨x, ys, rfl, rfl, rest⟩ := List.map_eq_cons_iff.mp fits
  obtain ⟨y, z, rfl, second, third⟩ := two_parts rest
  exact ⟨x, y, z, rfl, x.stands, second, third⟩

theorem four_parts (fits : xs.map symbol = [a, b, c, d]) :
    ∃ w x y z : Part lines, xs = [w, x, y, z] ∧ a.Stands lines w.tokens w.piece ∧
      b.Stands lines x.tokens x.piece ∧ c.Stands lines y.tokens y.piece ∧
      d.Stands lines z.tokens z.piece := by
  obtain ⟨w, ys, rfl, rfl, rest⟩ := List.map_eq_cons_iff.mp fits
  obtain ⟨x, y, z, rfl, others⟩ := three_parts rest
  exact ⟨w, x, y, z, rfl, w.stands, others⟩

def Compose (head : Nonterminal) (meaning : Meaning) (xs : List (Part lines)) : Prop :=
  ∃ q, Piece.build? lines meaning (xs.map piece) = some q ∧
    (Symbol.nonterminal head).Stands lines (xs.flatMap tokens) q

theorem compose_choice {head n : Nonterminal} {i k : Nat} (role : head.role = .operand i)
    (role' : n.role = .operand k) (looser : i ≤ k)
    (fits : xs.map symbol = [.nonterminal n]) : Compose head .same xs := by
  obtain ⟨x, rfl, stands⟩ := one_part fits
  rw [Symbol.Stands, role'] at stands
  obtain ⟨y, piece, reads⟩ := stands
  refine ⟨.node y, ?_, ?_⟩
  · rw [List.map_singleton, piece]
    rfl
  · rw [Symbol.Stands, role]
    exact ⟨y, rfl, by simpa using Reads.weaken looser reads⟩

/-- The rules of a level of operators that groups to the left. -/
theorem compose_chain (level : Level) {head tail operand : Nonterminal} {ops : List Terminal}
    (leftward : level.before = level.result) (isHead : head.role = .operand level.result)
    (isTail : tail.role = .tail level) (isOperand : operand.role = .operand level.behind)
    (operators : ∀ w ∈ ops, w ∈ level.operators) (member : r ∈ chainRules head tail operand ops)
    (fits : xs.map symbol = r.body) :
    Compose r.head r.meaning xs := by
  have tighter : level.result ≤ level.behind := by cases level <;> decide
  have link {us vs : List Token} {left right : Node} {op : Lexeme} {w : Terminal} (isOp : w ∈ ops)
      (terminal : (op.toToken lines).terminal = w) (first : Reads level.result us left)
      (second : Reads level.behind vs right) :
      Reads level.result (us ++ op.toToken lines :: vs)
        (.combine left (op.toToken lines) right) := by
    subst terminal
    exact .binary (Level.ofToken?_eq_some_iff.mpr (operators _ isOp)) (leftward ▸ first) second
  simp only [chainRules, tailRules, List.cons_append, List.nil_append, List.mem_cons,
    List.mem_append, List.mem_map] at member
  rcases member with rfl | rfl | ⟨w, isOp, rfl⟩ | ⟨w, isOp, rfl⟩
  · obtain ⟨x, y, rfl, stands, stands'⟩ := two_parts fits
    rw [Symbol.Stands, isOperand] at stands
    rw [Symbol.Stands, isTail] at stands'
    obtain ⟨first, piece, reads⟩ := stands
    obtain ⟨links, piece', goesOn⟩ := stands'
    refine ⟨.node (Piece.chain first links), ?_, ?_⟩
    · simp only [List.map_cons, List.map_nil, piece, piece']
      rfl
    · rw [Symbol.Stands, isHead]
      exact ⟨_, rfl, by simpa using goesOn _ _ (.weaken tighter reads)⟩
  · exact compose_choice isHead isOperand tighter fits
  · obtain ⟨x, y, rfl, ⟨op, tokens, piece, terminal⟩, stands⟩ := two_parts fits
    rw [Symbol.Stands, isOperand] at stands
    obtain ⟨right, piece', second⟩ := stands
    refine ⟨.tail [(op.toToken lines, right)], ?_, ?_⟩
    · simp only [List.map_cons, List.map_nil, piece, piece']
      rfl
    · rw [Symbol.Stands, isTail]
      refine ⟨_, rfl, fun us left first => ?_⟩
      simpa [tokens, Piece.chain] using link isOp terminal first second
  · obtain ⟨x, y, z, rfl, stands, ⟨op, tokens, piece, terminal⟩, stands'⟩ := three_parts fits
    rw [Symbol.Stands, isTail] at stands
    rw [Symbol.Stands, isOperand] at stands'
    obtain ⟨links, tailPiece, goesOn⟩ := stands
    obtain ⟨right, rightPiece, second⟩ := stands'
    refine ⟨.tail (links ++ [(op.toToken lines, right)]), ?_, ?_⟩
    · simp only [List.map_cons, List.map_nil, tailPiece, piece, rightPiece]
      rfl
    · rw [Symbol.Stands, isTail]
      refine ⟨_, rfl, fun us left first => ?_⟩
      simpa [tokens, Piece.chain] using link isOp terminal (goesOn us left first) second

def bracketed (opener closer : Terminal) : List (List Symbol) :=
  [[.terminal opener, .nonterminal .expr, .nonterminal .items, .terminal closer],
    [.terminal opener, .nonterminal .expr, .terminal closer],
    [.terminal opener, .terminal closer]]

theorem mem_bracketRules {head : Nonterminal} {meaning : Meaning} {front : List Symbol}
    {opener closer : Terminal} : r ∈ bracketRules head meaning front opener closer ↔
      ∃ inner ∈ bracketed opener closer, ⟨head, front ++ inner, meaning⟩ = r :=
  List.mem_map (l := bracketed opener closer)
    (f := fun inner => (⟨head, front ++ inner, meaning⟩ : Rule))

theorem brackets {opener closer : Terminal} (fits : xs.map symbol ∈ bracketed opener closer) :
    ∃ (left right : Lexeme) (ts : List Token) (rest : List Piece),
      (left.toToken lines).terminal = opener ∧ (right.toToken lines).terminal = closer ∧
      Items (Reads 0) ts (Piece.gather rest) ∧
      xs.flatMap tokens = left.toToken lines :: ts ++ [right.toToken lines] ∧
      xs.map piece = .lexeme left :: rest ∧ rest.getLast? = some (.lexeme right) := by
  simp only [bracketed, List.mem_cons, List.not_mem_nil, or_false] at fits
  rcases fits with fits | fits | fits
  · obtain ⟨w, x, y, z, rfl, ⟨left, openTokens, openPiece, opens⟩, ⟨n, exprPiece, reads⟩,
      ⟨ns, itemsPiece, goesOn⟩, ⟨right, closeTokens, closePiece, closes⟩⟩ := four_parts fits
    refine ⟨left, right, x.tokens ++ y.tokens, [.node n, .nodes ns, .lexeme right], opens, closes,
      ?_, by simp [openTokens, closeTokens],
      by simp [openPiece, exprPiece, itemsPiece, closePiece], rfl⟩
    simpa [Piece.gather] using goesOn x.tokens [n] (by simp) (.snoc .nil reads)
  · obtain ⟨w, x, z, rfl, ⟨left, openTokens, openPiece, opens⟩, ⟨n, exprPiece, reads⟩,
      ⟨right, closeTokens, closePiece, closes⟩⟩ := three_parts fits
    exact ⟨left, right, x.tokens, [.node n, .lexeme right], opens, closes, .snoc .nil reads,
      by simp [openTokens, closeTokens], by simp [openPiece, exprPiece, closePiece], rfl⟩
  · obtain ⟨w, z, rfl, ⟨left, openTokens, openPiece, opens⟩,
      ⟨right, closeTokens, closePiece, closes⟩⟩ := two_parts fits
    exact ⟨left, right, [], [.lexeme right], opens, closes, .nil,
      by simp [openTokens, closeTokens], by simp [openPiece, closePiece], rfl⟩

theorem compose_invocation
    (member : r ∈ bracketRules .invocation .invocation [.nonterminal .atom] .leftParen .rightParen)
    (fits : xs.map symbol = r.body) :
    Compose r.head r.meaning xs := by
  obtain ⟨inner, isInner, rfl⟩ := mem_bracketRules.mp member
  obtain ⟨x, ys, rfl, isAtom, rfl⟩ := List.map_eq_cons_iff.mp fits
  obtain ⟨callee, piece, reads⟩ : (Symbol.nonterminal .atom).Stands lines x.tokens x.piece :=
    isAtom ▸ x.stands
  obtain ⟨left, right, ts, rest, opens, closes, items, tokens, pieces, last⟩ := brackets isInner
  refine ⟨.node (.invoke callee (Piece.gather rest) (right.toToken lines)), ?_, _, rfl, ?_⟩
  · cases rest with
    | nil => cases last
    | cons first others => simp [Piece.build?, piece, pieces, Piece.gather, last]
  · have whole := Reads.call reads ((Token.terminal_eq_iff (by decide) (by decide)).mp opens) items
      ((Token.terminal_eq_iff (by decide) (by decide)).mp closes)
    simpa [tokens] using whole

theorem compose_list
    (member : r ∈ bracketRules .list .enumeration [] .leftSquare .rightSquare)
    (fits : xs.map symbol = r.body) :
    Compose r.head r.meaning xs := by
  obtain ⟨inner, isInner, rfl⟩ := mem_bracketRules.mp member
  obtain rfl : xs.map symbol = inner := fits
  obtain ⟨left, right, ts, rest, opens, closes, items, tokens, pieces, last⟩ := brackets isInner
  refine ⟨.node (.enumerate (left.toToken lines) (Piece.gather rest) (right.toToken lines)), ?_,
    _, rfl, ?_⟩
  · simp [Piece.build?, pieces, last]
  · rw [tokens]
    exact .list ((Token.terminal_eq_iff (by decide) (by decide)).mp opens) items
      ((Token.terminal_eq_iff (by decide) (by decide)).mp closes)

theorem compose_choices {head : Nonterminal} {choices : List Nonterminal} {i : Nat}
    (role : head.role = .operand i) (each : ∀ n ∈ choices, ∃ k, n.role = .operand k ∧ i ≤ k)
    (member : r ∈ choiceRules head choices) (fits : xs.map symbol = r.body) :
    Compose r.head r.meaning xs := by
  obtain ⟨n, isChoice, rfl⟩ := List.mem_map.mp member
  obtain ⟨k, role', looser⟩ := each n isChoice
  exact compose_choice role role' looser fits

theorem kind_of_lexeme {l : Lexeme} {w : Terminal} (terminal : (l.toToken lines).terminal = w)
    (notKeyword : w.kind ≠ .keyword) (notEnd : w ≠ .endOfText) :
    (l.toToken lines).kind = w.kind :=
  (Token.terminal_eq_iff notKeyword notEnd).mp terminal

theorem compose_start (fits : xs.map symbol = [.nonterminal .statements] ∨ xs.map symbol = []) :
    Compose .start .gather xs := by
  rcases fits with fits | fits
  · obtain ⟨x, rfl, ns, piece, body⟩ := one_part fits
    refine ⟨_, rfl, _, rfl, ?_⟩
    simpa [piece, Piece.gather] using body
  · obtain rfl : xs = [] := List.map_eq_nil_iff.mp fits
    exact ⟨_, rfl, _, rfl, .nil⟩

theorem compose_first (fits : xs.map symbol = [.nonterminal .expr, .terminal .semicolon] ∨
      xs.map symbol = [.terminal .semicolon]) : Compose .statements .gather xs := by
  rcases fits with fits | fits
  · obtain ⟨x, y, rfl, ⟨n, piece, reads⟩, l, tokens, piece', terminal⟩ := two_parts fits
    refine ⟨_, rfl, _, rfl, ?_⟩
    have whole := Statements.snoc .nil reads (kind_of_lexeme terminal (by decide) (by decide))
    simpa [piece, piece', tokens, Piece.gather] using whole
  · obtain ⟨x, rfl, l, tokens, piece, terminal⟩ := one_part fits
    refine ⟨_, rfl, _, rfl, ?_⟩
    have whole : Statements (Reads 0) _ _ :=
      .skip .nil (kind_of_lexeme terminal (by decide) (by decide))
    simpa [piece, tokens, Piece.gather] using whole

theorem compose_further (fits : xs.map symbol =
        [.nonterminal .statements, .nonterminal .expr, .terminal .semicolon] ∨
      xs.map symbol = [.nonterminal .statements, .terminal .semicolon]) :
    Compose .statements .gather xs := by
  rcases fits with fits | fits
  · obtain ⟨x, y, z, rfl, ⟨ns, piece, body⟩, ⟨n, piece', reads⟩, l, tokens, ended, terminal⟩ :=
      three_parts fits
    refine ⟨_, rfl, _, rfl, ?_⟩
    have whole := Statements.snoc body reads (kind_of_lexeme terminal (by decide) (by decide))
    simpa [piece, piece', ended, tokens, Piece.gather] using whole
  · obtain ⟨x, y, rfl, ⟨ns, piece, body⟩, l, tokens, piece', terminal⟩ := two_parts fits
    refine ⟨_, rfl, _, rfl, ?_⟩
    have whole := Statements.skip body (kind_of_lexeme terminal (by decide) (by decide))
    simpa [piece, piece', tokens, Piece.gather] using whole

theorem compose_assign (fits : xs.map symbol =
      [.terminal .letWord, .terminal .identifier, .terminal .equal, .nonterminal .expr]) :
    Compose .assign .assignment xs := by
  obtain ⟨w, x, y, z, rfl, ⟨first, letTokens, letPiece, isLet⟩,
    ⟨name, nameTokens, namePiece, isName⟩, ⟨equals, equalsTokens, equalsPiece, isEquals⟩,
    n, piece, reads⟩ := four_parts fits
  refine ⟨.node (.bind (name.toToken lines) n), ?_, _, rfl, ?_⟩
  · simp only [List.map_cons, List.map_nil, letPiece, namePiece, equalsPiece, piece]
    rfl
  · have whole := Reads.assignment (Token.terminal_eq_letWord_iff.mp isLet)
      (kind_of_lexeme isName (by decide) (by decide))
      (kind_of_lexeme isEquals (by decide) (by decide)) reads
    simpa [letTokens, nameTokens, equalsTokens] using whole

theorem compose_application {w : Terminal} {operand head : Nonterminal} {k : Nat}
    (role : operand.role = .operand k) (role' : head.role = .operand k)
    (apply : ∀ op ts n, op.terminal = w → Reads k ts n → Reads k (op :: ts) (.apply op n))
    (fits : xs.map symbol = after w operand) : Compose head .application xs := by
  obtain ⟨x, y, rfl, ⟨op, tokens, piece, terminal⟩, stands⟩ := two_parts fits
  rw [Symbol.Stands, role] at stands
  obtain ⟨n, piece', reads⟩ := stands
  refine ⟨.node (.apply (op.toToken lines) n), ?_, ?_⟩
  · simp only [List.map_cons, List.map_nil, piece, piece']
    rfl
  · rw [Symbol.Stands, role']
    refine ⟨_, rfl, ?_⟩
    simpa [tokens] using apply _ _ _ terminal reads

theorem compose_power
    (fits : xs.map symbol = .nonterminal .call :: after .power .factor) :
    Compose .power .chain xs := by
  obtain ⟨x, y, z, rfl, ⟨left, piece, first⟩, ⟨op, tokens, opPiece, terminal⟩,
    right, piece', second⟩ := three_parts fits
  have operator : Level.ofToken? (op.toToken lines) = some .power :=
    Level.ofToken?_eq_some_iff.mpr (List.mem_singleton.mpr terminal)
  refine ⟨.node (.combine left (op.toToken lines) right), ?_, _, rfl, ?_⟩
  · simp only [List.map_cons, List.map_nil, piece, opPiece, piece']
    rfl
  · have whole : Reads 6 _ _ := .binary operator first second
    simpa [tokens] using whole

theorem compose_literal {w : Terminal} {meaning : Meaning} {ofToken : Token → Node}
    (build : ∀ l : Lexeme, Piece.build? lines meaning [.lexeme l] =
      some (.node (ofToken (l.toToken lines))))
    (reads : ∀ t : Token, t.terminal = w → Reads 8 [t] (ofToken t))
    (fits : xs.map symbol = [.terminal w]) : Compose .atom meaning xs := by
  obtain ⟨x, rfl, l, tokens, piece, terminal⟩ := one_part fits
  refine ⟨.node (ofToken (l.toToken lines)), ?_, _, rfl, ?_⟩
  · rw [List.map_singleton, piece, build]
  · simpa [tokens] using reads _ terminal

theorem compose_group (fits : xs.map symbol =
      [.terminal .leftParen, .nonterminal .expr, .terminal .rightParen]) :
    Compose .group .parenthesised xs := by
  obtain ⟨x, y, z, rfl, ⟨left, openTokens, openPiece, opens⟩, ⟨n, piece, reads⟩,
    right, closeTokens, closePiece, closes⟩ := three_parts fits
  refine ⟨.node n, ?_, _, rfl, ?_⟩
  · simp only [List.map_cons, List.map_nil, openPiece, piece, closePiece]
    rfl
  · have whole := Reads.group (kind_of_lexeme opens (by decide) (by decide)) reads
      (kind_of_lexeme closes (by decide) (by decide))
    simpa [openTokens, closeTokens] using whole

theorem compose_items (fits : xs.map symbol = after .comma .expr ∨
      xs.map symbol = .nonterminal .items :: after .comma .expr) :
    Compose .items .gather xs := by
  rcases fits with fits | fits
  · obtain ⟨x, y, rfl, ⟨l, tokens, piece, terminal⟩, n, piece', reads⟩ := two_parts fits
    refine ⟨_, rfl, _, rfl, fun us ms some_before items => ?_⟩
    have whole := items.further some_before (kind_of_lexeme terminal (by decide) (by decide)) reads
    simpa [piece, piece', tokens, Piece.gather] using whole
  · obtain ⟨x, y, z, rfl, ⟨ns, piece, goesOn⟩, ⟨l, tokens, commaPiece, terminal⟩,
      n, piece', reads⟩ := three_parts fits
    refine ⟨_, rfl, _, rfl, fun us ms some_before items => ?_⟩
    have whole := (goesOn us ms some_before items).further (by simp [some_before])
      (kind_of_lexeme terminal (by decide) (by decide)) reads
    simpa [piece, commaPiece, piece', tokens, Piece.gather] using whole

/-- Every rule makes up something that stands for its tokens. -/
theorem compose (member : r ∈ rules) (fits : xs.map symbol = r.body) :
    Compose r.head r.meaning xs := by
  delta rules at member
  simp only [List.mem_append, or_assoc] at member
  rcases member with h | h | h | h | h | h | h | h | h | h | h | h | h | h | h | h | h | h
  · simp only [List.mem_cons, List.not_mem_nil, or_false] at h
    rcases h with rfl | rfl | rfl | rfl | rfl | rfl | rfl
    · exact ⟨_, rfl, trivial⟩
    · exact compose_start (.inl fits)
    · exact compose_start (.inr fits)
    · exact compose_first (.inl fits)
    · exact compose_first (.inr fits)
    · exact compose_further (.inl fits)
    · exact compose_further (.inr fits)
  · exact compose_choices (i := 0) rfl (by simp [Nonterminal.role]) h fits
  · obtain rfl := List.mem_singleton.mp h
    exact compose_assign fits
  · exact compose_chain .logic rfl rfl rfl rfl (by decide) h fits
  · exact compose_choices (i := 2) rfl (by simp [Nonterminal.role]) h fits
  · obtain rfl := List.mem_singleton.mp h
    exact compose_application (w := .bang) (k := 2) rfl rfl (fun op ts n isBang reads =>
      .negation ((Token.terminal_eq_iff (by decide) (by decide)).mp isBang) reads) fits
  · exact compose_chain .relation rfl rfl rfl rfl (by decide) h fits
  · exact compose_chain .sum rfl rfl rfl rfl (by decide) h fits
  · exact compose_chain .product rfl rfl rfl rfl (by decide) h fits
  · exact compose_choices (i := 6) rfl (by simp [Nonterminal.role]) h fits
  · simp only [List.mem_cons, List.not_mem_nil, or_false] at h
    rcases h with rfl | rfl | rfl | rfl
    · exact compose_application (w := .plus) (k := 6) rfl rfl (fun op ts n isPlus reads =>
        .sign (.inl ((Token.terminal_eq_iff (by decide) (by decide)).mp isPlus)) reads) fits
    · exact compose_application (w := .minus) (k := 6) rfl rfl (fun op ts n isMinus reads =>
        .sign (.inr ((Token.terminal_eq_iff (by decide) (by decide)).mp isMinus)) reads) fits
    · exact compose_power fits
    · exact compose_choice (i := 6) rfl rfl (by decide) fits
  · exact compose_choices (i := 7) rfl (by simp [Nonterminal.role]) h fits
  · exact compose_invocation h fits
  · simp only [List.mem_cons, List.not_mem_nil, or_false] at h
    rcases h with rfl | rfl | rfl
    · exact compose_literal (w := .number) (fun _ => rfl) (fun t isNumber =>
        .number ((Token.terminal_eq_iff (by decide) (by decide)).mp isNumber)) fits
    · exact compose_literal (w := .string) (fun _ => rfl) (fun t isString =>
        .string ((Token.terminal_eq_iff (by decide) (by decide)).mp isString)) fits
    · exact compose_literal (w := .identifier) (fun _ => rfl) (fun t isName =>
        .identifier ((Token.terminal_eq_iff (by decide) (by decide)).mp isName)) fits
  · exact compose_choices (i := 8) rfl (by simp [Nonterminal.role]) h fits
  · obtain rfl := List.mem_singleton.mp h
    exact compose_group fits
  · exact compose_list h fits
  · simp only [List.mem_cons, List.not_mem_nil, or_false] at h
    rcases h with rfl | rfl
    · exact compose_items (.inl fits)
    · exact compose_items (.inr fits)

end Part

/-- The lexemes are those of their tokens. -/
def Proper (lines : LineIndex) (ls : List Lexeme) : Prop :=
  ∀ l ∈ ls, (l.toToken lines).terminal = l.terminal

section Valid

variable {lines : LineIndex}

theorem exists_parts {ds : List Derivation}
    (each : ∀ d ∈ ds, ∃ q, d.piece? lines = some q ∧
      d.symbol.Stands lines (d.lexemes.map (·.toToken lines)) q) :
    ∃ xs : List (Part lines), xs.map Part.symbol = ds.map Derivation.symbol ∧
      xs.flatMap Part.tokens = (Derivation.allLexemes ds).map (·.toToken lines) ∧
      Derivation.pieces? lines ds = some (xs.map Part.piece) := by
  induction ds with
  | nil => exact ⟨[], rfl, rfl, rfl⟩
  | cons d ds ih =>
    obtain ⟨⟨q, here, stands⟩, others⟩ := List.forall_mem_cons.mp each
    obtain ⟨xs, symbols, tokens, pieces⟩ := ih others
    refine ⟨⟨d.symbol, _, q, stands⟩ :: xs, ?_, ?_, ?_⟩
    · rw [List.map_cons, List.map_cons, symbols]
    · rw [List.flatMap_cons, tokens, Derivation.allLexemes, List.map_append]
    · rw [Derivation.pieces?, here, pieces]
      rfl

theorem mem_allLexemes {ds : List Derivation} {d : Derivation} (member : d ∈ ds) {l : Lexeme}
    (inside : l ∈ d.lexemes) : l ∈ Derivation.allLexemes ds := by
  obtain ⟨before, behind, rfl⟩ := List.append_of_mem member
  rw [Derivation.allLexemes_append, Derivation.allLexemes]
  exact List.mem_append_right _ (List.mem_append_left _ inside)

/-- A derivation stands for something that its tokens are read as. -/
theorem stands_of_valid {d : Derivation} (valid : d.Valid rules)
    (proper : Proper lines d.lexemes) :
    ∃ q, d.piece? lines = some q ∧ d.symbol.Stands lines (d.lexemes.map (·.toToken lines)) q := by
  induction valid with
  | leaf l => exact ⟨.lexeme l, rfl, l, rfl, rfl, proper l List.mem_cons_self⟩
  | @branch r parts member fits _ ih =>
    obtain ⟨xs, symbols, tokens, pieces⟩ := exists_parts fun d isPart =>
      ih d isPart fun l inside => proper l (mem_allLexemes isPart inside)
    obtain ⟨q, meaning, stands⟩ := Part.compose member (symbols.trans fits)
    refine ⟨q, ?_, ?_⟩
    · rw [Derivation.piece?, pieces, Option.bind_some, meaning]
    · rw [Derivation.lexemes, ← tokens]
      exact stands

/-- The program of a derivation is made of the statements that its tokens are. -/
theorem program_of_valid {d : Derivation} (valid : d.Valid rules)
    (proper : Proper lines d.lexemes) (isStart : d.symbol = .nonterminal .start) :
    ∃ body, Statements (Reads 0) (d.lexemes.map (·.toToken lines)) body ∧
      d.program? lines = some (.ofBody lines.origin body) := by
  obtain ⟨q, meaning, stands⟩ := stands_of_valid valid proper
  rw [isStart] at stands
  obtain ⟨body, rfl, statements⟩ := stands
  refine ⟨body, statements, ?_⟩
  rw [Derivation.program?, meaning]

end Valid

end Grammar

end SceneScript
