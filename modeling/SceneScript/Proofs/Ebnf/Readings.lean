import SceneScript.Proofs.Ebnf.Tree

/-!
The trees of the refined grammar are the readings of their tokens, and so are those of the
documented one: every text with a derivation has a reading, and every reading has a derivation.
-/

namespace SceneScript.Ebnf

open Grammar (Terminal)

section Fits

/-! The parts of a phrase, from the expression that their symbols match. -/

variable {α : Type} {f : α → Symbol} {xs : List α} {p q : RegularExpression Symbol}

theorem fits_mul (fits : xs.map f ∈ (p * q).matches') :
    ∃ ys zs, xs = ys ++ zs ∧ ys.map f ∈ p.matches' ∧ zs.map f ∈ q.matches' := by
  obtain ⟨u, first, v, second, same⟩ := fits
  obtain ⟨ys, zs, rfl, rfl, rfl⟩ := List.map_eq_append_iff.mp same.symm
  exact ⟨ys, zs, rfl, first, second⟩

theorem fits_star (fits : xs.map f ∈ p.star.matches') :
    ∃ groups : List (List α), xs = groups.flatten ∧ ∀ ys ∈ groups, ys.map f ∈ p.matches' := by
  rw [RegularExpression.matches'_star, Language.mem_kstar] at fits
  obtain ⟨words, same, each⟩ := fits
  induction words generalizing xs with
  | nil =>
    refine ⟨[], List.map_eq_nil_iff.mp same, ?_⟩
    simp
  | cons w words ih =>
    obtain ⟨ys, zs, rfl, rfl, rest⟩ := List.map_eq_append_iff.mp same
    obtain ⟨groups, rfl, member⟩ := ih rest fun v member => each v (List.mem_cons_of_mem _ member)
    refine ⟨ys :: groups, rfl, List.forall_mem_cons.mpr ⟨?_, member⟩⟩
    exact each _ List.mem_cons_self

theorem fits_char {s : Symbol} (fits : xs.map f ∈ (RegularExpression.char s).matches') :
    ∃ x, xs = [x] ∧ f x = s := by
  obtain ⟨x, rfl, same⟩ := List.map_eq_singleton_iff.mp fits
  exact ⟨x, rfl, same⟩

theorem fits_oneOf {ts : List Terminal} (fits : xs.map f ∈ (oneOf ts).matches') :
    ∃ x, xs = [x] ∧ ∃ t ∈ ts, f x = .word t := by
  induction ts with
  | nil => exact absurd fits (Language.notMem_zero _)
  | cons t ts ih =>
    rcases fits with fits | fits
    · obtain ⟨x, rfl, same⟩ := fits_char fits
      exact ⟨x, rfl, t, List.mem_cons_self, same⟩
    · obtain ⟨x, rfl, u, member, same⟩ := ih fits
      exact ⟨x, rfl, u, List.mem_cons_of_mem _ member, same⟩

end Fits

/-- How tightly the phrases of a category bind; statements are no operands. -/
def Category.rank? : Category → Option Nat
  | .statements => none
  | .expr => some 0
  | .logic => some 1
  | .comparison => some 2
  | .arithmetic => some 4
  | .term => some 5
  | .factor | .power => some 6
  | .call => some 7
  | .atom | .list => some 8

/-- Tokens of a symbol and what they stand for. -/
inductive Stands : Symbol → List Token → Piece → Prop
  | word (t : Token) : Stands (.word t.terminal) [t] (.token t)
  | phrase {c : Category} {k : Nat} {ts : List Token} {n : Node} (rank : c.rank? = some k)
      (reads : Reads k ts n) : Stands (.phrase c) ts (.node n)
  | statements {ts : List Token} {ns : List Node} (statements : Statements (Reads 0) ts ns) :
      Stands (.phrase .statements) ts (.nodes ns)

structure Part where
  symbol : Symbol
  tokens : List Token
  piece : Piece
  stands : Stands symbol tokens piece

namespace Part

variable {x : Part} {xs : List Part} {p : RegularExpression Symbol}

theorem eq_token {w : Terminal} (same : x.symbol = .word w) :
    ∃ t, x.tokens = [t] ∧ x.piece = .token t ∧ t.terminal = w := by
  obtain ⟨symbol, tokens, piece, stands⟩ := x
  cases stands with
  | word t => exact ⟨t, rfl, rfl, Symbol.word.inj same⟩
  | phrase => cases same
  | statements => cases same

theorem eq_node {c : Category} {k : Nat} (same : x.symbol = .phrase c) (rank : c.rank? = some k) :
    ∃ n, x.piece = .node n ∧ Reads k x.tokens n := by
  obtain ⟨symbol, tokens, piece, stands⟩ := x
  cases stands with
  | word => cases same
  | @phrase c' k' ts n rank' reads =>
    cases same
    cases rank.symm.trans rank'
    exact ⟨n, rfl, reads⟩
  | statements =>
    cases same
    cases rank

theorem fits_word {w : Terminal} (fits : xs.map symbol ∈ (word w).matches') :
    ∃ x t, xs = [x] ∧ x.tokens = [t] ∧ x.piece = .token t ∧ t.terminal = w := by
  obtain ⟨x, rfl, same⟩ := fits_char fits
  obtain ⟨t, tokens, piece, terminal⟩ := eq_token same
  exact ⟨x, t, rfl, tokens, piece, terminal⟩

theorem fits_ops {ws : List Terminal} (fits : xs.map symbol ∈ (oneOf ws).matches') :
    ∃ x t, xs = [x] ∧ x.tokens = [t] ∧ x.piece = .token t ∧ t.terminal ∈ ws := by
  obtain ⟨x, rfl, w, member, same⟩ := fits_oneOf fits
  obtain ⟨t, tokens, piece, rfl⟩ := eq_token same
  exact ⟨x, t, rfl, tokens, piece, member⟩

theorem fits_phrase {c : Category} {k : Nat} (rank : c.rank? = some k)
    (fits : xs.map symbol ∈ (phrase c).matches') :
    ∃ x n, xs = [x] ∧ x.piece = .node n ∧ Reads k x.tokens n := by
  obtain ⟨x, rfl, same⟩ := fits_char fits
  obtain ⟨n, piece, reads⟩ := eq_node same rank
  exact ⟨x, n, rfl, piece, reads⟩

theorem fits_prefixed {ws : List Terminal} {c : Category} {k : Nat} (rank : c.rank? = some k)
    (fits : xs.map symbol ∈ (oneOf ws * phrase c).matches') :
    ∃ op ts n, op.terminal ∈ ws ∧ Reads k ts n ∧ xs.flatMap tokens = op :: ts ∧
      xs.map piece = [.token op, .node n] := by
  obtain ⟨as, bs, rfl, isOp, isOperand⟩ := fits_mul fits
  obtain ⟨a, op, rfl, opTokens, opPiece, member⟩ := fits_ops isOp
  obtain ⟨b, n, rfl, piece, reads⟩ := fits_phrase rank isOperand
  exact ⟨op, b.tokens, n, member, reads, by simp [opTokens], by simp [opPiece, piece]⟩

/-- Links of operators and operands go on with what they follow. -/
theorem read_links {level : Level} (leftward : level.before = level.result) {c : Category}
    (rank : c.rank? = some level.behind) {groups : List (List Part)}
    (each : ∀ ys ∈ groups, ys.map symbol ∈ (oneOf level.operators * phrase c).matches')
    {us : List Token} {first : Node} (reads : Reads level.result us first) :
    ∃ n, Piece.chain? first (groups.flatten.map piece) = some n ∧
      Reads level.result (us ++ groups.flatten.flatMap tokens) n := by
  induction groups generalizing us first with
  | nil => exact ⟨first, rfl, by simpa using reads⟩
  | cons ys groups ih =>
    obtain ⟨here, others⟩ := List.forall_mem_cons.mp each
    obtain ⟨op, ts, right, member, second, tokens, pieces⟩ := fits_prefixed rank here
    have operator := Level.ofToken?_eq_some_iff.mpr member
    obtain ⟨n, meaning, whole⟩ := ih others (.binary operator (leftward ▸ reads) second)
    refine ⟨n, ?_, ?_⟩
    · simpa [pieces, Piece.chain?] using meaning
    · simpa [tokens] using whole

theorem read_further {groups : List (List Part)}
    (each : ∀ ys ∈ groups, ys.map symbol ∈ (oneOf [.comma] * phrase .expr).matches')
    {ts us : List Token} {ns : List Node} {n : Node} (leading : Leading (Reads 0) ts ns)
    (item : Reads 0 us n) :
    Items (Reads 0) (ts ++ us ++ groups.flatten.flatMap tokens)
      (ns ++ n :: Piece.gather (groups.flatten.map piece)) := by
  induction groups generalizing ts us ns n with
  | nil => simpa [Piece.gather] using Items.snoc leading item
  | cons ys groups ih =>
    obtain ⟨here, others⟩ := List.forall_mem_cons.mp each
    obtain ⟨comma, vs, next, member, reads, tokens, pieces⟩ := fits_prefixed (k := 0) rfl here
    have separator : comma.kind = .comma :=
      (Token.terminal_eq_iff (by decide) (by decide)).mp (List.mem_singleton.mp member)
    have further := ih others (.snoc leading item separator) reads
    simpa [tokens, pieces, Piece.gather] using further

theorem read_items (fits : xs.map symbol ∈ items.matches') :
    Items (Reads 0) (xs.flatMap tokens) (Piece.gather (xs.map piece)) := by
  rcases fits with isEmpty | isChain
  · obtain rfl : xs = [] := List.map_eq_nil_iff.mp isEmpty
    exact .nil
  · obtain ⟨as, bs, rfl, isFirst, links⟩ := fits_mul isChain
    obtain ⟨a, first, rfl, piece, reads⟩ := fits_phrase (k := 0) rfl isFirst
    obtain ⟨groups, rfl, each⟩ := fits_star links
    simpa [piece, Piece.gather] using read_further each .nil reads

theorem read_brackets {opener closer : Terminal}
    (fits : xs.map symbol ∈ (word opener * items * word closer).matches') :
    ∃ l r ts ns rest, l.terminal = opener ∧ r.terminal = closer ∧ Items (Reads 0) ts ns ∧
      xs.flatMap tokens = l :: ts ++ [r] ∧ xs.map piece = .token l :: rest ∧
      Piece.closed? rest = some (ns, r) := by
  obtain ⟨as, ds, rfl, front, isCloser⟩ := fits_mul fits
  obtain ⟨bs, cs, rfl, isOpener, inner⟩ := fits_mul front
  obtain ⟨b, l, rfl, openerTokens, openerPiece, openerTerminal⟩ := fits_word isOpener
  obtain ⟨d, r, rfl, closerTokens, closerPiece, closerTerminal⟩ := fits_word isCloser
  refine ⟨l, r, _, _, cs.map piece ++ [.token r], openerTerminal, closerTerminal,
    read_items inner, ?_, ?_, ?_⟩
  · simp [openerTokens, closerTokens]
  · simp [openerPiece, closerPiece]
  · simp [Piece.closed?, Piece.gather_append, Piece.gather]

theorem read_statements {groups : List (List Part)}
    (each : ∀ ys ∈ groups,
      ys.map symbol ∈ (phrase .expr * word .semicolon + word .semicolon).matches')
    {ts : List Token} {ns : List Node} (before : Statements (Reads 0) ts ns) :
    Statements (Reads 0) (ts ++ groups.flatten.flatMap tokens)
      (ns ++ Piece.gather (groups.flatten.map piece)) := by
  have isSemicolon {t : Token} (terminal : t.terminal = .semicolon) : t.kind = .semicolon :=
    (Token.terminal_eq_iff (by decide) (by decide)).mp terminal
  induction groups generalizing ts ns with
  | nil => simpa [Piece.gather] using before
  | cons ys groups ih =>
    obtain ⟨here, others⟩ := List.forall_mem_cons.mp each
    rcases here with isStatement | isSkip
    · obtain ⟨as, bs, rfl, isExpr, isEnd⟩ := fits_mul isStatement
      obtain ⟨a, n, rfl, piece, reads⟩ := fits_phrase (k := 0) rfl isExpr
      obtain ⟨b, t, rfl, endTokens, endPiece, terminal⟩ := fits_word isEnd
      have whole := ih others (.snoc before reads (isSemicolon terminal))
      simpa [piece, endTokens, endPiece, Piece.gather] using whole
    · obtain ⟨b, t, rfl, endTokens, endPiece, terminal⟩ := fits_word isSkip
      have whole := ih others (.skip before (isSemicolon terminal))
      simpa [endTokens, endPiece, Piece.gather] using whole

/-- The parts make up a phrase that stands for something. -/
def Compose (c : Category) (xs : List Part) : Prop :=
  ∃ q, Piece.build? c (xs.map piece) = some q ∧ Stands (.phrase c) (xs.flatMap tokens) q

theorem compose_same {c d : Category} {i k : Nat} (rank : c.rank? = some k)
    (rank' : d.rank? = some i) (looser : i ≤ k)
    (build : ∀ n, Piece.build? d [.node n] = some (.node n))
    (fits : xs.map symbol ∈ (phrase c).matches') : Compose d xs := by
  obtain ⟨x, n, rfl, piece, reads⟩ := fits_phrase rank fits
  refine ⟨.node n, ?_, .phrase rank' ?_⟩
  · rw [List.map_singleton, piece, build]
  · simpa using Reads.weaken looser reads

theorem compose_chain (level : Level) {c d : Category} {k : Nat}
    (leftward : level.before = level.result) (rank : c.rank? = some level.behind)
    (rank' : d.rank? = some k) (looser : k ≤ level.result)
    (build : ∀ first rest, Piece.build? d (.node first :: rest) =
      (Piece.chain? first rest).map .node)
    (fits : xs.map symbol ∈ (chain c level.operators).matches') : Compose d xs := by
  obtain ⟨as, bs, rfl, isFirst, links⟩ := fits_mul fits
  obtain ⟨a, first, rfl, piece, reads⟩ := fits_phrase rank isFirst
  obtain ⟨groups, rfl, each⟩ := fits_star links
  have tighter : level.result ≤ level.behind := by cases level <;> decide
  obtain ⟨n, meaning, whole⟩ := read_links leftward rank each (.weaken tighter reads)
  refine ⟨.node n, ?_, .phrase rank' ?_⟩
  · rw [List.map_append, List.map_singleton, piece, List.singleton_append, build, meaning]
    rfl
  · simpa using Reads.weaken looser whole

theorem compose_assignment
    (fits : xs.map symbol ∈
      (word .letWord * word .identifier * word .equal * phrase .expr).matches') :
    Compose .expr xs := by
  obtain ⟨as, ds, rfl, front, isValue⟩ := fits_mul fits
  obtain ⟨as, cs, rfl, front, isEquals⟩ := fits_mul front
  obtain ⟨as, bs, rfl, isLet, isName⟩ := fits_mul front
  obtain ⟨a, letToken, rfl, letTokens, letPiece, letTerminal⟩ := fits_word isLet
  obtain ⟨b, name, rfl, nameTokens, namePiece, nameTerminal⟩ := fits_word isName
  obtain ⟨c, equals, rfl, equalsTokens, equalsPiece, equalsTerminal⟩ := fits_word isEquals
  obtain ⟨d, value, rfl, valuePiece, reads⟩ := fits_phrase (k := 0) rfl isValue
  refine ⟨.node (.bind name value), ?_, .phrase (k := 0) rfl ?_⟩
  · simp only [List.map_append, List.map_singleton, letPiece, namePiece, equalsPiece, valuePiece]
    rfl
  · have whole := Reads.assignment (Token.terminal_eq_letWord_iff.mp letTerminal)
      ((Token.terminal_eq_iff (by decide) (by decide)).mp nameTerminal)
      ((Token.terminal_eq_iff (by decide) (by decide)).mp equalsTerminal) reads
    simpa [letTokens, nameTokens, equalsTokens] using whole

theorem compose_negation (fits : xs.map symbol ∈ (word .bang * phrase .comparison).matches') :
    Compose .comparison xs := by
  obtain ⟨as, bs, rfl, isOp, isOperand⟩ := fits_mul fits
  obtain ⟨a, op, rfl, opTokens, opPiece, terminal⟩ := fits_word isOp
  obtain ⟨b, n, rfl, piece, reads⟩ := fits_phrase (k := 2) rfl isOperand
  refine ⟨.node (.apply op n), ?_, .phrase (k := 2) rfl ?_⟩
  · simp only [List.map_append, List.map_singleton, opPiece, piece]
    rfl
  · have isBang := (Token.terminal_eq_iff (by decide) (by decide)).mp terminal
    simpa [opTokens] using Reads.negation isBang reads

theorem compose_sign (fits : xs.map symbol ∈ (oneOf [.plus, .minus] * phrase .factor).matches') :
    Compose .factor xs := by
  obtain ⟨op, ts, n, member, reads, tokens, pieces⟩ := fits_prefixed (k := 6) rfl fits
  have isSign : op.isSign := by
    rcases List.mem_pair.mp member with isPlus | isMinus
    · exact .inl ((Token.terminal_eq_iff (by decide) (by decide)).mp isPlus)
    · exact .inr ((Token.terminal_eq_iff (by decide) (by decide)).mp isMinus)
  refine ⟨.node (.apply op n), by rw [pieces]; rfl, .phrase (k := 6) rfl ?_⟩
  rw [tokens]
  exact .sign isSign reads

theorem compose_call
    (fits : xs.map symbol ∈
      (phrase .atom * (word .leftParen * items * word .rightParen)).matches') :
    Compose .call xs := by
  obtain ⟨as, bs, rfl, isAtom, isSuffix⟩ := fits_mul fits
  obtain ⟨a, callee, rfl, piece, reads⟩ := fits_phrase (k := 8) rfl isAtom
  obtain ⟨l, r, ts, args, rest, opener, closer, inner, tokens, pieces, closed⟩ :=
    read_brackets isSuffix
  refine ⟨.node (.invoke callee args r), ?_, .phrase (k := 7) rfl ?_⟩
  · rw [List.map_append, List.map_singleton, piece, pieces]
    show (Piece.closed? rest).map _ = _
    rw [closed]
    rfl
  · have whole := Reads.call reads ((Token.terminal_eq_iff (by decide) (by decide)).mp opener) inner
      ((Token.terminal_eq_iff (by decide) (by decide)).mp closer)
    simpa [tokens] using whole

theorem compose_list (fits : xs.map symbol ∈ (refined .list).matches') : Compose .list xs := by
  obtain ⟨l, r, ts, elements, rest, opener, closer, inner, tokens, pieces, closed⟩ :=
    read_brackets fits
  refine ⟨.node (.enumerate l elements r), ?_, .phrase (k := 8) rfl ?_⟩
  · rw [pieces]
    show (Piece.closed? rest).map _ = _
    rw [closed]
    rfl
  · rw [tokens]
    exact .list ((Token.terminal_eq_iff (by decide) (by decide)).mp opener) inner
      ((Token.terminal_eq_iff (by decide) (by decide)).mp closer)

theorem compose_literal
    (fits : xs.map symbol ∈ (oneOf [.number, .string, .identifier]).matches') :
    Compose .atom xs := by
  obtain ⟨x, ⟨kind, value, span⟩, rfl, tokens, piece, member⟩ := fits_ops fits
  simp only [Compose, List.map_singleton, piece, List.flatMap_singleton, tokens]
  simp only [List.mem_cons, List.not_mem_nil, or_false] at member
  rcases member with terminal | terminal | terminal
  · obtain rfl : kind = .number := (Token.terminal_eq_iff (by decide) (by decide)).mp terminal
    exact ⟨.node (.ofNumber _), rfl, .phrase (k := 8) rfl (.number rfl)⟩
  · obtain rfl : kind = .string := (Token.terminal_eq_iff (by decide) (by decide)).mp terminal
    exact ⟨.node (.ofString _), rfl, .phrase (k := 8) rfl (.string rfl)⟩
  · obtain rfl : kind = .identifier := (Token.terminal_eq_iff (by decide) (by decide)).mp terminal
    exact ⟨.node (.ofIdentifier _), rfl, .phrase (k := 8) rfl (.identifier rfl)⟩

theorem compose_group
    (fits : xs.map symbol ∈ (word .leftParen * phrase .expr * word .rightParen).matches') :
    Compose .atom xs := by
  obtain ⟨as, cs, rfl, front, isCloser⟩ := fits_mul fits
  obtain ⟨as, bs, rfl, isOpener, isInner⟩ := fits_mul front
  obtain ⟨a, l, rfl, openerTokens, openerPiece, opener⟩ := fits_word isOpener
  obtain ⟨b, n, rfl, piece, reads⟩ := fits_phrase (k := 0) rfl isInner
  obtain ⟨c, r, rfl, closerTokens, closerPiece, closer⟩ := fits_word isCloser
  refine ⟨.node n, ?_, .phrase (k := 8) rfl ?_⟩
  · simp only [List.map_append, List.map_singleton, openerPiece, piece, closerPiece]
    rfl
  · have whole := Reads.group ((Token.terminal_eq_iff (by decide) (by decide)).mp opener) reads
      ((Token.terminal_eq_iff (by decide) (by decide)).mp closer)
    simpa [openerTokens, closerTokens] using whole

theorem compose_power (fits : xs.map symbol ∈ (refined .power).matches') : Compose .power xs := by
  obtain ⟨as, bs, rfl, isBase, isExponent⟩ := fits_mul fits
  obtain ⟨a, base, rfl, piece, reads⟩ := fits_phrase (k := 7) rfl isBase
  rcases isExponent with isEmpty | isExponent
  · obtain rfl : bs = [] := List.map_eq_nil_iff.mp isEmpty
    refine ⟨.node base, ?_, .phrase (k := 6) rfl ?_⟩
    · rw [List.append_nil, List.map_singleton, piece]
      rfl
    · simpa using Reads.weaken (Nat.le_succ 6) reads
  · obtain ⟨bs, cs, rfl, isOp, isFactor⟩ := fits_mul isExponent
    obtain ⟨b, op, rfl, opTokens, opPiece, terminal⟩ := fits_word isOp
    obtain ⟨c, exponent, rfl, exponentPiece, second⟩ := fits_phrase (k := 6) rfl isFactor
    have operator : Level.ofToken? op = some .power :=
      Level.ofToken?_eq_some_iff.mpr (List.mem_singleton.mpr terminal)
    refine ⟨.node (.combine base op exponent), ?_, .phrase (k := 6) rfl ?_⟩
    · simp only [List.map_append, List.map_singleton, piece, opPiece, exponentPiece]
      rfl
    · have whole : Reads 6 _ _ := .binary operator reads second
      simpa [opTokens] using whole

/-- The parts of a phrase stand for something; powers depend on the grammar. -/
theorem compose {power : RegularExpression Symbol} {c : Category} (notPower : c ≠ .power)
    (fits : xs.map symbol ∈ (productions power c).matches') : Compose c xs := by
  cases c with
  | statements =>
    obtain ⟨groups, rfl, each⟩ := fits_star fits
    exact ⟨_, rfl, .statements (read_statements each .nil)⟩
  | expr =>
    rcases fits with isAssignment | isLogic
    · exact compose_assignment isAssignment
    · exact compose_same rfl rfl (Nat.zero_le 1) (fun _ => rfl) isLogic
  | logic => exact compose_chain .logic rfl rfl rfl (Nat.le_refl 1) (fun _ _ => rfl) fits
  | comparison =>
    rcases fits with isNegation | isChain
    · exact compose_negation isNegation
    · exact compose_chain .relation rfl rfl rfl (Nat.le_succ 2) (fun _ _ => rfl) isChain
  | arithmetic => exact compose_chain .sum rfl rfl rfl (Nat.le_refl 4) (fun _ _ => rfl) fits
  | term => exact compose_chain .product rfl rfl rfl (Nat.le_refl 5) (fun _ _ => rfl) fits
  | factor =>
    rcases fits with isSign | isPower
    · exact compose_sign isSign
    · exact compose_same rfl rfl (Nat.le_refl 6) (fun _ => rfl) isPower
  | power => contradiction
  | call =>
    obtain ⟨as, bs, rfl, isAtom, isSuffix⟩ := fits_mul fits
    rcases isSuffix with isEmpty | isSuffix
    · obtain rfl : bs = [] := List.map_eq_nil_iff.mp isEmpty
      rw [List.append_nil]
      exact compose_same rfl rfl (Nat.le_succ 7) (fun _ => rfl) isAtom
    · refine compose_call ?_
      rw [List.map_append]
      exact ⟨_, isAtom, _, isSuffix, rfl⟩
  | atom =>
    rcases fits with (isLiteral | isGroup) | isList
    · exact compose_literal isLiteral
    · exact compose_group isGroup
    · exact compose_same rfl rfl (Nat.le_refl 8) (fun _ => rfl) isList
  | list => exact compose_list fits

/-- Exponents go on with the factor that they follow. -/
theorem reads_of_exponents {groups : List (List Part)}
    (each : ∀ ys ∈ groups, ys.map symbol ∈ (word .power * phrase .factor).matches')
    {us : List Token} {base : Node} (reads : Reads 6 us base) :
    ∃ n, Reads 6 (us ++ groups.flatten.flatMap tokens) n := by
  induction groups generalizing us base with
  | nil => exact ⟨base, by simpa using reads⟩
  | cons ys groups ih =>
    obtain ⟨here, others⟩ := List.forall_mem_cons.mp each
    obtain ⟨bs, cs, rfl, isOp, isFactor⟩ := fits_mul here
    obtain ⟨b, op, rfl, opTokens, opPiece, terminal⟩ := fits_word isOp
    obtain ⟨c, exponent, rfl, exponentPiece, second⟩ := fits_phrase (k := 6) rfl isFactor
    have operator : Level.ofToken? op = some .power :=
      Level.ofToken?_eq_some_iff.mpr (List.mem_singleton.mpr terminal)
    obtain ⟨raised, more⟩ := reads.raise operator second (Nat.le_refl 6)
    obtain ⟨n, whole⟩ := ih others more
    exact ⟨n, by simpa [opTokens] using whole⟩

theorem reads_of_documented_power (fits : xs.map symbol ∈ (documented .power).matches') :
    ∃ n, Reads 6 (xs.flatMap tokens) n := by
  obtain ⟨as, bs, rfl, isBase, links⟩ := fits_mul fits
  obtain ⟨a, base, rfl, piece, reads⟩ := fits_phrase (k := 7) rfl isBase
  obtain ⟨groups, rfl, each⟩ := fits_star links
  obtain ⟨n, whole⟩ := reads_of_exponents each (.weaken (Nat.le_succ 6) reads)
  exact ⟨n, by simpa using whole⟩

end Part

theorem exists_parts {M : Tree → Piece → Prop} {ds : List Tree}
    (each : ∀ d ∈ ds, ∃ q, M d q ∧ Stands d.symbol d.tokens q) :
    ∃ xs : List Part, xs.map Part.symbol = ds.map Tree.symbol ∧
      xs.flatMap Part.tokens = Tree.allTokens ds ∧ List.Forall₂ M ds (xs.map Part.piece) := by
  induction ds with
  | nil => exact ⟨[], rfl, rfl, .nil⟩
  | cons d ds ih =>
    obtain ⟨⟨q, here, stands⟩, others⟩ := List.forall_mem_cons.mp each
    obtain ⟨xs, symbols, tokens, pieces⟩ := ih others
    refine ⟨⟨d.symbol, d.tokens, q, stands⟩ :: xs, ?_, ?_, .cons here pieces⟩
    · rw [List.map_cons, List.map_cons, symbols]
    · rw [List.flatMap_cons, Tree.allTokens, tokens]

theorem pieces?_eq_some {ds : List Tree} {ps : List Piece}
    (pieces : List.Forall₂ (fun d q => d.piece? = some q) ds ps) :
    Tree.pieces? ds = some ps := by
  induction pieces with
  | nil => rfl
  | cons here _ ih => rw [Tree.pieces?, here, ih]; rfl

theorem stands_of_refined {d : Tree} (valid : d.Valid refined) :
    ∃ q, d.piece? = some q ∧ Stands d.symbol d.tokens q := by
  induction valid with
  | leaf t => exact ⟨.token t, rfl, .word t⟩
  | @node c parts fits _ ih =>
    obtain ⟨xs, symbols, tokens, pieces⟩ := exists_parts ih
    rw [← symbols] at fits
    have composed : Part.Compose c xs := by
      by_cases isPower : c = .power
      · subst isPower
        exact Part.compose_power fits
      · exact Part.compose isPower fits
    obtain ⟨q, meaning, stands⟩ := composed
    refine ⟨q, ?_, ?_⟩
    · rw [Tree.piece?, pieces?_eq_some pieces, Option.bind_some, meaning]
    · rw [Tree.tokens, ← tokens]
      exact stands

theorem stands_of_documented {d : Tree} (valid : d.Valid documented) :
    ∃ q, True ∧ Stands d.symbol d.tokens q := by
  induction valid with
  | leaf t => exact ⟨.token t, trivial, .word t⟩
  | @node c parts fits _ ih =>
    obtain ⟨xs, symbols, tokens, -⟩ := exists_parts ih
    rw [← symbols] at fits
    rw [Tree.tokens, ← tokens]
    by_cases isPower : c = .power
    · subst isPower
      obtain ⟨n, reads⟩ := Part.reads_of_documented_power fits
      exact ⟨.node n, trivial, .phrase (k := 6) rfl reads⟩
    · obtain ⟨q, -, stands⟩ := Part.compose isPower fits
      exact ⟨q, trivial, stands⟩

end SceneScript.Ebnf
