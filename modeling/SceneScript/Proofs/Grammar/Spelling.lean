import SceneScript.Proofs.Grammar.Readings

/-!
Every reading has a derivation by the rules of the grammar.
-/

namespace SceneScript.Grammar

/-- Lexemes with these tokens can be derived from the symbols. -/
def Yields (lines : LineIndex) (symbols : List Symbol) (ts : List Token) : Prop :=
  ∀ ls : List Lexeme, ls.map (·.toToken lines) = ts → Proper lines ls →
    ∃ ds : List Derivation, (∀ d ∈ ds, d.Valid rules) ∧ ds.map Derivation.symbol = symbols ∧
      Derivation.allLexemes ds = ls

namespace Yields

variable {lines : LineIndex} {xs ys : List Symbol} {ts us : List Token}

theorem nil : Yields lines [] [] := by
  intro ls tokens _
  obtain rfl := List.map_eq_nil_iff.mp tokens
  exact ⟨[], by simp, rfl, rfl⟩

theorem append (first : Yields lines xs ts) (second : Yields lines ys us) :
    Yields lines (xs ++ ys) (ts ++ us) := by
  intro ls tokens proper
  obtain ⟨ks, js, rfl, front, back⟩ := List.map_eq_append_iff.mp tokens
  obtain ⟨ds, valid, symbols, lexemes⟩ := first ks front fun l inside =>
    proper l (List.mem_append_left _ inside)
  obtain ⟨es, valid', symbols', lexemes'⟩ := second js back fun l inside =>
    proper l (List.mem_append_right _ inside)
  refine ⟨ds ++ es, List.forall_mem_append.mpr ⟨valid, valid'⟩, ?_, ?_⟩
  · rw [List.map_append, symbols, symbols']
  · rw [Derivation.allLexemes_append, lexemes, lexemes']

theorem word {t : Token} {w : Terminal} (terminal : t.terminal = w) :
    Yields lines [.terminal w] [t] := by
  intro ls tokens proper
  obtain ⟨l, rfl, rfl⟩ := List.map_eq_singleton_iff.mp tokens
  refine ⟨[.leaf l], by simpa using .leaf l, ?_, rfl⟩
  rw [← terminal, proper l List.mem_cons_self]
  rfl

theorem rule {r : Rule} (member : r ∈ rules) (body : Yields lines r.body ts) :
    Yields lines [.nonterminal r.head] ts := by
  intro ls tokens proper
  obtain ⟨ds, valid, symbols, lexemes⟩ := body ls tokens proper
  refine ⟨[.branch r ds], by simpa using .branch member symbols valid, rfl, ?_⟩
  rw [Derivation.allLexemes, Derivation.allLexemes, List.append_nil, Derivation.lexemes, lexemes]

end Yields

def Chained (lines : LineIndex) (operand tail : Nonterminal) (ts : List Token) : Prop :=
  ∃ us vs, ts = us ++ vs ∧ Yields lines [.nonterminal operand] us ∧
    (vs = [] ∨ Yields lines [.nonterminal tail] vs)

namespace Chained

variable {lines : LineIndex} {operand tail : Nonterminal} {ts us : List Token}

theorem single (first : Yields lines [.nonterminal operand] ts) :
    Chained lines operand tail ts :=
  ⟨ts, [], (List.append_nil ts).symm, first, .inl rfl⟩

theorem snoc (meaning : Meaning) {op : Token} {w : Terminal}
    (short : ⟨tail, after w operand, meaning⟩ ∈ rules)
    (long : ⟨tail, .nonterminal tail :: after w operand, meaning⟩ ∈ rules)
    (before : Chained lines operand tail ts) (operator : op.terminal = w)
    (second : Yields lines [.nonterminal operand] us) :
    Chained lines operand tail (ts ++ op :: us) := by
  obtain ⟨first, rest, rfl, isFirst, isRest⟩ := before
  refine ⟨first, rest ++ op :: us, List.append_assoc .., isFirst, .inr ?_⟩
  have link : Yields lines (after w operand) (op :: us) := (Yields.word operator).append second
  rcases isRest with rfl | isTail
  · exact .rule short link
  · exact .rule long (isTail.append link)

theorem operate {op : Token} {ops : List Terminal}
    (members : ∀ r ∈ tailRules tail operand ops, r ∈ rules)
    (before : Chained lines operand tail ts) (operator : op.terminal ∈ ops)
    (second : Yields lines [.nonterminal operand] us) :
    Chained lines operand tail (ts ++ op :: us) := by
  refine before.snoc .tail (members _ ?_) (members _ ?_) rfl second
  · exact List.mem_append_left _ (List.mem_map_of_mem operator)
  · exact List.mem_append_right _ (List.mem_map_of_mem operator)

theorem yields (level : Nonterminal)
    (long : ⟨level, [.nonterminal operand, .nonterminal tail], .chain⟩ ∈ rules)
    (short : ⟨level, [.nonterminal operand], .same⟩ ∈ rules)
    (chained : Chained lines operand tail ts) : Yields lines [.nonterminal level] ts := by
  obtain ⟨first, rest, rfl, isFirst, isRest⟩ := chained
  rcases isRest with rfl | isTail
  · rw [List.append_nil]
    exact .rule short isFirst
  · exact .rule long (isFirst.append isTail)

end Chained

/-- What the tokens of a rank are derived from. -/
def Spelled (lines : LineIndex) : Nat → List Token → Prop
  | 0 => Yields lines [.nonterminal .expr]
  | 1 => Chained lines .comparison .logicTail
  | 2 => Yields lines [.nonterminal .comparison]
  | 3 => Chained lines .sum .relationTail
  | 4 => Chained lines .product .sumTail
  | 5 => Chained lines .factor .productTail
  | 6 => Yields lines [.nonterminal .factor]
  | 7 => Yields lines [.nonterminal .call]
  | 8 => Yields lines [.nonterminal .atom]
  | _ => fun _ => False

namespace Spelled

variable {lines : LineIndex} {ts us : List Token}

theorem loosen {k : Nat} (spelled : Spelled lines (k + 1) ts) : Spelled lines k ts := by
  match k with
  | 0 =>
    have logic := Chained.yields .logic (by decide) (by decide) spelled
    exact .rule (r := ⟨.expr, [.nonterminal .logic], .same⟩) (by decide) logic
  | 1 => exact .single spelled
  | 2 =>
    have relation := Chained.yields .relation (by decide) (by decide) spelled
    exact .rule (r := ⟨.comparison, [.nonterminal .relation], .same⟩) (by decide) relation
  | 3 => exact .single (Chained.yields .sum (by decide) (by decide) spelled)
  | 4 => exact .single (Chained.yields .product (by decide) (by decide) spelled)
  | 5 => exact .single spelled
  | 6 =>
    have power : Yields lines [.nonterminal .power] ts :=
      .rule (r := ⟨.power, [.nonterminal .call], .same⟩) (by decide) spelled
    exact .rule (r := ⟨.factor, [.nonterminal .power], .same⟩) (by decide) power
  | 7 => exact .rule (r := ⟨.call, [.nonterminal .atom], .same⟩) (by decide) spelled
  | k + 8 => exact spelled.elim

theorem weaken {i k : Nat} (looser : i ≤ k) (spelled : Spelled lines k ts) :
    Spelled lines i ts := by
  induction looser with
  | refl => exact spelled
  | step _ ih => exact ih spelled.loosen

theorem further {R : List Token → Node → Prop}
    (exprs : ∀ us n, R us n → Spelled lines 0 us) {ns : List Node} (leading : Leading R ts ns)
    (last : Spelled lines 0 us) : Chained lines .expr .items (ts ++ us) := by
  induction leading generalizing us with
  | nil => exact .single last
  | @snoc ts vs m ns comma _ item separator ih =>
    have terminal : comma.terminal = .comma := Token.terminal_of_kind (by decide) separator
    have whole :=
      (ih (exprs _ _ item)).snoc .gather (by decide) (by decide) terminal last
    simpa using whole

theorem brackets (meaning : Meaning) {R : List Token → Node → Prop}
    (exprs : ∀ us n, R us n → Spelled lines 0 us) {head : Nonterminal} {front : List Symbol}
    {opener closer : Terminal}
    (members : ∀ r ∈ bracketRules head meaning front opener closer, r ∈ rules)
    {us : List Token} {l r : Token} {ns : List Node} (before : Yields lines front us)
    (opens : l.terminal = opener) (items : Items R ts ns) (closes : r.terminal = closer) :
    Yields lines [.nonterminal head] (us ++ (l :: ts ++ [r])) := by
  have build {inner : List Symbol} (known : inner ∈ Part.bracketed opener closer)
      (yields : Yields lines inner (l :: ts ++ [r])) :
      Yields lines [.nonterminal head] (us ++ (l :: ts ++ [r])) :=
    .rule (r := ⟨head, front ++ inner, meaning⟩)
      (members _ (Part.mem_bracketRules.mpr ⟨inner, known, rfl⟩)) (before.append yields)
  have left : Yields lines [.terminal opener] [l] := .word opens
  have right : Yields lines [.terminal closer] [r] := .word closes
  cases items with
  | nil => exact build (by simp [Part.bracketed]) (left.append right)
  | snoc leading item =>
    obtain ⟨first, rest, same, isFirst, isRest⟩ := further exprs leading (exprs _ _ item)
    rw [same] at build ⊢
    rcases isRest with rfl | isItems
    · rw [List.append_nil] at build ⊢
      exact build (by simp [Part.bracketed]) ((left.append isFirst).append right)
    · exact build (by simp [Part.bracketed])
        ((left.append (isFirst.append isItems)).append right)

theorem literal (meaning : Meaning) {t : Token} {w : Terminal} (notKeyword : w.kind ≠ .keyword)
    (member : ⟨.atom, [.terminal w], meaning⟩ ∈ rules) (kind : t.kind = w.kind) :
    Spelled lines 8 [t] :=
  .rule (r := ⟨.atom, [.terminal w], meaning⟩) member
    (.word (Token.terminal_of_kind notKeyword kind))

theorem application {op : Token} {w : Terminal} {head operand : Nonterminal}
    (member : ⟨head, after w operand, .application⟩ ∈ rules) (terminal : op.terminal = w)
    (spelled : Yields lines [.nonterminal operand] ts) :
    Yields lines [.nonterminal head] (op :: ts) :=
  .rule (r := ⟨head, after w operand, .application⟩) member ((Yields.word terminal).append spelled)

theorem of_sign {op : Token} (kind : op.isSign) (spelled : Spelled lines 6 ts) :
    Spelled lines 6 (op :: ts) := by
  have signed : Yields lines [.nonterminal .sign] (op :: ts) := by
    rcases kind with isPlus | isMinus
    · have terminal : op.terminal = .plus := Token.terminal_of_kind (by decide) isPlus
      exact application (by decide) terminal spelled
    · have terminal : op.terminal = .minus := Token.terminal_of_kind (by decide) isMinus
      exact application (by decide) terminal spelled
  exact .rule (r := ⟨.factor, [.nonterminal .sign], .same⟩) (by decide) signed

theorem of_power {op : Token} (operator : op.terminal = .power) (first : Spelled lines 7 ts)
    (second : Spelled lines 6 us) : Spelled lines 6 (ts ++ op :: us) := by
  have body : Yields lines (.nonterminal .call :: after .power .factor) (ts ++ op :: us) :=
    Yields.append first ((Yields.word operator).append second)
  have power : Yields lines [.nonterminal .power] (ts ++ op :: us) :=
    .rule (r := ⟨.power, .nonterminal .call :: after .power .factor, .chain⟩) (by decide)
      body
  exact .rule (r := ⟨.factor, [.nonterminal .power], .same⟩) (by decide) power

theorem of_binary {op : Token} {level : Level} (operator : Level.ofToken? op = some level)
    (first : Spelled lines level.before ts) (second : Spelled lines level.behind us) :
    Spelled lines level.result (ts ++ op :: us) := by
  have member := Level.ofToken?_eq_some_iff.mp operator
  cases level with
  | logic => exact Chained.operate (by decide) first member second
  | relation =>
    exact Chained.operate (by decide) first member
      (Chained.yields .sum (by decide) (by decide) second)
  | sum =>
    exact Chained.operate (by decide) first member
      (Chained.yields .product (by decide) (by decide) second)
  | product => exact Chained.operate (by decide) first member second
  | power => exact of_power (List.mem_singleton.mp member) first second

theorem of_negation {op : Token} (kind : op.kind = .bang) (spelled : Spelled lines 2 ts) :
    Spelled lines 2 (op :: ts) := by
  have terminal : op.terminal = .bang := Token.terminal_of_kind (by decide) kind
  have negation : Yields lines [.nonterminal .negation] (op :: ts) :=
    application (by decide) terminal spelled
  exact .rule (r := ⟨.comparison, [.nonterminal .negation], .same⟩) (by decide) negation

theorem of_assignment {first name equals : Token} (isLet : first.isLet)
    (isName : name.kind = .identifier) (sign : equals.kind = .equal)
    (spelled : Spelled lines 0 ts) : Spelled lines 0 (first :: name :: equals :: ts) := by
  have isIdentifier : name.terminal = .identifier := Token.terminal_of_kind (by decide) isName
  have isEqual : equals.terminal = .equal := Token.terminal_of_kind (by decide) sign
  have front : Yields lines [.terminal .letWord, .terminal .identifier, .terminal .equal]
      [first, name, equals] :=
    (Yields.word (Token.terminal_eq_letWord_iff.mpr isLet)).append
      ((Yields.word isIdentifier).append (.word isEqual))
  have assign : Yields lines [.nonterminal .assign] (first :: name :: equals :: ts) :=
    .rule (r := ⟨.assign, [.terminal .letWord, .terminal .identifier, .terminal .equal,
      .nonterminal .expr], .assignment⟩) (by decide) (front.append spelled)
  exact .rule (r := ⟨.expr, [.nonterminal .assign], .same⟩) (by decide) assign

theorem of_group {l r : Token} (opener : l.kind = .leftParen) (spelled : Spelled lines 0 ts)
    (closer : r.kind = .rightParen) : Spelled lines 8 (l :: ts ++ [r]) := by
  have opens : l.terminal = .leftParen := Token.terminal_of_kind (by decide) opener
  have closes : r.terminal = .rightParen := Token.terminal_of_kind (by decide) closer
  have body : Yields lines [.terminal .leftParen, .nonterminal .expr, .terminal .rightParen]
      (l :: ts ++ [r]) := ((Yields.word opens).append spelled).append (.word closes)
  have group : Yields lines [.nonterminal .group] (l :: ts ++ [r]) :=
    .rule (r := ⟨.group, _, .parenthesised⟩) (by decide) body
  exact .rule (r := ⟨.atom, [.nonterminal .group], .same⟩) (by decide) group

theorem of_reads {k : Nat} {n : Node} (reads : Reads k ts n) : Spelled lines k ts := by
  induction reads with
  | number kind => exact literal .number (w := .number) (by decide) (by decide) kind
  | string kind => exact literal .string (w := .string) (by decide) (by decide) kind
  | identifier kind =>
    exact literal .identifier (w := .identifier) (by decide) (by decide) kind
  | group opener _ closer ih => exact of_group opener ih closer
  | @list l r ts ns opener items closer =>
    have opens : l.terminal = .leftSquare := Token.terminal_of_kind (by decide) opener
    have closes : r.terminal = .rightSquare := Token.terminal_of_kind (by decide) closer
    have list : Yields lines [.nonterminal .list] ([] ++ (l :: ts ++ [r])) :=
      brackets .enumeration (fun _ _ h => h.2) (by decide) .nil opens items closes
    exact .rule (r := ⟨.atom, [.nonterminal .list], .same⟩) (by decide) list
  | @call l r us ts callee args _ opener items closer ih =>
    have opens : l.terminal = .leftParen := Token.terminal_of_kind (by decide) opener
    have closes : r.terminal = .rightParen := Token.terminal_of_kind (by decide) closer
    have invocation : Yields lines [.nonterminal .invocation] (us ++ (l :: ts ++ [r])) :=
      brackets .invocation (fun _ _ h => h.2) (by decide) ih opens items closes
    exact .rule (r := ⟨.call, [.nonterminal .invocation], .same⟩) (by decide) invocation
  | sign kind _ ih => exact of_sign kind ih
  | binary operator _ _ first second => exact of_binary operator first second
  | negation kind _ ih => exact of_negation kind ih
  | assignment isLet isName sign _ ih => exact of_assignment isLet isName sign ih
  | weaken looser _ ih => exact ih.weaken looser

end Spelled

theorem Yields.statements {lines : LineIndex} {ts us : List Token} {symbols : List Symbol}
    (short : ⟨.statements, symbols, .gather⟩ ∈ rules)
    (long : ⟨.statements, .nonterminal .statements :: symbols, .gather⟩ ∈ rules)
    (before : ts = [] ∨ Yields lines [.nonterminal .statements] ts)
    (last : Yields lines symbols us) : Yields lines [.nonterminal .statements] (ts ++ us) := by
  rcases before with rfl | before
  · exact .rule short last
  · exact .rule long (before.append last)

theorem yields_of_statements {lines : LineIndex} {ts : List Token} {body : List Node}
    (statements : Statements (Reads 0) ts body) :
    ts = [] ∨ Yields lines [.nonterminal .statements] ts := by
  induction statements with
  | nil => exact .inl rfl
  | @skip ts ns semicolon _ separator ih =>
    have terminal : semicolon.terminal = .semicolon := Token.terminal_of_kind (by decide) separator
    exact .inr (.statements (by decide) (by decide) ih (.word terminal))
  | @snoc ts us n ns semicolon _ statement separator ih =>
    have terminal : semicolon.terminal = .semicolon := Token.terminal_of_kind (by decide) separator
    have expr : Yields lines [.nonterminal .expr] us := Spelled.of_reads statement
    rw [List.append_assoc]
    exact .inr (.statements (by decide) (by decide) ih
      (expr.append (.word terminal)))

/-- Lexemes whose tokens are statements have a derivation. -/
theorem exists_derivation {lines : LineIndex} {ls : List Lexeme} {body : List Node}
    (proper : Proper lines ls) (statements : Statements (Reads 0) (ls.map (·.toToken lines)) body) :
    ∃ d : Derivation, d.Valid rules ∧ d.symbol = .nonterminal .start ∧ d.lexemes = ls := by
  have start : Yields lines [.nonterminal .start] (ls.map (·.toToken lines)) := by
    rcases yields_of_statements statements with none_left | yields
    · rw [none_left]
      exact .rule (r := ⟨.start, [], .gather⟩) (by decide) .nil
    · exact .rule (r := ⟨.start, [.nonterminal .statements], .gather⟩) (by decide) yields
  obtain ⟨ds, valid, symbols, lexemes⟩ := start ls rfl proper
  obtain ⟨d, rfl, isStart⟩ := List.map_eq_singleton_iff.mp symbols
  refine ⟨d, valid d List.mem_cons_self, isStart, ?_⟩
  rwa [Derivation.allLexemes, Derivation.allLexemes, List.append_nil] at lexemes

end SceneScript.Grammar
