import SceneScript.Proofs.Ebnf.Readings

/-!
Every reading has a derivation in the refined grammar: the tokens of each rank are spelled by a
regular expression over its categories.
-/

namespace SceneScript.Ebnf

open Grammar (Terminal)

/-- Trees whose symbols match the expression have these tokens. -/
def Spells (p : RegularExpression Symbol) (ts : List Token) : Prop :=
  ∃ ds : List Tree, (∀ d ∈ ds, d.Valid refined) ∧ ds.map Tree.symbol ∈ p.matches' ∧
    Tree.allTokens ds = ts

namespace Spells

variable {p q : RegularExpression Symbol} {ts us : List Token} {t : Token}

theorem one : Spells 1 [] := ⟨[], by simp, rfl, rfl⟩

theorem left (spells : Spells p ts) : Spells (p + q) ts := by
  obtain ⟨ds, valid, fits, tokens⟩ := spells
  exact ⟨ds, valid, .inl fits, tokens⟩

theorem right (spells : Spells q ts) : Spells (p + q) ts := by
  obtain ⟨ds, valid, fits, tokens⟩ := spells
  exact ⟨ds, valid, .inr fits, tokens⟩

theorem mul (first : Spells p ts) (second : Spells q us) : Spells (p * q) (ts ++ us) := by
  obtain ⟨ds, valid, fits, rfl⟩ := first
  obtain ⟨es, valid', fits', rfl⟩ := second
  refine ⟨ds ++ es, List.forall_mem_append.mpr ⟨valid, valid'⟩, ?_, Tree.allTokens_append ds es⟩
  rw [List.map_append]
  exact ⟨_, fits, _, fits', rfl⟩

theorem star_nil : Spells p.star [] := ⟨[], by simp, Language.nil_mem_kstar _, rfl⟩

theorem star_snoc (before : Spells p.star ts) (last : Spells p us) :
    Spells p.star (ts ++ us) := by
  obtain ⟨ds, valid, fits, tokens⟩ := before.mul last
  have absorbed : p.star.matches' * p.matches' ≤ p.star.matches' := kstar_mul_le_kstar
  exact ⟨ds, valid, absorbed fits, tokens⟩

theorem word {w : Terminal} (terminal : t.terminal = w) : Spells (word w) [t] := by
  subst terminal
  exact ⟨[.leaf t], by simpa using .leaf t, rfl, rfl⟩

theorem oneOf {ws : List Terminal} (member : t.terminal ∈ ws) : Spells (oneOf ws) [t] := by
  induction ws with
  | nil => cases member
  | cons w ws ih =>
    rcases List.mem_cons.mp member with here | there
    · exact (word here).left
    · exact (ih there).right

theorem phrase {c : Category} (spells : Spells (refined c) ts) : Spells (phrase c) ts := by
  obtain ⟨ds, valid, fits, rfl⟩ := spells
  exact ⟨[.node c ds], by simpa using .node fits valid, rfl, List.append_nil _⟩

theorem chain_single {c : Category} {ws : List Terminal} (spells : Spells (refined c) ts) :
    Spells (chain c ws) ts := by
  have whole := spells.phrase.mul (star_nil (p := Ebnf.oneOf ws * Ebnf.phrase c))
  rwa [List.append_nil] at whole

theorem chain_snoc {c : Category} {ws : List Terminal} (before : Spells (chain c ws) ts)
    (operator : t.terminal ∈ ws) (operand : Spells (refined c) us) :
    Spells (chain c ws) (ts ++ t :: us) := by
  obtain ⟨ds, valid, fits, rfl⟩ := before
  obtain ⟨as, bs, rfl, first, links⟩ := fits_mul fits
  obtain ⟨validFirst, validLinks⟩ := List.forall_mem_append.mp valid
  have front : Spells (Ebnf.phrase c) (Tree.allTokens as) := ⟨as, validFirst, first, rfl⟩
  have back : Spells (Ebnf.oneOf ws * Ebnf.phrase c).star (Tree.allTokens bs) :=
    ⟨bs, validLinks, links, rfl⟩
  have whole := front.mul (back.star_snoc ((oneOf operator).mul operand.phrase))
  rw [Tree.allTokens_append, List.append_assoc]
  exact whole

end Spells

/-- What the tokens of a rank look like. Relations are comparisons without a negation. -/
def shape : Nat → RegularExpression Symbol
  | 0 => refined .expr
  | 1 => refined .logic
  | 2 => refined .comparison
  | 3 => chain .arithmetic Level.relation.operators
  | 4 => refined .arithmetic
  | 5 => refined .term
  | 6 => refined .factor
  | 7 => refined .call
  | 8 => refined .atom
  | _ => 0

namespace Spells

variable {ts us : List Token} {n : Node}

theorem power {op : Token} (base : Spells (refined .call) ts) (operator : op.terminal = .power)
    (exponent : Spells (refined .factor) us) : Spells (refined .power) (ts ++ op :: us) :=
  base.phrase.mul ((word operator).mul exponent.phrase).right

theorem loosen {k : Nat} (spells : Spells (shape (k + 1)) ts) : Spells (shape k) ts := by
  match k with
  | 0 => exact spells.phrase.right
  | 1 => exact spells.chain_single
  | 2 => exact spells.right
  | 3 => exact spells.chain_single
  | 4 => exact spells.chain_single
  | 5 => exact spells.chain_single
  | 6 =>
    have whole : Spells (refined .power) (ts ++ []) := spells.phrase.mul one.left
    rw [List.append_nil] at whole
    exact whole.phrase.right
  | 7 =>
    have whole : Spells (refined .call) (ts ++ []) := spells.phrase.mul one.left
    rwa [List.append_nil] at whole
  | k + 8 =>
    obtain ⟨ds, _, fits, _⟩ := spells
    exact absurd fits (Language.notMem_zero _)

theorem weaken {i k : Nat} (looser : i ≤ k) (spells : Spells (shape k) ts) :
    Spells (shape i) ts := by
  induction looser with
  | refl => exact spells
  | step _ ih => exact ih spells.loosen

def Exprs (R : List Token → Node → Prop) : Prop := ∀ us n, R us n → Spells (shape 0) us

theorem further {R : List Token → Node → Prop} (exprs : Exprs R) {ns : List Node}
    (leading : Leading R ts ns) (last : Spells (shape 0) us) :
    Spells (chain .expr [.comma]) (ts ++ us) := by
  induction leading generalizing us with
  | nil => exact last.chain_single
  | @snoc ts vs m ns comma _ item separator ih =>
    have terminal : comma.terminal ∈ [Terminal.comma] :=
      List.mem_singleton.mpr (Token.terminal_of_kind (by decide) separator)
    have whole := (ih (exprs _ _ item)).chain_snoc terminal last
    simpa using whole

theorem items {R : List Token → Node → Prop} (exprs : Exprs R) {ns : List Node}
    (separated : Items R ts ns) : Spells Ebnf.items ts := by
  cases separated with
  | nil => exact one.left
  | snoc leading item => exact (further exprs leading (exprs _ _ item)).right

theorem brackets {R : List Token → Node → Prop} (exprs : Exprs R) {ns : List Node} {l r : Token}
    {opener closer : Terminal} (opens : l.terminal = opener) (separated : Items R ts ns)
    (closes : r.terminal = closer) :
    Spells (Ebnf.word opener * Ebnf.items * Ebnf.word closer) (l :: ts ++ [r]) :=
  ((word opens).mul (items exprs separated)).mul (word closes)

theorem literal {t : Token} {w : Terminal} (kind : t.kind = w.kind)
    (member : w ∈ [Terminal.number, .string, .identifier]) : Spells (refined .atom) [t] := by
  have notKeyword : ∀ w ∈ [Terminal.number, .string, .identifier], w.kind ≠ .keyword := by decide
  rw [← Token.terminal_of_kind (notKeyword w member) kind] at member
  exact (oneOf member).left.left

theorem of_reads {k : Nat} (reads : Reads k ts n) : Spells (shape k) ts := by
  induction reads with
  | number kind => exact literal (w := .number) kind (by decide)
  | string kind => exact literal (w := .string) kind (by decide)
  | identifier kind => exact literal (w := .identifier) kind (by decide)
  | @group l r ts n opener _ closer ih =>
    have opens : l.terminal = .leftParen := Token.terminal_of_kind (by decide) opener
    have closes : r.terminal = .rightParen := Token.terminal_of_kind (by decide) closer
    exact (((word opens).mul ih.phrase).mul (word closes)).right.left
  | @list l r ts ns opener items closer =>
    have opens : l.terminal = .leftSquare := Token.terminal_of_kind (by decide) opener
    have closes : r.terminal = .rightSquare := Token.terminal_of_kind (by decide) closer
    have whole : Spells (refined .list) _ := brackets (fun _ _ h => h.2) opens items closes
    exact whole.phrase.right
  | @call l r us ts callee args _ opener items closer ih =>
    have opens : l.terminal = .leftParen := Token.terminal_of_kind (by decide) opener
    have closes : r.terminal = .rightParen := Token.terminal_of_kind (by decide) closer
    exact ih.phrase.mul (brackets (fun _ _ h => h.2) opens items closes).right
  | @sign op ts n kind operand ih =>
    have sign : op.terminal ∈ [Terminal.plus, .minus] := by
      rcases kind with isPlus | isMinus
      · exact List.mem_pair.mpr (.inl (Token.terminal_of_kind (by decide) isPlus))
      · exact List.mem_pair.mpr (.inr (Token.terminal_of_kind (by decide) isMinus))
    exact ((oneOf sign).mul ih.phrase).left
  | @binary op level us ts left right operator _ _ ihl ihr =>
    have member := Level.ofToken?_eq_some_iff.mp operator
    cases level with
    | logic => exact ihl.chain_snoc member ihr
    | relation => exact ihl.chain_snoc member ihr
    | sum => exact ihl.chain_snoc member ihr
    | product => exact ihl.chain_snoc member ihr
    | power => exact (power ihl (List.mem_singleton.mp member) ihr).phrase.right
  | @negation op ts n kind operand ih =>
    have bang : op.terminal = .bang := Token.terminal_of_kind (by decide) kind
    exact ((word bang).mul ih.phrase).left
  | @assignment letToken name equals ts n isLet isName sign _ ih =>
    have isIdentifier : name.terminal = .identifier := Token.terminal_of_kind (by decide) isName
    have isEqual : equals.terminal = .equal := Token.terminal_of_kind (by decide) sign
    have front := (word (Token.terminal_eq_letWord_iff.mpr isLet)).mul (word isIdentifier)
    exact ((front.mul (word isEqual)).mul ih.phrase).left
  | weaken looser _ ih => exact ih.weaken looser

theorem statements {ns : List Node} (body : Statements (Reads 0) ts ns) :
    Spells (refined .statements) ts := by
  induction body with
  | nil => exact star_nil
  | @skip ts ns semicolon _ separator ih =>
    have terminal : semicolon.terminal = .semicolon :=
      Token.terminal_of_kind (by decide) separator
    exact ih.star_snoc (word terminal).right
  | @snoc ts us n ns semicolon _ statement separator ih =>
    have terminal : semicolon.terminal = .semicolon :=
      Token.terminal_of_kind (by decide) separator
    have whole := ih.star_snoc ((of_reads statement).phrase.mul (word terminal)).left
    rwa [← List.append_assoc] at whole

end Spells

theorem derives_of_statements {ts : List Token} {ns : List Node}
    (body : Statements (Reads 0) ts ns) : Derives refined .statements ts := by
  obtain ⟨ds, valid, fits, tokens⟩ := Spells.statements body
  exact ⟨.node .statements ds, .node fits valid, rfl, tokens⟩

theorem statements_of_stands {ts : List Token} {q : Piece}
    (stands : Stands (.phrase .statements) ts q) :
    ∃ ns, q = .nodes ns ∧ Statements (Reads 0) ts ns := by
  cases stands with
  | phrase rank => cases rank
  | statements body => exact ⟨_, rfl, body⟩

theorem matches_documented_of_refined {c : Category} {w : List Symbol}
    (fits : w ∈ (refined c).matches') : w ∈ (documented c).matches' := by
  by_cases isPower : c = .power
  · subst isPower
    -- The refined power has at most one exponent, the documented one any number of them.
    obtain ⟨base, isBase, exponents, atMostOne, rfl⟩ := Language.mem_mul.mp fits
    refine Language.mem_mul.mpr ⟨base, isBase, exponents, ?_, rfl⟩
    rcases Language.mem_add _ _ _ |>.mp atMostOne with none | one
    · rw [Language.mem_one _ |>.mp none]
      exact Language.nil_mem_kstar _
    · have iterated : [exponents].flatten ∈ (word .power * phrase .factor).star.matches' :=
        Language.join_mem_kstar fun e isOne => List.mem_singleton.mp isOne ▸ one
      simpa using iterated
  · have same : refined c = documented c := by cases c <;> first | rfl | contradiction
    exact same ▸ fits

theorem documented_of_refined {d : Tree} (valid : d.Valid refined) : d.Valid documented := by
  induction valid with
  | leaf t => exact .leaf t
  | node fits _ ih => exact .node (matches_documented_of_refined fits) ih

theorem documented_iff_refined (ts : List Token) :
    Derives documented .statements ts ↔ Derives refined .statements ts := by
  constructor
  · rintro ⟨d, valid, isWhole, rfl⟩
    obtain ⟨q, -, stands⟩ := stands_of_documented valid
    rw [isWhole] at stands
    obtain ⟨ns, -, body⟩ := statements_of_stands stands
    exact derives_of_statements body
  · rintro ⟨d, valid, isWhole, tokens⟩
    exact ⟨d, documented_of_refined valid, isWhole, tokens⟩

theorem refined_derives_iff (ts : List Token) :
    Derives refined .statements ts ↔ ∃ body, Statements (Reads 0) ts body := by
  constructor
  · rintro ⟨d, valid, isWhole, rfl⟩
    obtain ⟨q, -, stands⟩ := stands_of_refined valid
    rw [isWhole] at stands
    obtain ⟨ns, -, body⟩ := statements_of_stands stands
    exact ⟨ns, body⟩
  · rintro ⟨body, statements⟩
    exact derives_of_statements statements

end SceneScript.Ebnf
