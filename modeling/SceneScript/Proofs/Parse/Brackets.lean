import Mathlib.Data.List.Induction
import SceneScript.Proofs.Parse.Soundness

/-!
What the parser by precedence remembers of the tokens that it has read, as far as it matters for
what may follow: its frames know which brackets are open, and its focus what the last token was.
-/

namespace SceneScript

namespace Token

/-- The last token of an operand. -/
def EndsOperand (t : Token) : Prop :=
  t.kind ∈ [.number, .string, .identifier, .rightParen, .rightSquare]

/-- An operator, the sign of an assignment, a comma or an opening bracket. -/
def WantsOperand (t : Token) : Prop :=
  t.kind ∈ [.plus, .minus, .star, .slash, .power, .bang, .equalEqual, .notEqual, .lessThan,
    .lessThanEqual, .greaterThan, .greaterThanEqual, .equal, .comma, .leftParen, .leftSquare] ∨
  t.kind = .keyword ∧ (t.value = .string "and" ∨ t.value = .string "or")

instance (t : Token) : Decidable t.EndsOperand :=
  inferInstanceAs (Decidable (t.kind ∈ [.number, .string, .identifier, .rightParen, .rightSquare]))

variable {t : Token}

theorem wantsOperand_of_level {level : Level} (operator : Level.ofToken? t = some level) :
    t.WantsOperand := by
  unfold Level.ofToken? at operator
  unfold WantsOperand
  cases kind : t.kind <;> simp_all

theorem EndsOperand.not_isLet (ends : t.EndsOperand) : ¬ t.isLet := by
  intro isLet
  simp [EndsOperand, isLet.1] at ends

theorem WantsOperand.not_isLet (wants : t.WantsOperand) : ¬ t.isLet := by
  intro isLet
  simp [WantsOperand, isLet.1, isLet.2] at wants

theorem WantsOperand.not_endsOperand (wants : t.WantsOperand) : ¬ t.EndsOperand := by
  unfold WantsOperand at wants
  unfold EndsOperand
  cases kind : t.kind <;> simp_all

end Token

/-- The brackets that are open behind a token, if the given ones are in front of it. A parenthesis
    right behind an operand belongs to a call. -/
def Bracket.behind (last : Option Token) (opened : List Bracket) (t : Token) : List Bracket :=
  match t.kind with
  | .leftParen => (if ∃ l ∈ last, l.EndsOperand then .call else .group) :: opened
  | .leftSquare => .list :: opened
  | .rightParen | .rightSquare => opened.tail
  | _ => opened

theorem Bracket.behind_of_level {t : Token} {level : Level}
    (operator : Level.ofToken? t = some level) (last : Option Token) (opened : List Bracket) :
    Bracket.behind last opened t = opened := by
  unfold Level.ofToken? at operator
  unfold Bracket.behind
  cases kind : t.kind <;> simp_all

/-- The brackets that are open behind the tokens, the innermost first. -/
def openBrackets (ts : List Token) : List Bracket :=
  (ts.foldl (fun (last, opened) t => (some t, Bracket.behind last opened t)) (none, [])).2

theorem openBrackets_snoc (ts : List Token) (t : Token) :
    openBrackets (ts ++ [t]) = Bracket.behind ts.getLast? (openBrackets ts) t := by
  have last (ts : List Token) : (ts.foldl (fun (last, opened) t =>
      (some t, Bracket.behind last opened t)) ((none, []) : Option Token × List Bracket)).1 =
        ts.getLast? := by
    induction ts using List.reverseRecOn with
    | nil => rfl
    | append_singleton ts t _ => simp
  simp [openBrackets, ← last]

section Frames

/-- Only frames that are no brackets are completed. -/
theorem filterMap_reduceWhile (ends : Frame → Bool) (x : Node) (frames : List Frame) :
    (reduceWhile ends x frames).2.filterMap Frame.bracket? =
      frames.filterMap Frame.bracket? := by
  induction frames generalizing x with
  | nil => rfl
  | cons f frames ih =>
    rw [reduceWhile]
    cases completes : f.complete? x with
    | none => rfl
    | some n =>
      simp only
      split
      · rw [ih, List.filterMap_cons_none (Frame.bracket?_of_complete? completes)]
      · rfl

theorem bracket?_head_reduceWhile (x : Node) (frames : List Frame) :
    ∀ f ∈ (reduceWhile (fun _ => true) x frames).2.head?, f.bracket?.isSome := by
  induction frames generalizing x with
  | nil => simp [reduceWhile]
  | cons f frames ih =>
    rw [reduceWhile]
    cases completes : f.complete? x with
    | some n => exact ih n
    | none =>
      rintro _ ⟨⟩
      cases f <;> first | rfl | cases completes

end Frames

/-- What the last tokens say about the focus behind them. -/
inductive Focus.Behind : List Token → Focus → Prop
  | start : Behind [] .statement
  | statement {ts : List Token} {t : Token} (ends : t.kind = .semicolon) :
      Behind (ts ++ [t]) .statement
  | operand {ts : List Token} {t : Token} (wants : t.WantsOperand) : Behind (ts ++ [t]) .operand
  | item {ts : List Token} {t : Token} (wants : t.WantsOperand) : Behind (ts ++ [t]) .item
  | name {ts : List Token} {t : Token} (isLet : t.isLet) : Behind (ts ++ [t]) .name
  | equals {ts : List Token} {word t : Token} (isLet : word.isLet) (isName : t.kind = .identifier) :
      Behind (ts ++ [word, t]) (.equals t)
  | operator {ts : List Token} {t : Token} {x : Node} {callable : Bool} (ends : t.EndsOperand)
      (other : ∀ l ∈ ts.getLast?, ¬ l.isLet) : Behind (ts ++ [t]) (.operator x callable)

namespace Parser

/-- The brackets that are open, the innermost first. -/
def brackets (p : Parser) : List Bracket := p.frames.filterMap Frame.bracket?

theorem openBracket?_eq_head? (p : Parser) : openBracket? p.frames = p.brackets.head? := by
  rw [openBracket?, brackets, List.head?_filterMap]

variable {p q : Parser} {t : Token} {ts : List Token}

theorem behind_startOperand (other : ∀ l ∈ ts.getLast?, ¬ l.isLet)
    (fresh : ∀ l ∈ ts.getLast?, ¬ l.EndsOperand) (stepped : p.startOperand t = .ok q) :
    Focus.Behind (ts ++ [t]) q.focus ∧ q.brackets = Bracket.behind ts.getLast? p.brackets t := by
  have starts := p.starts t
  rw [stepped] at starts
  unfold Bracket.behind
  cases starts with
  | number kind | string kind | identifier kind =>
    rw [kind]
    exact ⟨.operator (by simp [Token.EndsOperand, kind]) other, rfl⟩
  | group kind =>
    have group : ¬ ∃ l ∈ ts.getLast?, l.EndsOperand := fun ⟨l, last, ends⟩ => fresh l last ends
    simp only [kind, if_neg group]
    exact ⟨.operand (by simp [Token.WantsOperand, kind]), rfl⟩
  | list kind =>
    rw [kind]
    exact ⟨.item (by simp [Token.WantsOperand, kind]), rfl⟩
  | sign isSign =>
    rcases isSign with kind | kind
    all_goals
      rw [kind]
      exact ⟨.operand (by simp [Token.WantsOperand, kind]), rfl⟩
  | negate kind admitted =>
    rw [kind]
    exact ⟨.operand (by simp [Token.WantsOperand, kind]), rfl⟩
  | name isLet admitted =>
    rw [isLet.1]
    exact ⟨.name isLet, rfl⟩

theorem behind_startItem (other : ∀ l ∈ ts.getLast?, ¬ l.isLet)
    (fresh : ∀ l ∈ ts.getLast?, ¬ l.EndsOperand) (stepped : p.startItem t = .ok q) :
    Focus.Behind (ts ++ [t]) q.focus ∧ q.brackets = Bracket.behind ts.getLast? p.brackets t := by
  unfold startItem at stepped
  split at stepped
  case h_1 top | h_2 top =>
    split at stepped
    · rename_i kind
      cases stepped
      refine ⟨.operator (by simp [Token.EndsOperand, kind]) other, ?_⟩
      simp only [Bracket.behind, kind, brackets, top]
      rfl
    · exact behind_startOperand other fresh stepped
  case h_3 => exact behind_startOperand other fresh stepped

theorem behind_endPart (other : ∀ l ∈ ts.getLast?, ¬ l.isLet) {part : Node} {frames : List Frame}
    (isBracket : ∀ f ∈ frames.head?, f.bracket?.isSome) (last : Option Token)
    (stepped : p.endPart part frames t = .ok q) :
    Focus.Behind (ts ++ [t]) q.focus ∧
      q.brackets = Bracket.behind last (frames.filterMap Frame.bracket?) t := by
  have closes (kind : t.kind = .rightParen ∨ t.kind = .rightSquare) : t.EndsOperand := by
    rcases kind with kind | kind <;> simp [Token.EndsOperand, kind]
  have goesOn (kind : t.kind = .comma) : t.WantsOperand := by simp [Token.WantsOperand, kind]
  have ends := p.endsPart part t isBracket
  rw [stepped] at ends
  unfold Bracket.behind
  cases ends with
  | group kind | call kind =>
    rw [kind]
    exact ⟨.operator (closes (.inl kind)) other, rfl⟩
  | list kind =>
    rw [kind]
    exact ⟨.operator (closes (.inr kind)) other, rfl⟩
  | argument kind | element kind =>
    rw [kind]
    exact ⟨.operand (goesOn kind), rfl⟩
  | statement kind =>
    rw [kind]
    exact ⟨.statement kind, rfl⟩

theorem behind_afterOperand {last : Token} (isLast : last ∈ ts.getLast?) (ends : last.EndsOperand)
    {x : Node} {callable : Bool} (stepped : p.afterOperand x callable t = .ok q) :
    Focus.Behind (ts ++ [t]) q.focus ∧ q.brackets = Bracket.behind ts.getLast? p.brackets t := by
  have other : ∀ l ∈ ts.getLast?, ¬ l.isLet := by
    intro l isLast'
    obtain rfl := Option.mem_unique isLast isLast'
    exact ends.not_isLet
  unfold afterOperand at stepped
  split at stepped
  · rename_i opens
    cases stepped
    have call : ∃ l ∈ ts.getLast?, l.EndsOperand := ⟨last, isLast, ends⟩
    simp only [Bracket.behind, opens.1, if_pos call]
    exact ⟨.item (by simp [Token.WantsOperand, opens.1]), rfl⟩
  · split at stepped
    · rename_i level operator
      cases stepped
      refine ⟨.operand (Token.wantsOperand_of_level operator), ?_⟩
      rw [Bracket.behind_of_level operator]
      exact filterMap_reduceWhile (·.yieldsTo level) x p.frames
    · have top := bracket?_head_reduceWhile x p.frames
      have kept := behind_endPart other top ts.getLast? stepped
      rwa [filterMap_reduceWhile] at kept

theorem behind_step (behind : Focus.Behind ts p.focus) (stepped : p.step t = .ok q) :
    Focus.Behind (ts ++ [t]) q.focus ∧ q.brackets = Bracket.behind ts.getLast? p.brackets t := by
  unfold step at stepped
  generalize focus : p.focus = before at behind stepped
  cases behind with
  | start =>
    simp only at stepped
    split at stepped
    · rename_i kind
      cases stepped
      rw [focus, Bracket.behind, kind]
      exact ⟨.statement kind, rfl⟩
    · exact behind_startOperand (by simp) (by simp) stepped
  | @statement ts l ends =>
    simp only at stepped
    split at stepped
    · rename_i kind
      cases stepped
      rw [focus, Bracket.behind, kind]
      exact ⟨.statement kind, rfl⟩
    · refine behind_startOperand ?_ ?_ stepped
      · simp [Token.isLet, ends]
      · simp [Token.EndsOperand, ends]
  | operand wants =>
    exact behind_startOperand (by simpa using wants.not_isLet)
      (by simpa using wants.not_endsOperand) stepped
  | item wants =>
    exact behind_startItem (by simpa using wants.not_isLet)
      (by simpa using wants.not_endsOperand) stepped
  | @name ts word isLet =>
    simp only at stepped
    split at stepped
    · rename_i kind
      cases stepped
      rw [List.append_assoc, Bracket.behind, kind]
      exact ⟨.equals isLet kind, rfl⟩
    · cases stepped
  | equals isLet isName =>
    simp only at stepped
    split at stepped
    · rename_i kind
      cases stepped
      rw [Bracket.behind, kind]
      exact ⟨.operand (by simp [Token.WantsOperand, kind]), rfl⟩
    · cases stepped
  | operator ends other => exact behind_afterOperand (by simp) ends stepped

/-- What the parser knows about the tokens that it has read. -/
structure Recalls (p : Parser) (ts : List Token) : Prop where
  focus : Focus.Behind ts p.focus
  brackets : p.brackets = openBrackets ts

theorem Recalls.step (recalls : p.Recalls ts) (stepped : p.step t = .ok q) :
    q.Recalls (ts ++ [t]) := by
  obtain ⟨focus, brackets⟩ := behind_step recalls.focus stepped
  refine ⟨focus, ?_⟩
  rw [brackets, recalls.brackets, openBrackets_snoc]

theorem Recalls.run {us : List Token} (recalls : p.Recalls ts) (ran : p.run us = .ok q) :
    q.Recalls (ts ++ us) := by
  induction us generalizing p ts with
  | nil =>
    cases ran
    simpa using recalls
  | cons t us ih =>
    rw [run_cons] at ran
    cases stepped : p.step t with
    | error fault => simp [stepped, bind, Except.bind] at ran
    | ok r =>
      simp only [stepped, bind, Except.bind] at ran
      simpa using ih (recalls.step stepped) ran

theorem recalls_initial : initial.Recalls [] := ⟨.start, rfl⟩

end Parser

end SceneScript
