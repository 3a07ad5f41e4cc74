import SceneScript.Proofs.Parse.Brackets
import SceneScript.Proofs.ValidPrefix

/-!
What the parser by precedence reports where a text ends too early. It depends on the last token and
on the innermost bracket that is open, and behind an operand each word that the report lists is one
with which the text goes on to a program.
-/

namespace SceneScript

open Grammar (Lexeme Proper Terminal)

/-- The end of the report behind an operand. -/
def closersText : Option Bracket → String
  | some .call => "')', ','"
  | some .group => "')'"
  | some .list => "']', ','"
  | none => "';'"

/-- What is reported behind tokens of which the last one is given. -/
inductive Diagnosis (before : List Token) (last : Token) : FaultName → String → Prop
  | name (isLet : last.isLet) : Diagnosis before last .invalidSyntax "Expected identifier"
  | equals {word : Token} (behind : before.getLast? = some word) (isLet : word.isLet)
      (isName : last.kind = .identifier) : Diagnosis before last .invalidSyntax "Expected '='"
  | operand (wants : last.WantsOperand) :
      Diagnosis before last .illegalSyntax "Expected number, identifier, string, '(', '['"
  | operator (other : ∀ word ∈ before.getLast?, ¬ word.isLet) (ends : last.EndsOperand) :
      Diagnosis before last .invalidSyntax
        ("Expected '==', '!=', '<', '<=', '>', '>=', 'and', 'or', " ++
          closersText (openBrackets (before ++ [last])).head?)

theorem Diagnosis.unique {before : List Token} {last : Token} {name name' : FaultName}
    {details details' : String} (first : Diagnosis before last name details)
    (second : Diagnosis before last name' details') : name = name' ∧ details = details' := by
  have notLet (isName : last.kind = .identifier) : ¬ last.isLet := by simp [Token.isLet, isName]
  have wantsNothing (isName : last.kind = .identifier) : ¬ last.WantsOperand := by
    simp [Token.WantsOperand, isName]
  cases first with
  | name isLet =>
    cases second with
    | name => exact ⟨rfl, rfl⟩
    | equals _ _ isName => exact absurd isLet (notLet isName)
    | operand wants => exact absurd isLet wants.not_isLet
    | operator _ ends => exact absurd isLet ends.not_isLet
  | equals behind isLet isName =>
    cases second with
    | name isLet => exact absurd isLet (notLet isName)
    | equals => exact ⟨rfl, rfl⟩
    | operand wants => exact absurd wants (wantsNothing isName)
    | operator other => exact absurd isLet (other _ behind)
  | operand wants =>
    cases second with
    | name isLet => exact absurd isLet wants.not_isLet
    | equals _ _ isName => exact absurd wants (wantsNothing isName)
    | operand => exact ⟨rfl, rfl⟩
    | operator _ ends => exact absurd ends wants.not_endsOperand
  | operator other ends =>
    cases second with
    | name isLet => exact absurd isLet ends.not_isLet
    | equals behind isLet => exact absurd isLet (other _ behind)
    | operand wants => exact absurd ends wants.not_endsOperand
    | operator => exact ⟨rfl, rfl⟩

/-- No diagnosis lists the operators of logic without those of comparison. -/
theorem Diagnosis.details_ne {before : List Token} {last : Token} {name : FaultName}
    {details : String} (diagnosis : Diagnosis before last name details) (bracket : Option Bracket) :
    details ≠ "Expected 'and', 'or', " ++ closersText bracket := by
  intro same
  have chars := congrArg (fun s => s.toList.drop 10) same
  cases diagnosis <;> simp at chars

namespace Expectation

/-- The terminals that are reported behind an operand. -/
def followers (bracket : Option Bracket) : List Terminal :=
  Level.relation.operators ++ Level.logic.operators ++
    match bracket with
    | some .call => [.rightParen, .comma]
    | some .group => [.rightParen]
    | some .list => [.rightSquare, .comma]
    | none => [.semicolon]

theorem spelling_followers (bracket : Option Bracket) :
    (followers bracket).map (fun w => String.ofList w.spelling) =
      continuations ++ terminators bracket := by
  rcases bracket with _ | _ | _ | _ <;> rfl

theorem details_continuation (bracket : Option Bracket) :
    (continuation bracket).details =
      "Expected '==', '!=', '<', '<=', '>', '>=', 'and', 'or', " ++ closersText bracket := by
  rcases bracket with _ | _ | _ | _ <;> rfl

end Expectation

section Followers

open Expectation (followers)

/-- Completing all frames on top leaves the innermost bracket there. -/
theorem bracket?_reduceWhile (x : Node) (frames : List Frame) :
    (reduceWhile (fun _ => true) x frames).2.head?.bind Frame.bracket? =
      (frames.filterMap Frame.bracket?).head? := by
  have top := bracket?_head_reduceWhile x frames
  rw [← filterMap_reduceWhile (fun _ => true) x frames]
  generalize (reduceWhile (fun _ => true) x frames).2 = left at top
  cases left with
  | nil => rfl
  | cons f left =>
    obtain ⟨b, isBracket⟩ := Option.isSome_iff_exists.mp (top f rfl)
    simp [isBracket]

theorem Parser.endPart_of_follower {p : Parser} {part : Node} {frames : List Frame} {t : Token}
    (known : t.terminal ∈ followers (frames.head?.bind Frame.bracket?))
    (notOperator : Level.ofToken? t = none)
    (isBracket : ∀ f ∈ frames.head?, f.bracket?.isSome) : ∃ q, p.endPart part frames t = .ok q := by
  have notIn (level : Level) : t.terminal ∉ level.operators := by
    rw [← Level.ofToken?_eq_some_iff, notOperator]
    simp
  have isCloser := (List.mem_append.mp known).resolve_left (by simp [notIn])
  have kind {w : Terminal} (same : t.terminal = w) (notEnd : w ≠ .endOfText) : t.kind = w.kind := by
    subst same
    exact (t.kind_terminal notEnd).symm
  unfold endPart
  split
  · obtain same : t.terminal = .rightParen := by simpa [Frame.bracket?] using isCloser
    rw [kind same (by decide)]
    exact ⟨_, rfl⟩
  · obtain same | same : t.terminal = .rightParen ∨ t.terminal = .comma := by
      simpa [Frame.bracket?] using isCloser
    all_goals
      rw [kind same (by decide)]
      exact ⟨_, rfl⟩
  · obtain same | same : t.terminal = .rightSquare ∨ t.terminal = .comma := by
      simpa [Frame.bracket?] using isCloser
    all_goals
      rw [kind same (by decide)]
      exact ⟨_, rfl⟩
  · rename_i notGroup notCall notList
    obtain rfl := eq_nil_of_not_bracket isBracket notGroup notCall notList
    obtain same : t.terminal = .semicolon := by simpa using isCloser
    rw [kind same (by decide)]
    exact ⟨_, rfl⟩

theorem Parser.step_of_follower {p : Parser} {x : Node} {callable : Bool} {t : Token}
    (focus : p.focus = .operator x callable) (known : t.terminal ∈ followers p.brackets.head?) :
    ∃ q, p.step t = .ok q := by
  simp only [step, focus, afterOperand]
  split
  · exact ⟨_, rfl⟩
  · split
    · exact ⟨_, rfl⟩
    · rename_i notOperator
      rw [brackets, ← bracket?_reduceWhile x] at known
      exact endPart_of_follower known notOperator (bracket?_head_reduceWhile x p.frames)

end Followers

section Ending

variable {origin : Origin} {stop : Position} {p : Parser}

/-- A text goes on to a program with any terminal that the parser reads behind it. -/
theorem exists_program_behind (finished : (TokenStream.ofOrigin origin).ending = .finished stop)
    (ran : Parser.initial.run (TokenStream.ofOrigin origin).tokens = .ok p) {w : Terminal}
    (inText : w ≠ .endOfText) (reads : ∀ t : Token, t.terminal = w → ∃ q, p.step t = .ok q) :
    ∃ more program,
      parse ⟨origin.file, origin.text ++ "\n" ++ String.ofList w.spelling ++ "\n" ++ more⟩ =
        .ok program := by
  obtain ⟨ls, _, -, proper, tokens, -⟩ :=
    exists_lexemes (List.append_nil (TokenStream.ofOrigin origin).tokens).symm
  obtain ⟨q, stepped⟩ := reads _ (Lexeme.terminal_ofTerminal (.ofOrigin origin) w)
  have ran : Parser.initial.run
      ((ls ++ [w].map Lexeme.ofTerminal).map (·.toToken (.ofOrigin origin))) = .ok q := by
    rw [List.map_append, ← tokens, Parser.run_append_of_ok _ ran]
    exact Parser.run_cons_of_ok [] stepped
  obtain ⟨ws, known, derivable⟩ := exists_derivable_of_run ran (proper_append proper [w])
  have writes := (writes_text finished).join (.word (denotes_spelling inText))
  have terminals : (ls ++ [w].map Lexeme.ofTerminal).map Lexeme.terminal =
      ((TokenStream.ofOrigin origin).tokens.map Token.word ++ [w.word]).map Token.terminalOf := by
    rw [Lexeme.map_terminal_append, List.map_append, Token.map_terminalOf, tokens,
      proper.map_terminal, List.map_singleton, Token.terminalOf_word]
  rw [terminals] at derivable
  obtain ⟨more, program, parsed, -⟩ := writes.exists_program known derivable .precedence origin.file
  refine ⟨String.ofList more, program, ?_⟩
  have text : String.ofList (origin.text.toList ++ '\n' :: w.spelling ++ '\n' :: more) =
      origin.text ++ "\n" ++ String.ofList w.spelling ++ "\n" ++ String.ofList more := by
    apply String.toList_injective
    simp
  rwa [text] at parsed

theorem inText_of_follower {w : Terminal} {bracket : Option Bracket}
    (listed : w ∈ Expectation.followers bracket) : w ≠ .endOfText := by
  rintro rfl
  rcases bracket with _ | _ | _ | _ <;> simp [Expectation.followers, Level.operators] at listed

/-- Behind what the parser has read, it misses what the diagnosis says. -/
theorem diagnosis_of_missing {before : List Token} {last : Token} {expectation : Expectation}
    (recalls : p.Recalls (before ++ [last])) (missing : p.missing? = some expectation)
    (span : Span) : Diagnosis before last (SyntaxFault.report ⟨expectation, span⟩).name
      (SyntaxFault.report ⟨expectation, span⟩).details := by
  obtain ⟨behind, brackets⟩ := recalls
  generalize whole : before ++ [last] = ts at behind
  generalize focus : p.focus = current at behind
  simp only [Parser.missing?, focus] at missing
  cases behind with
  | start | statement => cases missing
  | operand wants | item wants =>
    cases missing
    obtain ⟨rfl, same⟩ := List.append_inj' whole rfl
    cases same
    exact .operand wants
  | name isLet =>
    cases missing
    obtain ⟨rfl, same⟩ := List.append_inj' whole rfl
    cases same
    exact .name isLet
  | @equals ts word t isLet isName =>
    cases missing
    rw [List.append_cons ts] at whole
    obtain ⟨rfl, same⟩ := List.append_inj' whole rfl
    cases same
    exact .equals List.getLast?_concat isLet isName
  | operator ends other =>
    cases missing
    obtain ⟨rfl, same⟩ := List.append_inj' whole rfl
    cases same
    have report := Diagnosis.operator other ends
    rw [← brackets, ← p.openBracket?_eq_head?, ← Expectation.details_continuation] at report
    exact report

theorem Parser.Recalls.operator_of_ends {before : List Token} {last : Token}
    (recalls : p.Recalls (before ++ [last])) (ends : last.EndsOperand)
    (other : ∀ word ∈ before.getLast?, ¬ word.isLet) :
    ∃ x callable, p.focus = .operator x callable := by
  obtain ⟨behind, -⟩ := recalls
  generalize whole : before ++ [last] = ts at behind
  generalize p.focus = current at behind
  cases behind with
  | start => simp at whole
  | statement isEnd =>
    obtain ⟨rfl, same⟩ := List.append_inj' whole rfl
    cases same
    simp [Token.EndsOperand, isEnd] at ends
  | operand wants | item wants =>
    obtain ⟨rfl, same⟩ := List.append_inj' whole rfl
    cases same
    exact absurd ends wants.not_endsOperand
  | name isLet =>
    obtain ⟨rfl, same⟩ := List.append_inj' whole rfl
    cases same
    exact absurd isLet ends.not_isLet
  | @equals ts word t isLet isName =>
    rw [List.append_cons ts] at whole
    obtain ⟨rfl, -⟩ := List.append_inj' whole rfl
    exact absurd isLet (other word List.getLast?_concat)
  | operator => exact ⟨_, _, rfl⟩

/-- A text that is the beginning of a program only is reported at its end, as its last tokens
    and the innermost bracket that is open have it. Behind an operand, each word that the report
    lists is one with which the text goes on to a program. -/
theorem truncated_text_is_diagnosed
    (finished : (TokenStream.ofOrigin origin).ending = .finished stop)
    (admissible : Admissible (TokenStream.ofOrigin origin).tokens)
    (rejected : ∀ program, parse origin ≠ .ok program) :
    ∃ before last fault, (TokenStream.ofOrigin origin).tokens = before ++ [last] ∧
      parse origin = .error fault ∧ fault.report.span = ⟨stop, stop.past⟩ ∧
      (∀ name details, Diagnosis before last name details ↔
        fault.report.name = name ∧ fault.report.details = details) ∧
      (last.EndsOperand → (∀ word ∈ before.getLast?, ¬ word.isLet) →
        ∀ listed ∈ Expectation.continuations ++
            Expectation.terminators (openBrackets (before ++ [last])).head?,
          ∃ more program,
            parse ⟨origin.file, origin.text ++ "\n" ++ listed ++ "\n" ++ more⟩ = .ok program) ∧
      ∀ bracket, fault.report.details ≠ "Expected 'and', 'or', " ++ closersText bracket := by
  obtain ⟨p, ran⟩ := (exists_runs admissible).1
  have parsed := parse_eq_of_run ran
  rw [finished, Parser.finish] at parsed
  have recalls := Parser.recalls_initial.run ran
  rw [List.nil_append] at recalls
  cases missing : p.missing? with
  | none =>
    rw [missing] at parsed
    exact absurd parsed (rejected _)
  | some expectation =>
    rw [missing] at parsed
    obtain empty | ⟨before, last, tokens⟩ :=
      List.eq_nil_or_concat (TokenStream.ofOrigin origin).tokens
    · rw [empty] at ran
      cases ran
      cases missing
    · rw [List.concat_eq_append] at tokens
      rw [tokens] at recalls
      have diagnosis := diagnosis_of_missing recalls missing ⟨stop, stop.past⟩
      refine ⟨before, last, _, tokens, parsed, rfl, fun name details => ⟨diagnosis.unique, ?_⟩, ?_,
        diagnosis.details_ne⟩
      · rintro ⟨rfl, rfl⟩
        exact diagnosis
      · intro ends other listed isListed
        obtain ⟨x, callable, focus⟩ := recalls.operator_of_ends ends other
        rw [← Expectation.spelling_followers] at isListed
        obtain ⟨w, follows, rfl⟩ := List.mem_map.mp isListed
        refine exists_program_behind finished ran (inText_of_follower follows) fun t terminal => ?_
        apply p.step_of_follower focus
        rwa [recalls.brackets, terminal]

/-- A call inside of a list that lacks its end. -/
theorem truncated_call_is_diagnosed :
    ∃ fault, parse ⟨"call", "let x = [f(1, (a)"⟩ = .error fault ∧
      fault.report.details = "Expected '==', '!=', '<', '<=', '>', '>=', 'and', 'or', ')', ','" ∧
      ∃ more program, parse ⟨"call", "let x = [f(1, (a)" ++ "\n" ++ "," ++ "\n" ++ more⟩ =
        .ok program := by
  have finished : (TokenStream.ofOrigin ⟨"call", "let x = [f(1, (a)"⟩).ending =
      .finished ⟨⟨"call", "let x = [f(1, (a)"⟩, 17, 0, 17⟩ := by decide +kernel
  have admissible : Admissible (TokenStream.ofOrigin ⟨"call", "let x = [f(1, (a)"⟩).tokens := by
    decide +kernel
  have refused : (parse ⟨"call", "let x = [f(1, (a)"⟩).toBool = false := by decide +kernel
  have rejected (program : Program) : parse ⟨"call", "let x = [f(1, (a)"⟩ ≠ .ok program := by
    intro parsed
    rw [parsed] at refused
    cases refused
  have kinds : (TokenStream.ofOrigin ⟨"call", "let x = [f(1, (a)"⟩).tokens.map Token.kind =
      [.keyword, .identifier, .equal, .leftSquare, .identifier, .leftParen, .number, .comma,
        .leftParen] ++ [.identifier] ++ [.rightParen] := by decide +kernel
  have opened : openBrackets (TokenStream.ofOrigin ⟨"call", "let x = [f(1, (a)"⟩).tokens =
      [.call, .list] := by decide +kernel
  obtain ⟨before, last, fault, tokens, failed, -, diagnosis, goesOn, -⟩ :=
    truncated_text_is_diagnosed finished admissible rejected
  rw [tokens, List.map_append] at kinds
  rw [tokens] at opened
  obtain ⟨behind, isLast⟩ := List.append_inj' kinds rfl
  have ends : last.EndsOperand := by simp_all [Token.EndsOperand]
  have other : ∀ word ∈ before.getLast?, ¬ word.isLet := by
    intro word inFront isLet
    have kind := congrArg List.getLast? behind
    rw [List.getLast?_map, inFront] at kind
    simp [isLet.1] at kind
  have report := (diagnosis _ _).mp (.operator other ends)
  have more := goesOn ends other "," (by simp [opened, Expectation.terminators, Bracket.closers])
  rw [opened] at report
  exact ⟨fault, failed, report.2, more⟩

end Ending

end SceneScript
