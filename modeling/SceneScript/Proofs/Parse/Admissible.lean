import SceneScript.Proofs.Grammar.Viability
import SceneScript.Proofs.Parse.Completion
import SceneScript.Proofs.Parse.Shape
import SceneScript.Proofs.Token.Joining
import SceneScript.Proofs.Token.Languages

/-!
Beginnings of programs. The tokens of a text up to some point are those with which a program begins
exactly if the parser by precedence reads them without a fault, and exactly if the parser by grammar
does: the text up to there, a line break and the tokens that complete it are such a program.
-/

namespace SceneScript

open Grammar (Derivable Lexeme LexemeStream Proper Terminal Viable)

/-- The tokens of some program begin with these, places aside. -/
def Admissible (ts : List Token) : Prop :=
  ∃ (f : FrontEnd) (origin : Origin) (p : Program), f.parse origin = .ok p ∧
    ts.map Token.word <+: (TokenStream.ofOrigin origin).tokens.map Token.word

theorem Admissible.of_append {ts us : List Token} (admissible : Admissible (ts ++ us)) :
    Admissible ts := by
  obtain ⟨f, origin, p, parsed, begins⟩ := admissible
  rw [List.map_append] at begins
  exact ⟨f, origin, p, parsed, (List.prefix_append _ _).trans begins⟩

/-- The terminal of tokens with this kind and this value. -/
def Token.terminalOf (word : TokenKind × Json) : Terminal :=
  Token.terminal ⟨word.1, word.2, .nowhere⟩

theorem Token.map_terminalOf (ts : List Token) :
    (ts.map Token.word).map Token.terminalOf = ts.map Token.terminal := by
  rw [List.map_map]
  rfl

theorem Grammar.Proper.map_terminal {lines : LineIndex} {ls : List Lexeme}
    (proper : Proper lines ls) :
    (ls.map (·.toToken lines)).map Token.terminal = ls.map Lexeme.terminal := by
  rw [List.map_map]
  exact List.map_congr_left proper

section Viable

variable {lines : LineIndex} {ls : List Lexeme}

/-- Lexemes whose terminals can be derived have tokens that are statements. -/
theorem Grammar.Derivable.exists_statements (derivable : Derivable (ls.map Lexeme.terminal))
    (proper : Proper lines ls) : ∃ body, Statements (Reads 0) (ls.map (·.toToken lines)) body := by
  obtain ⟨d, valid, isStart, terminals⟩ := derivable
  obtain ⟨e, valid, symbol, rfl⟩ := valid.exists_relabelled terminals.symm
  obtain ⟨body, statements, -⟩ := Grammar.program_of_valid valid proper (symbol.trans isStart)
  exact ⟨body, statements⟩

theorem derivable_of_statements {body : List Node} (proper : Proper lines ls)
    (statements : Statements (Reads 0) (ls.map (·.toToken lines)) body) :
    Derivable (ls.map Lexeme.terminal) := by
  obtain ⟨d, valid, isStart, rfl⟩ := Grammar.exists_derivation proper statements
  exact ⟨d, valid, isStart, rfl⟩

theorem proper_append (proper : Proper lines ls) (ws : List Terminal) :
    Proper lines (ls ++ ws.map Lexeme.ofTerminal) := by
  refine List.forall_mem_append.mpr ⟨proper, fun l member => ?_⟩
  obtain ⟨w, -, rfl⟩ := List.mem_map.mp member
  exact Lexeme.terminal_ofTerminal lines w

/-- The parser by precedence reads the beginning of whatever the rules derive. -/
theorem run_of_viable (viable : Viable (ls.map Lexeme.terminal)) (proper : Proper lines ls) :
    ∃ p, Parser.initial.run (ls.map (·.toToken lines)) = .ok p := by
  obtain ⟨more, derivable⟩ := viable
  rw [← Lexeme.map_terminal_append] at derivable
  obtain ⟨body, statements⟩ := derivable.exists_statements (proper_append proper more)
  have ran := Parser.run_statements statements
  rw [List.map_append] at ran
  obtain ⟨p, first, -⟩ := exists_of_foldlM_append_eq_ok ran
  exact ⟨p, first⟩

/-- What the parser by precedence reads goes on to something that the rules derive. -/
theorem exists_derivable_of_run {p : Parser}
    (ran : Parser.initial.run (ls.map (·.toToken lines)) = .ok p) (proper : Proper lines ls) :
    ∃ ws ⊆ closing, Derivable (ls.map Lexeme.terminal ++ ws) := by
  have completable : Completable (fun w => (Lexeme.ofTerminal w).toToken lines) _ :=
    (Parser.invariant_initial.run ran).completable (Lexeme.terminal_ofTerminal lines)
  obtain ⟨ws, body, known, statements⟩ := completable
  have whole :
      Statements (Reads 0) ((ls ++ ws.map Lexeme.ofTerminal).map (·.toToken lines)) body := by
    rw [List.map_append, List.map_map]
    exact statements
  refine ⟨ws, known, ?_⟩
  rw [← Lexeme.map_terminal_append]
  exact derivable_of_statements (proper_append proper ws) whole

end Viable

section Closing

open Word (Denotes)

def Grammar.Terminal.word (w : Terminal) : TokenKind × Json := (w.kind, (Lexeme.ofTerminal w).value)

theorem Token.terminalOf_word (w : Terminal) : Token.terminalOf w.word = w := by
  cases w <;> rfl

theorem denotes_spelling {w : Terminal} (inText : w ≠ .endOfText) :
    Denotes w.spelling w.word.1 w.word.2 := by
  have digits : Word.Numeral ['0'] := ⟨by simp, by simp; decide, by simp⟩
  cases w with
  | endOfText => exact absurd rfl inText
  | number => exact .numeral digits
  | identifier => exact .name (w := ['x']) ⟨by decide, by simp⟩
  | letWord => exact .name (w := ['l', 'e', 't']) ⟨by decide, List.all_eq_true.mp (by decide)⟩
  | andWord => exact .name (w := ['a', 'n', 'd']) ⟨by decide, List.all_eq_true.mp (by decide)⟩
  | orWord => exact .name (w := ['o', 'r']) ⟨by decide, List.all_eq_true.mp (by decide)⟩
  | string => exact @Denotes.quoted '"' [] (.inl rfl) .nil
  | equalEqual | notEqual | lessThanEqual | greaterThanEqual => exact .pair rfl
  | bang | comma | equal | greaterThan | lessThan | leftParen | leftSquare | minus | plus | power
  | rightParen | rightSquare | semicolon | slash | star => exact .single rfl

/-- The terminals, each on a line of its own. -/
def spell (ws : List Terminal) : List Char := ws.flatMap fun w => w.spelling ++ ['\n']

theorem writes_spell {ws : List Terminal} (known : ws ⊆ closing) :
    Writes (spell ws) (ws.map Terminal.word) := by
  induction ws with
  | nil => exact .gap (.nil [])
  | cons w ws ih =>
    obtain ⟨here, others⟩ := List.cons_subset.mp known
    have inText : w ≠ .endOfText := by
      rintro rfl
      simp [closing] at here
    have joined := (Writes.word (denotes_spelling inText)).join (ih others)
    simpa [spell] using joined

end Closing

theorem Grammar.Pattern.terminal?_ne_endOfText {pattern : Grammar.Pattern}
    (known : pattern ∈ Grammar.Pattern.all) (text : List Char) :
    pattern.terminal? text ≠ some .endOfText := by
  cases pattern with
  | name =>
    simp only [terminal?, nameTerminal]
    grind
  | numeral | quoted | comment | blanks => simp [terminal?]
  | literal w chars =>
    rintro ⟨⟩
    simp [all] at known

theorem viable_of_admissible {ts : List Token} (admissible : Admissible ts) :
    Viable (ts.map Token.terminal) := by
  obtain ⟨f, origin, p, parsed, isPrefix⟩ := admissible
  obtain ⟨ls, body, stream, statements, -⟩ := f.parse_eq_ok parsed
  obtain ⟨same, proper⟩ := TokenStream.ofOrigin_eq_toTokens origin
  rw [stream] at same proper
  rw [same] at isPrefix
  have terminals := isPrefix.map Token.terminalOf
  rw [Token.map_terminalOf, Token.map_terminalOf, LexemeStream.toTokens, proper.map_terminal]
    at terminals
  obtain ⟨more, whole⟩ := terminals
  exact ⟨more, whole ▸ derivable_of_statements proper statements⟩

theorem parse_of_derivable {origin : Origin} {ls : List Lexeme}
    (stream : LexemeStream.ofOrigin origin = ⟨ls, none⟩)
    (derivable : Derivable (ls.map Lexeme.terminal)) (f : FrontEnd) :
    ∃ p, f.parse origin = .ok p := by
  have proper := (TokenStream.ofOrigin_eq_toTokens origin).2
  rw [stream] at proper
  obtain ⟨body, statements⟩ := derivable.exists_statements proper
  obtain ⟨stop, scanned⟩ := tokens_finished_iff.mpr ⟨ls, stream, rfl⟩
  have parsed := parse_eq_ok_iff.mpr ⟨_, stop, body, scanned, statements, rfl⟩
  cases f with
  | precedence => exact ⟨_, parsed⟩
  | grammar => exact ⟨_, grammar_parse_eq_ok_iff.mpr parsed⟩

/-- What can be completed to something derivable can be completed to a program. -/
theorem Writes.exists_program {cs : List Char} {words : List (TokenKind × Json)}
    (writes : Writes cs words) {ws : List Terminal} (known : ws ⊆ closing)
    (derivable : Derivable (words.map Token.terminalOf ++ ws)) (f : FrontEnd) (file : String) :
    ∃ more p, f.parse ⟨file, String.ofList (cs ++ '\n' :: more)⟩ = .ok p ∧
      words <+: (TokenStream.ofOrigin ⟨file, String.ofList (cs ++ '\n' :: more)⟩).tokens.map
        Token.word := by
  obtain ⟨ts, stop, scanned, same⟩ := (writes.join (writes_spell known)).ofOrigin file
  rw [List.append_assoc, List.cons_append] at scanned
  obtain ⟨ls, stream, rfl⟩ := tokens_finished_iff.mp ⟨stop, scanned⟩
  have proper := (TokenStream.ofOrigin_eq_toTokens
    ⟨file, String.ofList (cs ++ '\n' :: (spell ws ++ ['\n']))⟩).2
  rw [stream] at proper
  have terminals : ls.map Lexeme.terminal = words.map Token.terminalOf ++ ws := by
    rw [← proper.map_terminal, ← Token.map_terminalOf, same, List.map_append, List.map_map]
    have inverse : Token.terminalOf ∘ Terminal.word = id := funext Token.terminalOf_word
    rw [inverse, List.map_id]
  obtain ⟨p, parsed⟩ := parse_of_derivable stream (terminals ▸ derivable) f
  refine ⟨spell ws ++ ['\n'], p, parsed, ?_⟩
  rw [scanned, same]
  exact List.prefix_append _ _

section Text

variable {origin : Origin} {ts us : List Token}

theorem exists_lexemes (tokens : (TokenStream.ofOrigin origin).tokens = ts ++ us) : ∃ ls ks,
    (LexemeStream.ofOrigin origin).lexemes = ls ++ ks ∧ Proper (.ofOrigin origin) ls ∧
      ts = ls.map (·.toToken (.ofOrigin origin)) ∧ us = ks.map (·.toToken (.ofOrigin origin)) := by
  obtain ⟨same, proper⟩ := TokenStream.ofOrigin_eq_toTokens origin
  rw [same] at tokens
  obtain ⟨ls, ks, lexemes, rfl, rfl⟩ := List.map_eq_append_iff.mp tokens
  rw [lexemes] at proper
  exact ⟨ls, ks, lexemes, fun l member => proper l (List.mem_append_left ks member), rfl, rfl⟩

/-- Where the parser reads tokens of a text, a text that writes them goes on to a program. -/
theorem exists_program_of_run (tokens : (TokenStream.ofOrigin origin).tokens = ts ++ us)
    {p : Parser} (ran : Parser.initial.run ts = .ok p) {cs : List Char}
    (writes : Writes cs (ts.map Token.word)) (f : FrontEnd) (file : String) :
    ∃ more program, f.parse ⟨file, String.ofList (cs ++ '\n' :: more)⟩ = .ok program ∧
      ts.map Token.word <+: (TokenStream.ofOrigin
        ⟨file, String.ofList (cs ++ '\n' :: more)⟩).tokens.map Token.word := by
  obtain ⟨ls, ks, -, proper, rfl, -⟩ := exists_lexemes tokens
  obtain ⟨ws, known, derivable⟩ := exists_derivable_of_run ran proper
  rw [← proper.map_terminal, ← Token.map_terminalOf] at derivable
  exact writes.exists_program known derivable f file

/-- Tokens of a text are the beginning of a program exactly if the parser reads them. -/
theorem admissible_iff_run (tokens : (TokenStream.ofOrigin origin).tokens = ts ++ us) :
    Admissible ts ↔ ∃ p, Parser.initial.run ts = .ok p := by
  constructor
  · intro admissible
    obtain ⟨ls, ks, -, proper, rfl, -⟩ := exists_lexemes tokens
    have viable := viable_of_admissible admissible
    rw [proper.map_terminal] at viable
    exact run_of_viable viable proper
  · rintro ⟨p, ran⟩
    have scanned : TokenStream.ofCursor (.ofOrigin origin) =
        ⟨ts ++ us, (TokenStream.ofOrigin origin).ending⟩ := by
      rw [← tokens]
      rfl
    obtain ⟨front, -, writes, -⟩ := Writes.exists_front scanned
    obtain ⟨more, program, parsed, isPrefix⟩ :=
      exists_program_of_run tokens ran writes .precedence ""
    exact ⟨.precedence, _, program, parsed, isPrefix⟩

theorem exists_ok_iff_toBool {ε α : Type} {x : Except ε α} :
    (∃ a, x = .ok a) ↔ x.toBool = true := by
  cases x <;> simp [Except.toBool]

instance (origin : Origin) : Decidable (Admissible (TokenStream.ofOrigin origin).tokens) :=
  decidable_of_iff ((Parser.initial.run (TokenStream.ofOrigin origin).tokens).toBool = true)
    (exists_ok_iff_toBool.symm.trans (admissible_iff_run (List.append_nil _).symm).symm)

/-- Both parsers get equally far. -/
theorem run_iff_grammar_run {ls ks : List Lexeme}
    (lexemes : (LexemeStream.ofOrigin origin).lexemes = ls ++ ks) :
    (∃ p, Parser.initial.run (ls.map (·.toToken (.ofOrigin origin))) = .ok p) ↔
      ∃ stack, ls.foldlM (Grammar.step Grammar.automaton (.ofOrigin origin)) [] = .ok stack := by
  have proper := (TokenStream.ofOrigin_eq_toTokens origin).2
  rw [lexemes] at proper
  have proper : Proper (.ofOrigin origin) ls := fun l member =>
    proper l (List.mem_append_left ks member)
  constructor
  · rintro ⟨p, ran⟩
    obtain ⟨ws, -, derivable⟩ := exists_derivable_of_run ran proper
    exact Grammar.run_of_viable ⟨ws, derivable⟩ _
  · rintro ⟨stack, ran⟩
    refine run_of_viable (Grammar.viable_of_run ran fun l member isEnd => ?_) proper
    have inText : l ∈ (LexemeStream.ofOrigin origin).lexemes := by
      rw [lexemes]
      exact List.mem_append_left ks member
    obtain ⟨pattern, known, terminal, -⟩ := LexemeStream.exists_pattern_of_mem 0 _ l inText
    rw [isEnd] at terminal
    exact Grammar.Pattern.terminal?_ne_endOfText known _ terminal

end Text

end SceneScript
