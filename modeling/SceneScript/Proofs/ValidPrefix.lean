import SceneScript.Proofs.Parse.Admissible
import SceneScript.Proofs.Parse.Faults

/-!
Both parsers report a fault as early as there is one: at the first token with which no program goes
on, or at the end of a text that more text would make a program.
-/

namespace SceneScript

open Grammar (Lexeme LexemeStream)

/-- Up to the token the text is the beginning of a program, with the token it is not. -/
structure Strays (origin : Origin) (before : List Token) (t : Token) : Prop where
  tokens : ∃ after, (TokenStream.ofOrigin origin).tokens = before ++ t :: after
  admissible : Admissible before
  inadmissible : ¬ Admissible (before ++ [t])

/-- Both parsers find the syntax wrong; the one by grammar reports the span. -/
structure Refused (origin : Origin) (span : Span) (blames : ParseFault → Prop) : Prop where
  precedence : ∃ fault, parse origin = .error fault ∧ blames fault ∧
    (fault.report.name = .illegalSyntax ∨ fault.report.name = .invalidSyntax)
  grammar : ∃ fault, Grammar.parse origin = .error fault ∧ fault.report.span = span ∧
    fault.report.name = .invalidSyntax

theorem SyntaxFault.report_name (fault : SyntaxFault) :
    fault.report.name = .illegalSyntax ∨ fault.report.name = .invalidSyntax := by
  unfold report
  split
  · exact .inl rfl
  · exact .inr rfl

variable {origin : Origin} {fault : ParseFault}

section Ending

variable {stop : Position}

/-- A text without a lexical fault ends where its index puts its length. -/
theorem fault_eq_none_of_finished
    (finished : (TokenStream.ofOrigin origin).ending = .finished stop) :
    (LexemeStream.ofOrigin origin).fault = none ∧
      stop = (LineIndex.ofOrigin origin).position origin.text.length := by
  rw [(TokenStream.ofOrigin_eq_toTokens origin).1, LexemeStream.toTokens] at finished
  simp only at finished
  split at finished
  next unread => exact ⟨unread, (Ending.finished.inj finished).symm⟩
  next => cases finished

theorem fault_eq_some_of_ending {lexical : LexicalFault}
    (faulty : (TokenStream.ofOrigin origin).ending = .fault lexical) : ∃ index c,
      (LexemeStream.ofOrigin origin).fault = some (index, c) ∧
      lexical = Grammar.lexicalFault (.ofOrigin origin) index c := by
  rw [(TokenStream.ofOrigin_eq_toTokens origin).1, LexemeStream.toTokens] at faulty
  simp only at faulty
  split at faulty
  next => cases faulty
  next index c unread => exact ⟨index, c, unread, (Ending.fault.inj faulty).symm⟩

theorem span_ne_end (finished : (TokenStream.ofOrigin origin).ending = .finished stop)
    {span : Span} {a b : Nat} (covers : span.Covers a b) (within : b ≤ origin.text.length) :
    span ≠ ⟨stop, stop.past⟩ := by
  intro same
  obtain ⟨first, last, rfl, -, rfl, -⟩ := covers
  obtain ⟨-, rfl⟩ := fault_eq_none_of_finished finished
  injection same with _ last_eq
  injection last_eq with last_eq
  have beyond : last.index = origin.text.length + 1 := congrArg Position.index last_eq
  omega

end Ending

theorem FrontEnd.rejected (f : FrontEnd) (failed : f.parse origin = .error fault) (g : FrontEnd)
    (program : Program) : g.parse origin ≠ .ok program := by
  intro parsed
  have accepted : f.parse origin = .ok program := by
    cases f <;> cases g
    · exact parsed
    · exact grammar_parse_eq_ok_iff.mp parsed
    · exact grammar_parse_eq_ok_iff.mpr parsed
    · exact parsed
  cases accepted.symm.trans failed

namespace Strays

variable {before : List Token} {t : Token}

/-- The parser by precedence has read all tokens before the one at which it fails. -/
theorem exists_step (strays : Strays origin before t) : ∃ p fault,
    Parser.initial.run before = .ok p ∧ p.step t = .error fault ∧ parse origin = .error fault := by
  obtain ⟨⟨after, tokens⟩, admissible, inadmissible⟩ := strays
  have further := tokens.trans (List.append_cons before t after)
  obtain ⟨p, ran⟩ := (admissible_iff_run tokens).mp admissible
  have stuck := mt (admissible_iff_run further).mpr inadmissible
  obtain ⟨fault, stops, failed⟩ := foldlM_stops ran stuck after
  rw [← tokens] at failed
  exact ⟨p, fault, ran, stops, parse_eq_error_of_run failed⟩

/-- The parser by grammar fails at the same token. -/
theorem exists_names (strays : Strays origin before t) : ∃ names,
    Grammar.parse origin = .error (.grammatical ⟨.terminals names, t.span⟩) := by
  obtain ⟨⟨after, tokens⟩, admissible, inadmissible⟩ := strays
  have further := tokens.trans (List.append_cons before t after)
  rw [admissible_iff_run tokens] at admissible
  rw [admissible_iff_run further] at inadmissible
  obtain ⟨ls, ks, lexemes, -, rfl, behind⟩ := exists_lexemes tokens
  obtain ⟨l, ks, rfl, rfl, -⟩ := List.map_eq_cons_iff.mp behind.symm
  obtain ⟨stack, ran⟩ := (run_iff_grammar_run lexemes).mp admissible
  have lexemes' := lexemes.trans (List.append_cons ls l ks)
  have stuck := mt (run_iff_grammar_run lexemes').mpr (by simpa using inadmissible)
  obtain ⟨fault, stops, failed⟩ := foldlM_stops ran stuck ks
  rw [← lexemes] at failed
  obtain ⟨names, rfl⟩ := Grammar.step_eq_error stops
  refine ⟨names, ?_⟩
  simp only [Grammar.parse, failed, bind, Except.bind]

theorem blames (strays : Strays origin before t) {f : FrontEnd}
    (failed : f.parse origin = .error fault) : Parser.Blames before t fault := by
  cases f with
  | precedence =>
    obtain ⟨p, found, ran, stops, parsed⟩ := strays.exists_step
    cases parsed.symm.trans failed
    exact (Parser.invariant_initial.run ran).blames stops
  | grammar =>
    obtain ⟨names, parsed⟩ := strays.exists_names
    cases parsed.symm.trans failed
    exact .token (by simp)

theorem not_at_end (strays : Strays origin before t) {f : FrontEnd}
    (failed : f.parse origin = .error fault) {stop : Position}
    (finished : (TokenStream.ofOrigin origin).ending = .finished stop) :
    fault.report.span ≠ ⟨stop, stop.past⟩ := by
  obtain ⟨after, tokens⟩ := strays.tokens
  -- The fault lies inside the text, and the end is just behind it.
  have laid : Laid 0 origin.text.length (TokenStream.ofOrigin origin).tokens := by
    rw [(TokenStream.ofOrigin_eq_toTokens origin).1]
    exact (laid_ofOrigin origin).1
  rw [tokens] at laid
  obtain ⟨a, b, covers, within⟩ := within_of_blames laid (strays.blames failed)
  exact span_ne_end finished covers within

theorem refused (strays : Strays origin before t) : Refused origin t.span fun fault =>
    Parser.Blames before t fault ∧
      ∃ p, Parser.initial.run before = .ok p ∧ p.step t = .error fault := by
  constructor
  · obtain ⟨p, fault, ran, stops, failed⟩ := strays.exists_step
    have blames := strays.blames (f := .precedence) failed
    refine ⟨fault, failed, ⟨blames, p, ran, stops⟩, ?_⟩
    cases blames <;> exact SyntaxFault.report_name _
  · obtain ⟨names, failed⟩ := strays.exists_names
    exact ⟨_, failed, rfl, rfl⟩

end Strays

/-- The tokens of a text are the beginning of a program exactly if there is none to blame. -/
theorem admissible_iff_forall_not_strays :
    Admissible (TokenStream.ofOrigin origin).tokens ↔ ∀ before t, ¬ Strays origin before t := by
  constructor
  · rintro admissible before t ⟨⟨after, tokens⟩, -, inadmissible⟩
    rw [tokens, List.append_cons] at admissible
    exact inadmissible admissible.of_append
  · intro clean
    rw [admissible_iff_run (List.append_nil _).symm]
    cases ran : Parser.initial.run (TokenStream.ofOrigin origin).tokens with
    | ok p => exact ⟨p, rfl⟩
    | error fault =>
      obtain ⟨before, t, after, p, tokens, taken, stops⟩ := exists_of_foldlM_eq_error ran
      refine absurd ?_ (clean before t)
      refine ⟨⟨after, tokens⟩, (admissible_iff_run tokens).mpr ⟨p, taken⟩, ?_⟩
      rw [admissible_iff_run (tokens.trans (List.append_cons before t after))]
      rintro ⟨q, ran⟩
      obtain ⟨p', taken', last⟩ := exists_of_foldlM_append_eq_ok ran
      cases taken.symm.trans taken'
      rw [List.foldlM_cons, stops] at last
      cases last

theorem strays_iff {before : List Token} {t : Token} : Strays origin before t ↔
    before ++ [t] <+: (TokenStream.ofOrigin origin).tokens ∧
      (Parser.initial.run before).toBool = true ∧
      (Parser.initial.run (before ++ [t])).toBool = false := by
  have computed {after : List Token}
      (tokens : (TokenStream.ofOrigin origin).tokens = before ++ t :: after) :
      (Admissible before ↔ (Parser.initial.run before).toBool = true) ∧
      (¬ Admissible (before ++ [t]) ↔ (Parser.initial.run (before ++ [t])).toBool = false) := by
    have further := tokens.trans (List.append_cons before t after)
    rw [admissible_iff_run tokens, admissible_iff_run further, exists_ok_iff_toBool,
      exists_ok_iff_toBool, Bool.not_eq_true]
    exact ⟨.rfl, .rfl⟩
  constructor
  · rintro ⟨⟨after, tokens⟩, admissible, inadmissible⟩
    obtain ⟨reads, stops⟩ := computed tokens
    exact ⟨⟨after, (tokens.trans (List.append_cons ..)).symm⟩, reads.mp admissible,
      stops.mp inadmissible⟩
  · rintro ⟨⟨after, tokens⟩, read, stopped⟩
    rw [← List.append_cons, eq_comm] at tokens
    obtain ⟨reads, stops⟩ := computed tokens
    exact ⟨⟨after, tokens⟩, reads.mpr read, stops.mpr stopped⟩

instance (before : List Token) (t : Token) : Decidable (Strays origin before t) :=
  decidable_of_iff _ strays_iff.symm

section Whole

variable {stop : Position}

theorem exists_runs (admissible : Admissible (TokenStream.ofOrigin origin).tokens) :
    (∃ p, Parser.initial.run (TokenStream.ofOrigin origin).tokens = .ok p) ∧
    ∃ stack, (LexemeStream.ofOrigin origin).lexemes.foldlM
      (Grammar.step Grammar.automaton (.ofOrigin origin)) [] = .ok stack := by
  have read := (admissible_iff_run (List.append_nil _).symm).mp admissible
  refine ⟨read, ?_⟩
  rw [(TokenStream.ofOrigin_eq_toTokens origin).1] at read
  exact (run_iff_grammar_run (List.append_nil _).symm).mp read

theorem parse_eq_lexical (admissible : Admissible (TokenStream.ofOrigin origin).tokens)
    {lexical : LexicalFault} (faulty : (TokenStream.ofOrigin origin).ending = .fault lexical)
    (f : FrontEnd) : f.parse origin = .error (.lexical lexical) := by
  obtain ⟨⟨p, ran⟩, stack, ran'⟩ := exists_runs admissible
  cases f with
  | precedence =>
    rw [FrontEnd.parse, parse_eq_of_run ran, faulty]
    rfl
  | grammar =>
    obtain ⟨index, c, unread, rfl⟩ := fault_eq_some_of_ending faulty
    simp [FrontEnd.parse, Grammar.parse, ran', unread, bind, Except.bind]

theorem refused_at_end (admissible : Admissible (TokenStream.ofOrigin origin).tokens)
    (finished : (TokenStream.ofOrigin origin).ending = .finished stop)
    (rejected : ∀ (f : FrontEnd) (program : Program), f.parse origin ≠ .ok program) :
    Refused origin ⟨stop, stop.past⟩ fun fault => fault.report.span = ⟨stop, stop.past⟩ ∧
      ∃ p, Parser.initial.run (TokenStream.ofOrigin origin).tokens = .ok p ∧
        p.finish origin (.finished stop) = .error fault := by
  obtain ⟨⟨p, ran⟩, stack, ran'⟩ := exists_runs admissible
  constructor
  · have parsed := parse_eq_of_run ran
    rw [finished] at parsed
    cases ended : p.finish origin (.finished stop) with
    | ok program => exact absurd (parsed.trans ended) (rejected .precedence program)
    | error fault =>
      obtain ⟨expectation, rfl⟩ := Parser.finish_eq_error ended
      exact ⟨_, parsed.trans ended, ⟨rfl, p, ran, ended⟩, SyntaxFault.report_name _⟩
  · obtain ⟨unread, rfl⟩ := fault_eq_none_of_finished finished
    have parsed : Grammar.parse origin =
        Grammar.finish Grammar.automaton (.ofOrigin origin) stack := by
      simp [Grammar.parse, ran', unread, bind, Except.bind]
    cases ended : Grammar.finish Grammar.automaton (.ofOrigin origin) stack with
    | ok program => exact absurd (parsed.trans ended) (rejected .grammar program)
    | error fault =>
      obtain ⟨names, rfl⟩ := Grammar.finish_eq_error ended rfl
      exact ⟨_, parsed.trans ended, rfl, rfl⟩

theorem writes_text (finished : (TokenStream.ofOrigin origin).ending = .finished stop) :
    Writes origin.text.toList ((TokenStream.ofOrigin origin).tokens.map Token.word) := by
  have scanned : TokenStream.ofCursor (.ofOrigin origin) =
      ⟨(TokenStream.ofOrigin origin).tokens ++ [], .finished stop⟩ := by
    rw [List.append_nil, ← finished]
    rfl
  obtain ⟨front, -, writes, whole⟩ := Writes.exists_front scanned
  rwa [whole rfl ⟨stop, rfl⟩] at writes

/-- The tokens of a text are the beginning of a program exactly if the text is, with a line break
    behind it. -/
theorem admissible_iff_completable
    (finished : (TokenStream.ofOrigin origin).ending = .finished stop) (f : FrontEnd) :
    Admissible (TokenStream.ofOrigin origin).tokens ↔
      ∃ more program, f.parse ⟨origin.file, origin.text ++ "\n" ++ more⟩ = .ok program := by
  have writes := writes_text finished
  have whole (more : List Char) : String.ofList (origin.text.toList ++ '\n' :: more) =
      origin.text ++ "\n" ++ String.ofList more := by
    apply String.toList_injective
    simp
  constructor
  · intro admissible
    obtain ⟨p, ran⟩ := (exists_runs admissible).1
    obtain ⟨more, program, parsed, -⟩ :=
      exists_program_of_run (List.append_nil _).symm ran writes f origin.file
    rw [whole] at parsed
    exact ⟨String.ofList more, program, parsed⟩
  · rintro ⟨more, program, parsed⟩
    rw [← String.ofList_toList (s := more), ← whole] at parsed
    refine ⟨f, _, program, parsed, ?_⟩
    obtain ⟨ts, scans, same⟩ := writes (.start _) more.toList
    rw [← same, TokenStream.ofOrigin, Cursor.ofOrigin, String.toList_ofList, scans, List.map_append]
    exact List.prefix_append _ _

theorem at_end_iff_completable
    (finished : (TokenStream.ofOrigin origin).ending = .finished stop) {f : FrontEnd}
    (failed : f.parse origin = .error fault) : fault.report.span = ⟨stop, stop.past⟩ ↔
      ∃ more program, f.parse ⟨origin.file, origin.text ++ "\n" ++ more⟩ = .ok program := by
  rw [← admissible_iff_completable finished f]
  constructor
  · intro atEnd
    rw [admissible_iff_forall_not_strays]
    exact fun before t strays => strays.not_at_end failed finished atEnd
  · intro admissible
    have refused := refused_at_end admissible finished (f.rejected failed)
    cases f with
    | precedence =>
      obtain ⟨found, failed', ⟨atEnd, -⟩, -⟩ := refused.precedence
      cases failed'.symm.trans failed
      exact atEnd
    | grammar =>
      obtain ⟨found, failed', atEnd, -⟩ := refused.grammar
      cases failed'.symm.trans failed
      exact atEnd

end Whole

/-- Both parsers stop at the first token with which no program goes on, at the first lexical fault
    if there is no such token before it, and at the end of a text that is the beginning of a program
    only. So they stop at the end exactly if more text would make a program. -/
theorem parsers_stop_at_first_stray (origin : Origin) :
    (∀ before t, Strays origin before t → Refused origin t.span fun fault =>
      Parser.Blames before t fault ∧
        ∃ p, Parser.initial.run before = .ok p ∧ p.step t = .error fault) ∧
    ((∀ before t, ¬ Strays origin before t) →
      (∀ lexical, (TokenStream.ofOrigin origin).ending = .fault lexical →
        ∀ f : FrontEnd, f.parse origin = .error (.lexical lexical)) ∧
      ∀ stop, (TokenStream.ofOrigin origin).ending = .finished stop →
        (∀ (f : FrontEnd) (program : Program), f.parse origin ≠ .ok program) →
        Refused origin ⟨stop, stop.past⟩ fun fault => fault.report.span = ⟨stop, stop.past⟩ ∧
          ∃ p, Parser.initial.run (TokenStream.ofOrigin origin).tokens = .ok p ∧
            p.finish origin (.finished stop) = .error fault) ∧
    ∀ stop, (TokenStream.ofOrigin origin).ending = .finished stop →
      ∀ (f : FrontEnd) fault, f.parse origin = .error fault →
        (fault.report.span = ⟨stop, stop.past⟩ ↔
          ∃ more program,
            f.parse ⟨origin.file, origin.text ++ "\n" ++ more⟩ = .ok program) := by
  refine ⟨fun before t strays => strays.refused, fun clean => ?_, ?_⟩
  · have admissible := admissible_iff_forall_not_strays.mpr clean
    constructor
    · intro lexical faulty
      exact parse_eq_lexical admissible faulty
    · intro stop finished
      exact refused_at_end admissible finished
  · intro stop finished f fault failed
    exact at_end_iff_completable finished failed

/-- An assignment that lacks its sign: in front of a number, in front of a character that no token
    starts with, and at the end of a text, where a further line completes it. -/
theorem missing_sign_is_noticed :
    (∃ before t, t.value = .string "1" ∧ Strays ⟨"sign", "let x 1;"⟩ before t ∧
      ∃ fault, Grammar.parse ⟨"sign", "let x 1;"⟩ = .error fault ∧ fault.report.span = t.span) ∧
    (∀ f : FrontEnd, ∃ fault, f.parse ⟨"sign", "let x @"⟩ = .error (.lexical fault)) ∧
    ∃ more program, parse ⟨"sign", "let x" ++ "\n" ++ more⟩ = .ok program := by
  refine ⟨?_, ?_, ?_⟩
  · let place (index : Nat) : Position := ⟨⟨"sign", "let x 1;"⟩, index, 0, index⟩
    have strays : Strays ⟨"sign", "let x 1;"⟩
        [⟨.keyword, .string "let", ⟨place 0, place 3⟩⟩,
          ⟨.identifier, .string "x", ⟨place 4, place 5⟩⟩]
        ⟨.number, .string "1", ⟨place 6, place 7⟩⟩ := by decide +kernel
    obtain ⟨fault, failed, atToken, -⟩ := ((parsers_stop_at_first_stray _).1 _ _ strays).grammar
    exact ⟨_, _, rfl, strays, fault, failed, atToken⟩
  · have admissible : Admissible (TokenStream.ofOrigin ⟨"sign", "let x @"⟩).tokens := by
      decide +kernel
    let place (index : Nat) : Position := ⟨⟨"sign", "let x @"⟩, index, 0, index⟩
    have faulty : (TokenStream.ofOrigin ⟨"sign", "let x @"⟩).ending =
        .fault ⟨.illegalCharacter '@', ⟨place 6, place 7⟩⟩ := by decide +kernel
    have clean := admissible_iff_forall_not_strays.mp admissible
    exact fun f => ⟨_, ((parsers_stop_at_first_stray _).2.1 clean).1 _ faulty f⟩
  · have admissible : Admissible (TokenStream.ofOrigin ⟨"sign", "let x"⟩).tokens := by
      decide +kernel
    have finished : (TokenStream.ofOrigin ⟨"sign", "let x"⟩).ending =
        .finished ⟨⟨"sign", "let x"⟩, 5, 0, 5⟩ := by decide +kernel
    have refused : (parse ⟨"sign", "let x"⟩).toBool = false := by decide +kernel
    have rejected (f : FrontEnd) (program : Program) : f.parse ⟨"sign", "let x"⟩ ≠ .ok program := by
      cases failed : parse ⟨"sign", "let x"⟩ with
      | ok p =>
        rw [failed] at refused
        cases refused
      | error fault => exact FrontEnd.rejected .precedence failed f program
    have clean := admissible_iff_forall_not_strays.mp admissible
    obtain ⟨fault, failed, ⟨atEnd, -⟩, -⟩ :=
      (((parsers_stop_at_first_stray _).2.1 clean).2 _ finished rejected).precedence
    exact ((parsers_stop_at_first_stray _).2.2 _ finished .precedence fault failed).mp atEnd

end SceneScript
