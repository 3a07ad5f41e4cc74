import SceneScript.Proofs.Parse.Layout

/-!
Where a text that is no program is at fault: at a token, at the statement in front of
one, at a character, or at the end.
-/

namespace SceneScript

/-- A fold that fails has taken the elements before the one at which it fails. -/
theorem exists_of_foldlM_eq_error {α β ε : Type} {step : β → α → Except ε β} {xs : List α} {b : β}
    {e : ε} (failed : xs.foldlM step b = .error e) :
    ∃ before x after c, xs = before ++ x :: after ∧ before.foldlM step b = .ok c ∧
      step c x = .error e := by
  induction xs generalizing b with
  | nil => cases failed
  | cons x xs ih =>
    rw [List.foldlM_cons] at failed
    cases stepped : step b x with
    | error e' =>
      rw [stepped] at failed
      cases failed
      exact ⟨[], x, xs, b, rfl, rfl, stepped⟩
    | ok c =>
      rw [stepped] at failed
      obtain ⟨before, y, after, d, rfl, ran, stops⟩ := ih failed
      refine ⟨x :: before, y, after, d, rfl, ?_, stops⟩
      rw [List.foldlM_cons, stepped]
      exact ran

/-- A fold that takes some elements but not the next one fails there, whatever follows. -/
theorem foldlM_stops {α β ε : Type} {step : β → α → Except ε β} {xs : List α} {x : α} {b c : β}
    (taken : xs.foldlM step b = .ok c) (stops : ¬ ∃ d, (xs ++ [x]).foldlM step b = .ok d)
    (ys : List α) : ∃ e, step c x = .error e ∧ (xs ++ x :: ys).foldlM step b = .error e := by
  have goesOn (zs : List α) :
      (xs ++ x :: zs).foldlM step b = step c x >>= fun d => zs.foldlM step d := by
    rw [List.foldlM_append, taken, ← List.foldlM_cons]
    rfl
  cases stepped : step c x with
  | ok d => exact absurd ⟨d, by rw [goesOn, stepped]; rfl⟩ stops
  | error e => exact ⟨e, rfl, by rw [goesOn, stepped]; rfl⟩

namespace Parser

/-- The fault is at the token, or at the statement that the tokens in front of it end with. -/
inductive Blames (ts : List Token) (t : Token) : ParseFault → Prop
  | token {expectation : Expectation} (inside : expectation ≠ .statementEnd) :
      Blames ts t (.grammatical ⟨expectation, t.span⟩)
  | statement {us vs : List Token} {done : List Node} {n : Node} (split : ts = us ++ vs)
      (before : Statements (Reads 0) us done) (reads : Reads 0 vs n) :
      Blames ts t (.grammatical ⟨.statementEnd, n.span⟩)

section Blames

variable {p : Parser} {t : Token} {ts : List Token} {fault : ParseFault}

theorem blames_of_fail {expectation : Expectation} (inside : expectation ≠ .statementEnd)
    (failed : fail expectation t = .error fault) : Blames ts t fault := by
  cases failed
  exact .token inside

theorem blames_of_startOperand (failed : p.startOperand t = .error fault) :
    Blames ts t fault := by
  have starts := p.starts t
  rw [failed] at starts
  cases starts with
  | refused => exact .token (by decide)

theorem blames_of_startItem (failed : p.startItem t = .error fault) : Blames ts t fault := by
  unfold startItem at failed
  split at failed
  · split at failed
    · cases failed
    · exact blames_of_startOperand failed
  · split at failed
    · cases failed
    · exact blames_of_startOperand failed
  · exact blames_of_startOperand failed

theorem blames_of_endPart {us ws vs : List Token} {done : List Node} {part : Node}
    {frames : List Frame} (split : ts = us ++ (ws ++ vs)) (before : Statements (Reads 0) us done)
    (stacked : Stacked frames ws) (brackets : ∀ f ∈ frames.head?, f.bracket?.isSome)
    (reads : Reads 0 vs part) (failed : p.endPart part frames t = .error fault) :
    Blames ts t fault := by
  have ends := p.endsPart part t brackets
  rw [failed] at ends
  cases ends with
  | unclosed bracket => exact .token nofun
  | unended =>
    cases stacked
    exact .statement split before reads

theorem Invariant.blames (invariant : p.Invariant ts) (failed : p.step t = .error fault) :
    Blames ts t fault := by
  obtain ⟨done, vs, rfl, before, focused⟩ := invariant
  unfold Parser.step at failed
  split at failed
  next =>
    split at failed
    · cases failed
    · exact blames_of_startOperand failed
  next => exact blames_of_startOperand failed
  next => exact blames_of_startItem failed
  next =>
    split at failed
    · cases failed
    · exact blames_of_fail (by decide) failed
  next =>
    split at failed
    · cases failed
    · exact blames_of_fail (by decide) failed
  next x callable focus =>
    rw [focus] at focused
    obtain ⟨us, vs, rfl, stacked, reads⟩ := focused
    unfold Parser.afterOperand at failed
    split at failed
    · cases failed
    · split at failed
      · cases failed
      · -- The part that is complete here has been read from the last tokens.
        have fits (f : Frame) : f.demand ≤ if callable then 8 else 7 :=
          Nat.le_trans f.demand_le_six (by split <;> omega)
        obtain ⟨us', vs', k, stacked', whole, same, stops, -⟩ :=
          stacked.reduceWhile (fun _ => true) reads fun g _ => fits g
        refine blames_of_endPart (by rw [same]) before stacked' ?_ (whole.weaken (Nat.zero_le k))
          failed
        intro f head
        simpa using (stops f head).2

end Blames

end Parser

theorem Parser.finish_eq_error {origin : Origin} {p : Parser} {stop : Position} {fault : ParseFault}
    (failed : p.finish origin (.finished stop) = .error fault) :
    ∃ expectation, fault = .grammatical ⟨expectation, ⟨stop, stop.past⟩⟩ := by
  unfold finish at failed
  simp only at failed
  split at failed
  next => cases failed
  next expectation missing =>
    cases failed
    exact ⟨expectation, rfl⟩

namespace Grammar

variable {m : Automaton} {lines : LineIndex} {stack : Stack} {fault : ParseFault}

theorem step_eq_error {l : Lexeme} (failed : step m lines stack l = .error fault) :
    ∃ names, fault = .grammatical ⟨.terminals names, (l.toToken lines).span⟩ := by
  unfold step at failed
  split at failed
  · cases failed
  · cases failed
    exact ⟨_, rfl⟩

theorem finish_eq_error {stop : Position} (failed : finish m lines stack = .error fault)
    (last : stop = lines.position lines.origin.text.length) :
    ∃ names, fault = .grammatical ⟨.terminals names, ⟨stop, stop.past⟩⟩ := by
  subst last
  unfold finish at failed
  simp only at failed
  split at failed
  · cases failed
    exact ⟨_, rfl⟩
  · split at failed
    · cases failed
    · cases failed
      exact ⟨_, rfl⟩

end Grammar

theorem Position.covers_past (p : Position) : Span.Covers ⟨p, p.past⟩ p.index (p.index + 1) :=
  ⟨p, p.past, rfl, rfl, rfl, Nat.lt_succ_self _⟩

/-- The fault reaches at most one past the end of the text. -/
def ParseFault.Inside (fault : ParseFault) (length : Nat) : Prop :=
  ∃ a b, fault.report.span.Covers a b ∧ b ≤ length + 1

theorem ParseFault.Inside.grammatical {e : Expectation} {span : Span} {a b length : Nat}
    (covers : span.Covers a b) (within : b ≤ length + 1) :
    (ParseFault.grammatical ⟨e, span⟩).Inside length := ⟨a, b, covers, within⟩

section Faults

variable {origin : Origin} {fault : ParseFault}

open Grammar (LexemeStream)

theorem inside_lexicalFault {i : Nat} {c : Char} (inText : i < origin.text.length) :
    (ParseFault.lexical (Grammar.lexicalFault (.ofOrigin origin) i c)).Inside
      origin.text.length := by
  unfold Grammar.lexicalFault ParseFault.Inside ParseFault.report LexicalFault.report
  simp only
  split
  · exact ⟨i, origin.text.length, ⟨_, _, rfl, rfl, rfl, inText⟩, Nat.le_succ _⟩
  · exact ⟨i, i + 1, Position.covers_past _, Nat.le_succ_of_le inText⟩

theorem inside_end (expectation : Expectation) :
    (ParseFault.grammatical ⟨expectation,
      ⟨(LineIndex.ofOrigin origin).position origin.text.length,
        ((LineIndex.ofOrigin origin).position origin.text.length).past⟩⟩).Inside
      origin.text.length :=
  ParseFault.Inside.grammatical (Position.covers_past _) (Nat.le_refl _)

/-- The fault of a token lies inside the text. -/
theorem within_of_blames {ts after : List Token} {t : Token}
    (laid : Laid 0 origin.text.length (ts ++ t :: after)) (blames : Parser.Blames ts t fault) :
    ∃ a b, fault.report.span.Covers a b ∧ b ≤ origin.text.length := by
  obtain ⟨mid, front, a, b, between, covers, behind⟩ := Laid.append_iff.mp laid
  have reach : b ≤ origin.text.length := behind.le
  cases blames with
  | token => exact ⟨a, b, covers, reach⟩
  | statement split _ reads =>
    rw [split] at front
    obtain ⟨start, -, own⟩ := Laid.append_iff.mp front
    obtain ⟨c, d, -, placed, within⟩ := reads.within start mid own
    refine ⟨c, d, placed.covers, ?_⟩
    exact Nat.le_trans within (Nat.le_trans between (Nat.le_trans covers.le reach))

theorem inside_of_blames {ts after : List Token} {t : Token}
    (laid : Laid 0 origin.text.length (ts ++ t :: after)) (blames : Parser.Blames ts t fault) :
    fault.Inside origin.text.length := by
  obtain ⟨a, b, covers, within⟩ := within_of_blames laid blames
  exact ⟨a, b, covers, Nat.le_succ_of_le within⟩

theorem inside_of_parse (failed : parse origin = .error fault) :
    fault.Inside origin.text.length := by
  obtain ⟨laid, lexical⟩ := laid_ofOrigin origin
  rw [parse, (TokenStream.ofOrigin_eq_toTokens origin).1] at failed
  simp only [LexemeStream.toTokens] at failed
  cases ran : ((LexemeStream.ofOrigin origin).lexemes.map
    (·.toToken (.ofOrigin origin))).foldlM Parser.step .initial with
  | error earlier =>
    rw [ran] at failed
    cases failed
    obtain ⟨before, t, after, p, tokens, taken, stops⟩ := exists_of_foldlM_eq_error ran
    rw [tokens] at laid
    exact inside_of_blames laid ((Parser.invariant_initial.run taken).blames stops)
  | ok p =>
    rw [ran] at failed
    change p.finish origin _ = _ at failed
    cases unread : (LexemeStream.ofOrigin origin).fault with
    | some place =>
      rw [unread] at failed
      cases failed
      exact inside_lexicalFault (lexical _ _ unread)
    | none =>
      rw [unread] at failed
      obtain ⟨expectation, rfl⟩ := Parser.finish_eq_error failed
      exact inside_end _

theorem inside_of_finish {m : Grammar.Automaton} {stack : Grammar.Stack}
    (failed : Grammar.finish m (.ofOrigin origin) stack = .error fault) :
    fault.Inside origin.text.length := by
  obtain ⟨names, rfl⟩ := Grammar.finish_eq_error failed rfl
  exact inside_end _

/-- Whatever its table says, an automaton stops at a lexeme. -/
theorem inside_of_step {m : Grammar.Automaton}
    (failed : (LexemeStream.ofOrigin origin).lexemes.foldlM (Grammar.step m (.ofOrigin origin)) [] =
      .error fault) : fault.Inside origin.text.length := by
  have laid := (laid_ofOrigin origin).1
  obtain ⟨before, l, after, stack, lexemes, -, stops⟩ := exists_of_foldlM_eq_error failed
  obtain ⟨names, rfl⟩ := Grammar.step_eq_error stops
  rw [lexemes, List.map_append, List.map_cons] at laid
  obtain ⟨mid, -, a, b, -, covers, behind⟩ := Laid.append_iff.mp laid
  exact .grammatical covers (Nat.le_succ_of_le behind.le)

theorem inside_of_grammar_parse (failed : Grammar.parse origin = .error fault) :
    fault.Inside origin.text.length := by
  rw [Grammar.parse] at failed
  cases ran : (LexemeStream.ofOrigin origin).lexemes.foldlM
    (Grammar.step Grammar.automaton (.ofOrigin origin)) [] with
  | error earlier =>
    simp only [ran, bind, Except.bind] at failed
    cases failed
    exact inside_of_step ran
  | ok stack =>
    simp only [ran, bind, Except.bind] at failed
    split at failed
    · rename_i index c unread
      cases failed
      exact inside_lexicalFault ((laid_ofOrigin origin).2 index c unread)
    · exact inside_of_finish failed

/-- A text that either parser refuses is at fault inside itself, or just behind its end. -/
theorem FrontEnd.inside_of_parse {f : FrontEnd} (failed : f.parse origin = .error fault) :
    fault.Inside origin.text.length := by
  cases f with
  | precedence => exact SceneScript.inside_of_parse failed
  | grammar => exact inside_of_grammar_parse failed

end Faults

end SceneScript
