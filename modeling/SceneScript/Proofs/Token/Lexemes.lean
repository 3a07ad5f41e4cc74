import SceneScript.Grammar.Engine
import SceneScript.Proofs.Grammar.Readings
import SceneScript.Proofs.Source.Lines
import SceneScript.Proofs.Token.Scanning

/-!
The scanner and the patterns find the same tokens at the same places, up to the same fault.
-/

namespace SceneScript

open Grammar (Pattern Lexeme LexemeStream)

namespace Cursor

theorem spanNumeral_append (dotted : Bool) (cs : List Char) :
    (spanNumeral dotted cs).1 ++ (spanNumeral dotted cs).2 = cs := by
  induction cs generalizing dotted with
  | nil => rfl
  | cons c cs ih =>
    unfold spanNumeral
    split
    · rw [List.cons_append, ih]
    · split
      · rw [List.cons_append, ih]
      · rfl

theorem length_spanNumeral_true (cs : List Char) :
    (spanNumeral true cs).1.length = Pattern.countWhile Text.isDigit cs := by
  induction cs with
  | nil => rfl
  | cons c cs ih =>
    unfold spanNumeral Pattern.countWhile
    by_cases digit : Text.isDigit c = true
    · simp only [digit, if_true, List.takeWhile_cons, List.length_cons, ih, Pattern.countWhile]
    · simp [digit]

/-- The digits behind a point that follows. -/
def fraction : List Char → Nat
  | '.' :: cs => 1 + Pattern.countWhile Text.isDigit cs
  | _ => 0

theorem length_spanNumeral_false (cs : List Char) :
    (spanNumeral false cs).1.length = Pattern.countWhile Text.isDigit cs +
      fraction (cs.drop (Pattern.countWhile Text.isDigit cs)) := by
  induction cs with
  | nil => rfl
  | cons c cs ih =>
    by_cases digit : Text.isDigit c = true
    · have count : Pattern.countWhile Text.isDigit (c :: cs) =
          Pattern.countWhile Text.isDigit cs + 1 := by
        simp [Pattern.countWhile, digit]
      rw [count, List.drop_succ_cons]
      simp only [spanNumeral, digit, if_true, List.length_cons, ih]
      omega
    · have count : Pattern.countWhile Text.isDigit (c :: cs) = 0 := by
        simp [Pattern.countWhile, digit]
      rw [count, List.drop_zero]
      by_cases point : c = '.'
      · have isFraction : fraction ('.' :: cs) = 1 + Pattern.countWhile Text.isDigit cs := rfl
        rw [point] at digit ⊢
        simp only [spanNumeral, digit, Bool.false_eq_true, if_false, and_self, if_true,
          List.length_cons, length_spanNumeral_true, isFraction]
        omega
      · have noFraction : fraction (c :: cs) = 0 := by
          unfold fraction
          split
          · rename_i same
            exact absurd (List.cons.inj same).1 point
          · rfl
        simp [spanNumeral, digit, point, noFraction]

end Cursor

namespace Grammar.Pattern

theorem take_countWhile (p : Char → Bool) (cs : List Char) :
    cs.take (countWhile p cs) = cs.takeWhile p := by
  have whole : cs.takeWhile p ++ cs.dropWhile p = cs := List.takeWhile_append_dropWhile
  conv => lhs; arg 2; rw [← whole]
  exact List.take_left

theorem drop_countWhile (p : Char → Bool) (cs : List Char) :
    cs.drop (countWhile p cs) = cs.dropWhile p := by
  have whole : cs.takeWhile p ++ cs.dropWhile p = cs := List.takeWhile_append_dropWhile
  conv => lhs; arg 2; rw [← whole]
  exact List.drop_left

theorem countWhile_le (p : Char → Bool) (cs : List Char) : countWhile p cs ≤ cs.length :=
  (List.takeWhile_prefix p).length_le

theorem numeral_extent {c : Char} {cs : List Char}
    (starts : (Text.isDigit c || c == '.') = true) :
    ∃ extent ≤ cs.length, extent? .numeral c cs = some extent ∧
      Cursor.spanNumeral false (c :: cs) = (c :: cs.take extent, cs.drop extent) := by
  obtain ⟨extent, found, length⟩ : ∃ extent, extent? .numeral c cs = some extent ∧
      (Cursor.spanNumeral false (c :: cs)).1.length = extent + 1 := by
    by_cases digit : Text.isDigit c = true
    · refine ⟨countWhile Text.isDigit cs +
        Cursor.fraction (cs.drop (countWhile Text.isDigit cs)), ?_, ?_⟩
      · simp only [extent?, digit, if_true]
        split
        · rename_i part rest
          rw [rest, Nat.add_assoc]
          rfl
        · rename_i noPoint
          rw [Cursor.fraction]
          · rfl
          · exact noPoint
      · simp only [Cursor.spanNumeral, digit, if_true, List.length_cons,
          Cursor.length_spanNumeral_false]
    · have point : c = '.' := by simpa [digit] using starts
      subst point
      refine ⟨countWhile Text.isDigit cs, ?_, ?_⟩
      · simp only [extent?, digit, Bool.false_eq_true, if_false, if_true]
      · simp only [Cursor.spanNumeral, digit, Bool.false_eq_true, if_false, and_self, if_true,
          List.length_cons, Cursor.length_spanNumeral_true]
  have whole := Cursor.spanNumeral_append false (c :: cs)
  have within : extent ≤ cs.length := by
    have lengths := congrArg List.length whole
    rw [List.length_append, length, List.length_cons] at lengths
    omega
  have front : (Cursor.spanNumeral false (c :: cs)).1 = c :: cs.take extent := by
    rw [← List.take_succ_cons, ← length]
    conv => rhs; arg 2; rw [← whole]
    exact List.take_left.symm
  have back : (Cursor.spanNumeral false (c :: cs)).2 = cs.drop extent := by
    rw [← List.drop_succ_cons, ← length]
    conv => rhs; arg 2; rw [← whole]
    exact List.drop_left.symm
  exact ⟨extent, within, found, Prod.ext front back⟩

theorem quotedLength?_cons {quote c : Char} (plain : c ≠ '\\') (cs : List Char) :
    quotedLength? quote (c :: cs) =
      if c = quote then some 1 else (quotedLength? quote cs).map (· + 1) := by
  rw [quotedLength?]
  · exact fun _ _ same => absurd same plain
  · exact fun same => absurd same plain

theorem one_le_quotedLength {quote : Char} {cs : List Char} {n : Nat}
    (found : quotedLength? quote cs = some n) : 1 ≤ n ∧ n ≤ cs.length := by
  fun_induction quotedLength? quote cs generalizing n with
  | case1 => cases found
  | case2 c cs ih =>
    obtain ⟨m, inner, rfl⟩ := Option.map_eq_some_iff.mp found
    have bounds := ih inner
    simp only [List.length_cons]
    omega
  | case3 => cases found
  | case4 cs =>
    cases found
    simp
  | case5 c cs _ _ _ ih =>
    obtain ⟨m, inner, rfl⟩ := Option.map_eq_some_iff.mp found
    have bounds := ih inner
    simp only [List.length_cons]
    omega

end Grammar.Pattern

namespace Cursor

open Grammar.Pattern (quotedLength? quotedLength?_cons one_le_quotedLength)

theorem unescape_cons {c : Char} (plain : c ≠ '\\') (cs : List Char) :
    Literal.unescape (c :: cs) = c :: Literal.unescape cs := by
  rw [Literal.unescape]
  · exact fun _ _ same => absurd same plain
  · exact fun same => absurd same plain

theorem dropLast_take_cons (c : Char) {cs : List Char} {n : Nat} (some_taken : 1 ≤ n)
    (within : n ≤ cs.length) :
    ((c :: cs).take (n + 1)).dropLast = c :: (cs.take n).dropLast := by
  have nonempty : cs.take n ≠ [] := by
    intro empty
    have none_taken := congrArg List.length empty
    rw [List.length_take, List.length_nil] at none_taken
    omega
  rw [List.take_succ_cons, List.dropLast_cons_of_ne_nil nonempty]

/-- Closing a string while resolving its backslashes, and finding its end first. -/
theorem closeString_eq {quote : Char} (plain : quote ≠ '\\') (cs : List Char) :
    closeString quote cs = (quotedLength? quote cs).map fun n =>
      (Literal.unescape (cs.take n).dropLast, n, cs.drop n) := by
  fun_induction closeString quote cs with
  | case1 => rfl
  | case2 c cs ih =>
    rw [ih, quotedLength?]
    cases found : quotedLength? quote cs with
    | none => rfl
    | some n =>
      obtain ⟨some_taken, within⟩ := one_le_quotedLength found
      have inner := dropLast_take_cons c some_taken within
      have outer : (('\\' :: c :: cs).take (n + 2)).dropLast =
          '\\' :: ((c :: cs).take (n + 1)).dropLast :=
        dropLast_take_cons '\\' (by omega) (by simpa using within)
      simp only [Option.map_some, outer, inner, Literal.unescape, List.drop_succ_cons]
  | case3 cs => simp [quotedLength?_cons plain, Literal.unescape]
  | case4 cs only_backslash =>
    cases cs with
    | nil => rfl
    | cons c cs => exact (only_backslash c cs rfl rfl).elim
  | case5 c cs _ notQuote notBackslash ih =>
    rw [ih, quotedLength?_cons notBackslash, if_neg notQuote]
    cases found : quotedLength? quote cs with
    | none => rfl
    | some n =>
      obtain ⟨some_taken, within⟩ := one_le_quotedLength found
      have inner := dropLast_take_cons c some_taken within
      simp only [Option.map_some, inner, unescape_cons notBackslash, List.drop_succ_cons]

end Cursor

namespace Grammar.LexemeStream

open Pattern (countWhile)

variable {c : Char} {cs : List Char}

theorem match?_name (starts : Text.startsName c = true) :
    match? c cs = some (.name, countWhile Text.continuesName cs) := by
  simp [match?, Pattern.all, Pattern.extent?, starts]

theorem match?_numeral {extent : Nat} (starts : (Text.isDigit c || c == '.') = true)
    (found : Pattern.extent? .numeral c cs = some extent) :
    match? c cs = some (.numeral, extent) := by
  have noName : Text.startsName c = false := by
    rw [Bool.eq_false_iff]
    intro name
    have noDigit := Text.isDigit_eq_false_of_startsName name
    have point : c = '.' := by simpa [noDigit] using starts
    subst point
    exact absurd name (by decide)
  have notName : Pattern.extent? .name c cs = none := by simp [Pattern.extent?, noName]
  simp [match?, Pattern.all, notName, found]

theorem match?_quoted (quote : c = '"' ∨ c = Text.apostrophe) :
    match? c cs = (Pattern.quotedLength? c cs).map fun extent => (.quoted c, extent) := by
  have notName : Text.startsName c = false := by rcases quote with rfl | rfl <;> decide
  have notDigit : Text.isDigit c = false := by rcases quote with rfl | rfl <;> decide
  have notBlank : Text.isBlank c = false := by rcases quote with rfl | rfl <;> decide
  simp only [Text.apostrophe] at quote
  cases found : Pattern.quotedLength? c cs with
  | none =>
    rcases quote with rfl | rfl <;>
      simp [match?, Pattern.all, Pattern.extent?, notName, notDigit, notBlank, found,
        Text.apostrophe]
  | some extent =>
    rcases quote with rfl | rfl <;>
      simp [match?, Pattern.all, Pattern.extent?, notName, notDigit, found, Text.apostrophe]

theorem match?_comment : match? '#' cs = some (.comment, countWhile (· != '\n') cs) := by
  have notName : Text.startsName '#' = false := by decide
  have notDigit : Text.isDigit '#' = false := by decide
  simp [match?, Pattern.all, Pattern.extent?, notName, notDigit, Text.apostrophe]

theorem match?_blanks (blank : Text.isBlank c = true) :
    match? c cs = some (.blanks, countWhile Text.isBlank cs) := by
  have notName : Text.startsName c = false := by
    rw [Bool.eq_false_iff]
    exact fun name => by simp [Text.isBlank_eq_false_of_startsName name] at blank
  have notDigit : Text.isDigit c = false := by
    rw [Bool.eq_false_iff]
    exact fun digit => by simp [Text.isBlank_eq_false_of_isDigit digit] at blank
  have different {d : Char} (notBlank : Text.isBlank d = false) : c ≠ d := by
    rintro rfl
    exact absurd blank (Bool.eq_false_iff.mp notBlank)
  have notPoint : c ≠ '.' := different (by decide)
  have notQuote : c ≠ '"' := different (by decide)
  have notApostrophe : c ≠ Text.apostrophe := different (by decide)
  have notHash : c ≠ '#' := different (by decide)
  simp [match?, Pattern.all, Pattern.extent?, blank, notName, notDigit, notPoint, notQuote,
    notApostrophe, notHash]

def operator (kind : TokenKind) : Terminal := Token.terminal ⟨kind, .null, .nowhere⟩

theorem operator_of_single {kind : TokenKind} (single : TokenKind.ofChar? c = some kind) :
    (operator kind).kind = kind ∧ ∀ text i j, Lexeme.value ⟨operator kind, text, i, j⟩ = .null := by
  unfold TokenKind.ofChar? at single
  split at single <;> cases single <;> exact ⟨rfl, fun _ _ _ => rfl⟩

theorem operator_of_pair {d : Char} {kind : TokenKind} (pair : TokenKind.ofPair? c d = some kind) :
    (operator kind).kind = kind ∧ ∀ text i j, Lexeme.value ⟨operator kind, text, i, j⟩ = .null := by
  unfold TokenKind.ofPair? at pair
  split at pair <;> cases pair <;> exact ⟨rfl, fun _ _ _ => rfl⟩

theorem match?_pair {d : Char} {kind : TokenKind} (pair : TokenKind.ofPair? c d = some kind) :
    match? c (d :: cs) = some (.literal (operator kind) [c, d], 1) := by
  unfold TokenKind.ofPair? at pair
  split at pair <;> cases pair <;> rfl

theorem match?_single {kind : TokenKind} (single : TokenKind.ofChar? c = some kind)
    (alone : ∀ d ∈ cs.head?, TokenKind.ofPair? c d = none) :
    match? c cs = some (.literal (operator kind) [c], 0) := by
  obtain ⟨notName, notDigit, notBlank⟩ := TokenKind.plain_of_ofChar? single
  unfold TokenKind.ofChar? at single
  cases cs with
  | nil => split at single <;> cases single <;> rfl
  | cons d ds =>
    have noPair := alone d rfl
    split at single <;> cases single <;> try rfl
    all_goals
      have differs : ('=' == d) = false := by
        rw [beq_eq_false_iff_ne]
        rintro rfl
        cases noPair
      simp [match?, Pattern.all, Pattern.extent?, notName, notDigit, notBlank, differs,
        Text.apostrophe, List.isPrefixOf, operator, Token.terminal, -List.isPrefixOf_iff_prefix]

theorem match?_eq_none (notName : Text.startsName c = false) (notDigit : Text.isDigit c = false)
    (notPoint : c ≠ '.') (notQuote : c ≠ '"') (notApostrophe : c ≠ Text.apostrophe)
    (notHash : c ≠ '#') (notBlank : Text.isBlank c = false)
    (notOperator : TokenKind.ofChar? c = none) : match? c cs = none := by
  have other (d : Char) {kind : TokenKind} (known : TokenKind.ofChar? d = some kind) : ¬ d = c := by
    rintro rfl
    rw [notOperator] at known
    cases known
  simp [match?, Pattern.all, Pattern.extent?, notName, notDigit, notPoint, notQuote, notApostrophe,
    notHash, notBlank, other '+' rfl, other '-' rfl, other '*' rfl, other '/' rfl, other '!' rfl,
    other '=' rfl, other ',' rfl, other '<' rfl, other '>' rfl, other '^' rfl, other ';' rfl,
    other '(' rfl, other ')' rfl, other '[' rfl, other ']' rfl]

/-- What both find in front of `c :: cs`. -/
inductive Found (c : Char) (cs : List Char) : Prop where
  | dropped {pattern : Pattern} {extent : Nat} (found : match? c cs = some (pattern, extent))
    (within : extent ≤ cs.length) (terminal : pattern.terminal? (c :: cs.take extent) = none)
    (skips : ∀ p, Cursor.skip p false (c :: cs) =
      Cursor.skip (p.walk (c :: cs.take extent)) false (cs.drop extent))
  | kept {pattern : Pattern} {extent : Nat} {w : Terminal}
    (found : match? c cs = some (pattern, extent))
    (within : extent ≤ cs.length) (terminal : pattern.terminal? (c :: cs.take extent) = some w)
    (pulls : ∀ p i j, Cursor.pull ⟨p, c :: cs⟩ = Cursor.take p w.kind
      (Lexeme.value ⟨w, c :: cs.take extent, i, j⟩) (c :: cs.take extent) (cs.drop extent))
    (proper : ∀ i j span, Token.terminal
      ⟨w.kind, Lexeme.value ⟨w, c :: cs.take extent, i, j⟩, span⟩ = w)
  | missed (found : match? c cs = none)
    (faults : ∀ p, (Cursor.pull ⟨p, c :: cs⟩).1 = .fault
      (if c = '"' ∨ c = Text.apostrophe then ⟨.unclosedString c, ⟨p, p.walk (c :: cs)⟩⟩
      else ⟨.illegalCharacter c, ⟨p, p.past⟩⟩))

theorem found_blanks (blank : Text.isBlank c = true) : Found c cs := by
  refine .dropped (match?_blanks blank) (Pattern.countWhile_le _ _) rfl fun p => ?_
  rw [Pattern.take_countWhile, Pattern.drop_countWhile]
  have all_blank : ∀ d ∈ c :: cs.takeWhile Text.isBlank, Text.isBlank d = true := by
    intro d member
    rcases List.mem_cons.mp member with rfl | later
    · exact blank
    · exact List.all_eq_true.mp List.all_takeWhile d later
  have skipped := Cursor.skip_blanks p all_blank (cs.dropWhile Text.isBlank)
  rwa [List.cons_append, List.takeWhile_append_dropWhile] at skipped

theorem found_comment : Found '#' cs := by
  refine .dropped match?_comment (Pattern.countWhile_le _ _) rfl fun p => ?_
  rw [Pattern.take_countWhile, Pattern.drop_countWhile, Position.walk_cons,
    ← Cursor.skip_comment]
  rfl

theorem mem_keywords_iff {text : List Char} : String.ofList text ∈ keywords ↔
    text = ['l', 'e', 't'] ∨ text = ['a', 'n', 'd'] ∨ text = ['o', 'r'] := by
  have same {word : List Char} : String.ofList text = String.ofList word ↔ text = word :=
    String.ofList_inj
  simp only [keywords, List.mem_cons, List.not_mem_nil, or_false, ← same]

theorem kind_nameTerminal (text : List Char) : (Pattern.nameTerminal text).kind =
    if String.ofList text ∈ keywords then .keyword else .identifier := by
  simp only [mem_keywords_iff, Pattern.nameTerminal]
  grind [Terminal.kind]

theorem terminal_of_name (text : List Char) (span : Span) :
    Token.terminal ⟨(Pattern.nameTerminal text).kind, .string (String.ofList text), span⟩ =
      Pattern.nameTerminal text := by
  have same (word : List Char) : (Json.string (String.ofList text) =
      .string (String.ofList word)) ↔ text = word := by
    rw [Json.string.injEq, String.ofList_inj]
  have isLet := same ['l', 'e', 't']
  have isAnd := same ['a', 'n', 'd']
  have isOr := same ['o', 'r']
  unfold Pattern.nameTerminal
  split
  · simp [Token.terminal, Terminal.kind, *]
  · split
    · simp [Token.terminal, Terminal.kind, *]
    · split <;> simp [Token.terminal, Terminal.kind, *]

theorem value_of_name (text : List Char) (i j : Nat) :
    Lexeme.value ⟨Pattern.nameTerminal text, text, i, j⟩ = .string (String.ofList text) := by
  unfold Pattern.nameTerminal Lexeme.value
  grind

theorem found_name (starts : Text.startsName c = true) : Found c cs := by
  have goesOn := Text.continuesName_of_startsName starts
  refine .kept (match?_name starts) (Pattern.countWhile_le _ _) rfl (fun p i j => ?_)
    (fun i j span => ?_)
  · rw [value_of_name, kind_nameTerminal, Pattern.take_countWhile, Pattern.drop_countWhile,
      Cursor.pull_name starts]
    simp [Cursor.pullName, goesOn]
  · rw [value_of_name]
    exact terminal_of_name _ span

theorem found_numeral (starts : (Text.isDigit c || c == '.') = true) : Found c cs := by
  have ⟨extent, within, found, spans⟩ := @Pattern.numeral_extent c cs starts
  refine .kept (match?_numeral starts found) within rfl (fun p i j => ?_) (fun _ _ _ => rfl)
  rw [Cursor.pull_numeral starts, Cursor.pullNumeral, spans]
  rfl

theorem found_quoted (quote : c = '"' ∨ c = Text.apostrophe) : Found c cs := by
  have plain : c ≠ '\\' := by rcases quote with rfl | rfl <;> decide
  have closes := Cursor.closeString_eq plain cs
  have found : match? c cs = _ := match?_quoted quote
  cases extent : Pattern.quotedLength? c cs with
  | none =>
    rw [extent] at closes found
    refine .missed found fun p => ?_
    rw [Cursor.pull_quote quote, Cursor.pullString, closes, if_pos quote]
    rfl
  | some n =>
    rw [extent] at closes found
    refine .kept found (Pattern.one_le_quotedLength extent).2 rfl (fun p i j => ?_)
      (fun _ _ _ => rfl)
    rw [Cursor.pull_quote quote, Cursor.pullString, closes]
    rfl

theorem found_operator {kind : TokenKind} (single : TokenKind.ofChar? c = some kind) :
    Found c cs := by
  by_cases paired : ∃ d ds pair, cs = d :: ds ∧ TokenKind.ofPair? c d = some pair
  · obtain ⟨d, ds, pair, rfl, isPair⟩ := paired
    have ⟨isKind, isNull⟩ := operator_of_pair isPair
    refine .kept (match?_pair isPair) (Nat.le_add_left 1 _) rfl (fun p i j => ?_)
      (fun i j span => ?_)
    · rw [Cursor.pull_operator single, isKind, isNull]
      simp only [Cursor.pullOperator, isPair]
      rfl
    · rw [isKind, isNull]
      rfl
  · have alone : ∀ d ∈ cs.head?, TokenKind.ofPair? c d = none := by
      intro d first
      obtain ⟨ds, rfl⟩ := List.head?_eq_some_iff.mp first
      rw [Option.eq_none_iff_forall_ne_some]
      exact fun pair isPair => paired ⟨d, ds, pair, rfl, isPair⟩
    have ⟨isKind, isNull⟩ := operator_of_single single
    refine .kept (match?_single single alone) (Nat.zero_le _) rfl (fun p i j => ?_)
      (fun i j span => ?_)
    · rw [Cursor.pull_operator single, isKind, isNull]
      cases cs with
      | nil => rfl
      | cons d ds =>
        simp only [Cursor.pullOperator, alone d rfl]
        rfl
    · rw [isKind, isNull]
      rfl

theorem found (c : Char) (cs : List Char) : Found c cs := by
  cases single : TokenKind.ofChar? c with
  | some kind => exact found_operator single
  | none =>
    by_cases numeral : (Text.isDigit c || c == '.') = true
    · exact found_numeral numeral
    by_cases name : Text.startsName c = true
    · exact found_name name
    by_cases quote : c = '"' ∨ c = Text.apostrophe
    · exact found_quoted quote
    by_cases blank : Text.isBlank c = true
    · exact found_blanks blank
    by_cases comment : c = '#'
    · exact comment ▸ found_comment
    have ⟨notDigit, notPoint⟩ : Text.isDigit c = false ∧ c ≠ '.' := by simpa using numeral
    have ⟨notQuote, notApostrophe⟩ := not_or.mp quote
    have notBlank : Text.isBlank c = false := by simpa using blank
    have inLine : c ≠ '\n' := by
      rintro rfl
      exact blank (by decide)
    refine .missed (match?_eq_none (by simpa using name) notDigit notPoint notQuote notApostrophe
      comment notBlank single) fun p => ?_
    simp only [Cursor.pull, Cursor.skip_solid notBlank comment, Cursor.pullHere, single, numeral,
      name, quote, if_false, Bool.false_eq_true, Position.advance_eq_past inLine]

theorem ofCharsAt_missed (nothing : match? c cs = none) (index : Nat) :
    ofCharsAt index (c :: cs) = ⟨[], some (index, c)⟩ := by
  rw [ofCharsAt, nothing]

theorem ofCharsAt_dropped {pattern : Pattern} {extent : Nat}
    (first : match? c cs = some (pattern, extent))
    (terminal : pattern.terminal? (c :: cs.take extent) = none) (index : Nat) :
    ofCharsAt index (c :: cs) = ofCharsAt (index + extent + 1) (cs.drop extent) := by
  rw [ofCharsAt, first]
  simp only [terminal]

theorem ofCharsAt_kept {pattern : Pattern} {extent : Nat} {w : Terminal}
    (first : match? c cs = some (pattern, extent))
    (terminal : pattern.terminal? (c :: cs.take extent) = some w) (index : Nat) :
    ofCharsAt index (c :: cs) =
      ⟨⟨w, c :: cs.take extent, index, index + extent + 1⟩ ::
        (ofCharsAt (index + extent + 1) (cs.drop extent)).lexemes,
        (ofCharsAt (index + extent + 1) (cs.drop extent)).fault⟩ := by
  rw [ofCharsAt, first]
  simp only [terminal]

/-- The tokens of the lexemes, up to the end of the text or to the fault. -/
def toTokens (lines : LineIndex) (stream : LexemeStream) : TokenStream :=
  ⟨stream.lexemes.map (·.toToken lines),
    match stream.fault with
    | none => .finished (lines.position lines.origin.text.length)
    | some (index, c) => .fault (lexicalFault lines index c)⟩

end Grammar.LexemeStream

namespace TokenStream

open Grammar.LexemeStream (match? ofCharsAt found)

/-- Where no pattern matches, the scanner finds the fault of that index. -/
theorem fault_of_missed {origin : Origin} {front cs : List Char} {c : Char}
    (text : origin.text.toList = front ++ c :: cs) (nothing : match? c cs = none) :
    (Cursor.pull ⟨(Position.start origin).walk front, c :: cs⟩).1 =
      .fault (Grammar.lexicalFault (.ofOrigin origin) front.length c) := by
  have here := LineIndex.position_eq_walk text
  have stop : (LineIndex.ofOrigin origin).position origin.text.length =
      ((Position.start origin).walk front).walk (c :: cs) := by
    rw [← String.length_toList, ← Position.walk_append, ← text]
    exact LineIndex.position_eq_walk (List.append_nil _).symm
  cases found c cs with
  | missed _ faults =>
    rw [faults, ← stop, ← here]
    rfl
  | dropped first | kept first => simp [nothing] at first

/-- Behind any front of the text, the scanner finds what the patterns find. -/
theorem ofCursor_eq_toTokens {origin : Origin} {front cs : List Char}
    (text : origin.text.toList = front ++ cs) :
    ofCursor ⟨(Position.start origin).walk front, cs⟩ =
        (ofCharsAt front.length cs).toTokens (.ofOrigin origin) ∧
      Grammar.Proper (.ofOrigin origin) (ofCharsAt front.length cs).lexemes := by
  have here := LineIndex.position_eq_walk text
  match cs with
  | [] =>
    have whole : origin.text.length = front.length := by
      rw [← String.length_toList, text, List.append_nil]
    rw [ofCursor_eq, ofCharsAt]
    refine ⟨?_, fun _ member => by cases member⟩
    show (⟨[], .finished ((Position.start origin).walk front)⟩ : TokenStream) =
      ⟨[], .finished ((LineIndex.ofOrigin origin).position origin.text.length)⟩
    rw [whole, here]
  | c :: cs =>
    -- The recursion goes on behind the match, whose characters join the front.
    have behind (extent : Nat) :
        origin.text.toList = (front ++ c :: cs.take extent) ++ cs.drop extent := by
      simp [text]
    have shorter (extent : Nat) : (cs.drop extent).length < (c :: cs).length := by
      simp only [List.length_drop, List.length_cons]
      omega
    have lengths {extent : Nat} (within : extent ≤ cs.length) :
        (front ++ c :: cs.take extent).length = front.length + extent + 1 := by
      simp only [List.length_append, List.length_cons, List.length_take]
      omega
    cases found c cs with
    | missed nothing =>
      rw [Grammar.LexemeStream.ofCharsAt_missed nothing]
      refine ⟨?_, fun _ member => by cases member⟩
      exact ofCursor_of_fault (fault_of_missed text nothing)
    | dropped first within terminal skips =>
      rename_i pattern extent
      have following := ofCursor_eq_toTokens (behind extent)
      have same : Cursor.pull ⟨(Position.start origin).walk front, c :: cs⟩ =
          Cursor.pull ⟨(Position.start origin).walk (front ++ c :: cs.take extent),
            cs.drop extent⟩ := by
        rw [Cursor.pull, skips, ← Position.walk_append]
        rfl
      rw [ofCursor_congr same, Grammar.LexemeStream.ofCharsAt_dropped first terminal,
        ← lengths within]
      exact following
    | kept first within terminal pulls proper =>
      rename_i pattern extent w
      have following := ofCursor_eq_toTokens (behind extent)
      have stop := LineIndex.position_eq_walk (behind extent)
      rw [lengths within] at following stop
      rw [Grammar.LexemeStream.ofCharsAt_kept first terminal]
      refine ⟨?_, List.forall_mem_cons.mpr ⟨proper _ _ _, following.2⟩⟩
      rw [ofCursor_of_token (pulls _ front.length (front.length + extent + 1)),
        ← Position.walk_append, following.1, ← stop, ← here]
      rfl
termination_by cs.length

theorem ofOrigin_eq_toTokens (origin : Origin) :
    ofOrigin origin = (Grammar.LexemeStream.ofOrigin origin).toTokens (.ofOrigin origin) ∧
      Grammar.Proper (.ofOrigin origin) (Grammar.LexemeStream.ofOrigin origin).lexemes :=
  @ofCursor_eq_toTokens origin [] origin.text.toList rfl

end TokenStream

end SceneScript
