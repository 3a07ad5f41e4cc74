import Mathlib.Logic.Function.Iterate
import SceneScript.Proofs.Parse.Layout
import SceneScript.Proofs.Token.Words

/-!
The scanner takes a text apart without remainder: what its pulls find and the gaps in between
make up the text, and every pull moves on until the end is reached for good.
-/

namespace SceneScript

open Word (Denotes IsWord Lead lead?)

/-- What may stand in front of `rest` without belonging to a token: blanks and comments, which
    run to the end of their line. -/
inductive Gap : List Char → List Char → Prop where
  | nil (rest : List Char) : Gap [] rest
  | blank {c : Char} {gap rest : List Char} (blank : Text.isBlank c = true)
    (others : Gap gap rest) : Gap (c :: gap) rest
  | comment {line gap rest : List Char} (inLine : '\n' ∉ line) (others : Gap gap rest) :
    Gap ('#' :: line ++ '\n' :: gap) rest
  | lastLine {line : List Char} (inLine : '\n' ∉ line) : Gap ('#' :: line) []

/-- What a pull finds where no gap stands, and the cursor behind it. -/
inductive Piece (p : Position) : List Char → Pull → Cursor → Prop where
  | token {lexeme rest : List Char} {kind : TokenKind} {value : Json}
    (denotes : Denotes lexeme kind value) (longest : Longest IsWord lexeme rest) :
    Piece p (lexeme ++ rest) (.token ⟨kind, value, ⟨p, p.walk lexeme⟩⟩) ⟨p.walk lexeme, rest⟩
  | illegal {c : Char} {rest : List Char} (noQuote : ¬ (c = '"' ∨ c = Text.apostrophe))
    (noWord : ∀ w, w <+: c :: rest → ¬ IsWord w) :
    Piece p (c :: rest) (.fault ⟨.illegalCharacter c, ⟨p, p.walk [c]⟩⟩) ⟨p.walk [c], rest⟩
  | unclosed {quote : Char} {rest : List Char} (isQuote : quote = '"' ∨ quote = Text.apostrophe)
    (noWord : ∀ w, w <+: quote :: rest → ¬ IsWord w) :
    Piece p (quote :: rest) (.fault ⟨.unclosedString quote, ⟨p, p.walk (quote :: rest)⟩⟩)
      ⟨p.walk (quote :: rest), []⟩

/-- From the cursor on the text consists of gaps and of what the pulls have found. -/
inductive Tiles : Cursor → List Pull → Prop where
  | finished {p : Position} {gap : List Char} (last : Gap gap []) : Tiles ⟨p, gap⟩ []
  | piece {p : Position} {gap rest : List Char} {pull : Pull} {next : Cursor} {pulls : List Pull}
    (before : Gap gap rest) (piece : Piece (p.walk gap) rest pull next)
    (others : Tiles next pulls) : Tiles ⟨p, gap ++ rest⟩ (pull :: pulls)

/-- What the pull has found lies between two indices. -/
def Pull.Covers (a b : Nat) : Pull → Prop
  | .token t => t.span.Covers a b
  | .fault f => f.span.Covers a b
  | .finished => False

namespace Cursor

/-- The cursor after so many pulls. -/
def after (cursor : Cursor) (n : Nat) : Cursor := (fun c => c.pull.2)^[n] cursor

theorem after_succ (cursor : Cursor) (n : Nat) : cursor.after (n + 1) = cursor.pull.2.after n :=
  rfl

theorem skip_blank {c : Char} (blank : Text.isBlank c = true) (p : Position) (cs : List Char) :
    skip p false (c :: cs) = skip (p.advance c) false cs := by
  simp [skip, blank]

theorem skip_gap (p : Position) (cs : List Char) : ∃ gap rest, cs = gap ++ rest ∧ Gap gap rest ∧
    skip p false cs = ⟨p.walk gap, rest⟩ ∧
    ∀ c ∈ rest.head?, Text.isBlank c = false ∧ c ≠ '#' := by
  match cs with
  | [] => exact ⟨[], [], rfl, .nil [], rfl, by simp⟩
  | c :: cs =>
    by_cases blank : Text.isBlank c = true
    · obtain ⟨gap, rest, rfl, isGap, skips, solid⟩ := skip_gap (p.advance c) cs
      exact ⟨c :: gap, rest, rfl, .blank blank isGap, (skip_blank blank p _).trans skips, solid⟩
    by_cases comment : c = '#'
    · subst comment
      have splits : cs.takeWhile (· != '\n') ++ cs.dropWhile (· != '\n') = cs :=
        List.takeWhile_append_dropWhile
      have inLine : '\n' ∉ cs.takeWhile (· != '\n') := by
        intro member
        simpa using List.all_eq_true.mp List.all_takeWhile _ member
      have skips : skip p false ('#' :: cs) = skip (p.walk ('#' :: cs.takeWhile (· != '\n'))) false
          (cs.dropWhile (· != '\n')) := skip_comment (p.advance '#') cs
      rw [skips]
      cases behind : cs.dropWhile (· != '\n') with
      | nil =>
        rw [behind, List.append_nil] at splits
        rw [splits] at inLine ⊢
        exact ⟨'#' :: cs, [], by simp, .lastLine inLine, rfl, by simp⟩
      | cons d ds =>
        -- The comment ends in front of the newline; the search goes on behind it.
        have newline : d = '\n' := by
          have stops := List.head?_dropWhile_not (· != '\n') cs
          simpa [behind] using stops
        subst newline
        have shorter : ds.length < cs.length + 1 := by
          have lengths := congrArg List.length splits
          rw [behind, List.length_append, List.length_cons] at lengths
          omega
        obtain ⟨gap, rest, rfl, isGap, skips, solid⟩ :=
          skip_gap ((p.walk ('#' :: cs.takeWhile (· != '\n'))).advance '\n') ds
        refine ⟨'#' :: cs.takeWhile (· != '\n') ++ '\n' :: gap, rest, ?_, .comment inLine isGap,
          ?_, solid⟩
        · conv => lhs; rw [← splits, behind]
          simp
        · rw [skip_blank (by decide), skips, Position.walk_append]
          rfl
    · have solid : Text.isBlank c = false := by simpa using blank
      refine ⟨[], c :: cs, rfl, .nil _, skip_solid solid comment p, ?_⟩
      rintro _ ⟨⟩
      exact ⟨solid, comment⟩
termination_by cs.length

section PullHere

variable {c : Char} {cs : List Char} (p : Position)

theorem piece_take {lexeme back : List Char} {kind : TokenKind} {value : Json}
    (splits : lexeme ++ back = cs) (denotes : Denotes lexeme kind value)
    (longest : Longest IsWord lexeme back) :
    Piece p cs (take p kind value lexeme back).1 (take p kind value lexeme back).2 := by
  rw [← splits]
  exact .token denotes longest

theorem piece_operator {kind : TokenKind} (single : TokenKind.ofChar? c = some kind) :
    Piece p (c :: cs) (pullOperator p kind c cs).1 (pullOperator p kind c cs).2 := by
  have words (w : List Char) : IsWord (c :: w) ↔
      w = [] ∨ ∃ d, w = [d] ∧ ∃ kind, TokenKind.ofPair? c d = some kind := by
    rw [Word.isWord_cons_iff, Word.lead?_eq_operator_iff.mpr ⟨kind, single⟩]
  cases cs with
  | nil => exact piece_take p rfl (.single single) (.cons words (.nil (.inl rfl) (by simp)))
  | cons d back =>
    rw [pullOperator]
    cases paired : TokenKind.ofPair? c d with
    | some both =>
      refine piece_take p rfl (.pair paired) (.cons words ⟨.inr ⟨d, rfl, both, paired⟩, ?_⟩)
      rintro _ (rfl | ⟨e, rfl, -⟩) _ <;> simp
    | none =>
      refine piece_take p rfl (.single single) (.cons words (.nil (.inl rfl) ?_))
      rintro _ ⟨⟩ w goesOn
      simp [paired] at goesOn

theorem piece_numeral (starts : (Text.isDigit c || c == '.') = true) :
    Piece p (c :: cs) (pullNumeral p (c :: cs)).1 (pullNumeral p (c :: cs)).2 := by
  obtain ⟨extent, -, -, spans⟩ := @Grammar.Pattern.numeral_extent c cs starts
  have longest := Word.longest_numeral starts spans
  have splits := spanNumeral_append false (c :: cs)
  rw [spans] at splits
  rw [pullNumeral, spans]
  refine piece_take p splits (.numeral longest.1) (longest.of_first fun w => ?_)
  rw [Word.isWord_cons_iff, Word.lead?_eq_numeral_iff.mpr starts]

theorem piece_name (starts : Text.startsName c = true) :
    Piece p (c :: cs) (pullName p (c :: cs)).1 (pullName p (c :: cs)).2 := by
  have longest := Word.longest_name starts cs
  have goesOn := Text.continuesName_of_startsName starts
  have splits : c :: cs.takeWhile Text.continuesName ++ cs.dropWhile Text.continuesName =
      c :: cs := by
    rw [List.cons_append, List.takeWhile_append_dropWhile]
  rw [pullName, List.takeWhile_cons_of_pos goesOn, List.dropWhile_cons_of_pos goesOn]
  refine piece_take p splits (.name longest.1) (longest.of_first fun w => ?_)
  rw [Word.isWord_cons_iff, Word.lead?_eq_name_iff.mpr starts]

theorem piece_string (isQuote : c = '"' ∨ c = Text.apostrophe) :
    Piece p (c :: cs) (pullString p c cs).1 (pullString p c cs).2 := by
  have plain := Word.plain_of_quote isQuote
  have words (w : List Char) : IsWord (c :: w) ↔ Word.Quoted c (c :: w) := by
    rw [Word.isWord_cons_iff, Word.lead?_eq_quote_iff.mpr isQuote]
  rw [pullString]
  cases closes : closeString c cs with
  | some closed =>
    obtain ⟨value, length, back⟩ := closed
    obtain ⟨body, inside, rfl, rfl, rfl⟩ := Word.exists_body_of_closeString closes
    simp only [Word.take_closed]
    exact piece_take p (by simp) (.quoted isQuote inside)
      ((Word.longest_quoted plain inside).of_first words)
  | none =>
    refine .unclosed isQuote fun w isPrefix isWord => ?_
    obtain ⟨w, rfl⟩ := isWord.exists_cons isPrefix
    exact (Word.closeString_eq_none_iff plain).mp closes _ isPrefix ((words w).mp isWord)

theorem piece_pullHere :
    Piece p (c :: cs) (pullHere ⟨p, c :: cs⟩).1 (pullHere ⟨p, c :: cs⟩).2 := by
  cases single : TokenKind.ofChar? c with
  | some kind =>
    simp only [pullHere, single]
    exact piece_operator p single
  | none =>
    by_cases numeral : (Text.isDigit c || c == '.') = true
    · simp only [pullHere, single, numeral, if_true]
      exact piece_numeral p numeral
    by_cases name : Text.startsName c = true
    · simp only [pullHere, single, numeral, name, if_true]
      exact piece_name p name
    by_cases quote : c = '"' ∨ c = Text.apostrophe
    · simp only [pullHere, single, numeral, name, quote, if_true]
      exact piece_string p quote
    simp only [pullHere, single, numeral, name, quote, if_false]
    refine .illegal quote fun w isPrefix isWord => ?_
    have noLead : lead? c = none := by simp [lead?, single, numeral, name, quote]
    obtain ⟨w, rfl⟩ := isWord.exists_cons isPrefix
    rwa [Word.isWord_cons_iff, noLead] at isWord

end PullHere

/-- One pull: it passes a gap, and finds what stands behind that or the end of the text. -/
theorem pull_tiles (p : Position) (cs : List Char) :
    (Gap cs [] ∧ pull ⟨p, cs⟩ = (.finished, ⟨p.walk cs, []⟩)) ∨
      ∃ gap rest, cs = gap ++ rest ∧ Gap gap rest ∧
        Piece (p.walk gap) rest (pull ⟨p, cs⟩).1 (pull ⟨p, cs⟩).2 := by
  obtain ⟨gap, rest, rfl, isGap, skips, -⟩ := skip_gap p cs
  have pulls : pull ⟨p, gap ++ rest⟩ = pullHere ⟨p.walk gap, rest⟩ := by rw [pull, skips]
  cases rest with
  | nil =>
    rw [List.append_nil] at pulls ⊢
    exact .inl ⟨isGap, pulls⟩
  | cons c cs =>
    rw [pulls]
    exact .inr ⟨gap, c :: cs, rfl, isGap, piece_pullHere (p.walk gap)⟩

end Cursor

namespace Piece

variable {p : Position} {rest : List Char} {pull : Pull} {next : Cursor}

theorem exists_lexeme (piece : Piece p rest pull next) :
    ∃ lexeme, lexeme ≠ [] ∧ rest = lexeme ++ next.rest ∧ next.position = p.walk lexeme ∧
      pull.Covers p.index next.position.index := by
  have covers {lexeme : List Char} (some_taken : lexeme ≠ []) :
      Span.Covers ⟨p, p.walk lexeme⟩ p.index (p.walk lexeme).index := by
    refine ⟨p, p.walk lexeme, rfl, rfl, rfl, ?_⟩
    have positive := List.length_pos_iff.mpr some_taken
    rw [Position.index_walk]
    omega
  cases piece with
  | token denotes longest =>
    rename_i lexeme _ _ _
    have some_taken : lexeme ≠ [] := by
      rintro rfl
      exact Word.not_denotes_nil denotes
    exact ⟨lexeme, some_taken, rfl, rfl, covers some_taken⟩
  | illegal noQuote noWord => exact ⟨[_], by simp, rfl, rfl, covers (by simp)⟩
  | unclosed isQuote noWord => exact ⟨_ :: _, by simp, by simp, rfl, covers (by simp)⟩

theorem of_token {t : Token} (piece : Piece p rest (.token t) next) :
    ∃ lexeme, rest = lexeme ++ next.rest ∧ t.span = ⟨p, p.walk lexeme⟩ ∧
      Longest IsWord lexeme next.rest := by
  cases piece with
  | token denotes longest => exact ⟨_, rfl, rfl, longest⟩

end Piece

namespace Tiles

variable {cursor : Cursor} {pulls : List Pull}

theorem covers (tiles : Tiles cursor pulls) : ∀ pull ∈ pulls, ∃ a b,
    pull.Covers a b ∧ cursor.position.index ≤ a := by
  induction tiles with
  | finished last => simp
  | @piece p gap rest pull next pulls before piece others ih =>
    obtain ⟨lexeme, -, -, behind, covers⟩ := piece.exists_lexeme
    rw [List.forall_mem_cons]
    refine ⟨⟨_, _, covers, by simp⟩, fun later member => ?_⟩
    obtain ⟨a, b, covers, after⟩ := ih later member
    rw [behind, Position.index_walk, Position.index_walk] at after
    exact ⟨a, b, covers, by simp only; omega⟩

/-- What is found later lies further on. -/
theorem ordered (tiles : Tiles cursor pulls) : pulls.Pairwise fun earlier later =>
    ∃ a b c d, earlier.Covers a b ∧ later.Covers c d ∧ b ≤ c := by
  induction tiles with
  | finished last => exact .nil
  | piece before piece others ih =>
    obtain ⟨lexeme, -, -, -, first⟩ := piece.exists_lexeme
    refine List.pairwise_cons.mpr ⟨fun later member => ?_, ih⟩
    obtain ⟨c, d, covers, after⟩ := others.covers later member
    exact ⟨_, _, c, d, first, covers, after⟩

end Tiles

namespace Cursor

theorem after_finished {p : Position} (n : Nat) : after ⟨p, []⟩ n = ⟨p, []⟩ := by
  induction n with
  | zero => rfl
  | succ n ih => exact ih

/-- The pulls from a cursor on, up to the end of the text. -/
theorem exists_pulls (cursor : Cursor) : ∃ pulls, Tiles cursor pulls ∧
    (∀ n pull, pulls[n]? = some pull → (cursor.after n).pull.1 = pull ∧
      (cursor.after n).position.index < (cursor.after (n + 1)).position.index) ∧
    ∀ n, pulls.length ≤ n →
      (cursor.after n).pull = (.finished, ⟨cursor.position.walk cursor.rest, []⟩) := by
  obtain ⟨p, cs⟩ := cursor
  rcases pull_tiles p cs with ⟨last, finished⟩ | ⟨gap, rest, rfl, before, piece⟩
  · refine ⟨[], .finished last, by simp, fun n _ => ?_⟩
    cases n with
    | zero => exact finished
    | succ n =>
      rw [after_succ, finished, after_finished]
      rfl
  · generalize pulled : pull ⟨p, gap ++ rest⟩ = result at piece
    obtain ⟨found, next⟩ := result
    dsimp only at piece
    obtain ⟨lexeme, some_taken, same, behind, -⟩ := piece.exists_lexeme
    have positive := List.length_pos_iff.mpr some_taken
    have shorter : next.rest.length < (gap ++ rest).length := by
      rw [same, List.length_append, List.length_append]
      omega
    obtain ⟨pulls, tiles, yields, stops⟩ := exists_pulls next
    have goesOn (n : Nat) : after ⟨p, gap ++ rest⟩ (n + 1) = next.after n := by
      rw [after_succ, pulled]
    refine ⟨found :: pulls, .piece before piece tiles, fun n later isLater => ?_, fun n done => ?_⟩
    · cases n with
      | zero =>
        cases isLater
        refine ⟨congrArg Prod.fst pulled, ?_⟩
        show p.index < (after ⟨p, gap ++ rest⟩ 1).position.index
        rw [goesOn 0]
        show p.index < next.position.index
        rw [behind, Position.index_walk, Position.index_walk]
        omega
      | succ n =>
        rw [goesOn, goesOn]
        exact yields n later isLater
    · cases n with
      | zero => exact absurd done (Nat.not_succ_le_zero _)
      | succ n =>
        have ends : p.walk (gap ++ rest) = next.position.walk next.rest := by
          rw [same, behind, Position.walk_append, Position.walk_append]
        rw [goesOn, ends]
        exact stops n (Nat.le_of_succ_le_succ done)
termination_by cursor.rest.length

/-- Pulling on and on takes the whole text apart. The tokens and the faults follow each other in
    it, with gaps around them; a token has the characters of the longest word where it starts,
    which determine its kind and its value; every pull but the last ones moves on, and these find
    the end of the text and stay there. -/
theorem pulls_tile_text (origin : Origin) : ∃ pulls, Tiles (.ofOrigin origin) pulls ∧
    (pulls.Pairwise fun earlier later =>
      ∃ a b c d, earlier.Covers a b ∧ later.Covers c d ∧ b ≤ c) ∧
    (∀ n pull, pulls[n]? = some pull → ((ofOrigin origin).after n).pull.1 = pull ∧
      ((ofOrigin origin).after n).position.index <
        ((ofOrigin origin).after (n + 1)).position.index) ∧
    (∀ n, pulls.length ≤ n → ∃ stop, stop.index = origin.text.length ∧
      ((ofOrigin origin).after n).pull = (.finished, ⟨stop, []⟩)) ∧
    ∀ lexeme kind value kind' value', Denotes lexeme kind value → Denotes lexeme kind' value' →
      kind = kind' ∧ value = value' := by
  obtain ⟨pulls, tiles, yields, stops⟩ := exists_pulls (.ofOrigin origin)
  refine ⟨pulls, tiles, tiles.ordered, yields, fun n done => ⟨_, ?_, stops n done⟩,
    fun _ _ _ _ _ => Denotes.unique⟩
  simp [ofOrigin, Position.start, ← String.length_toList]

end Cursor

end SceneScript
