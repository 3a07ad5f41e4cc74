import SceneScript.Proofs.Token.Tiling
import SceneScript.Proofs.Token.Writing

/-!
Texts that are put together. A line break ends every token and every comment, so the characters in
front of one scan to the same words whatever follows it and wherever they stand (`Writes`).
-/

namespace SceneScript

open Word (Denotes IsWord)

/-- A token without its place. -/
def Token.word (t : Token) : TokenKind × Json := (t.kind, t.value)

namespace Word

variable {w back : List Char} {d : Char}

theorem Numeral.front {v : List Char} (numeral : Numeral (w ++ v)) (some_left : w ≠ []) :
    Numeral w := by
  obtain ⟨-, allowed, count⟩ := numeral
  rw [List.count_append] at count
  refine ⟨some_left, fun c member => allowed c (List.mem_append_left v member), ?_⟩
  omega

/-- Where a word is the front of a longer one, its next character makes it a word again. -/
theorem IsWord.snoc (isWord : IsWord w) (longer : IsWord (w ++ d :: back)) :
    IsWord (w ++ [d]) := by
  cases w with
  | nil =>
    obtain ⟨kind, value, denotes⟩ := isWord
    exact absurd denotes not_denotes_nil
  | cons c w =>
    rw [List.cons_append] at longer ⊢
    rw [isWord_cons_iff] at isWord longer ⊢
    cases isLead : lead? c with
    | none => simp [isLead] at isWord
    | some lead =>
      rw [isLead] at isWord longer
      cases lead with
      | operator =>
        rcases isWord with rfl | ⟨e, rfl, -⟩
        · rcases longer with empty | ⟨e, same, paired⟩
          · simp at empty
          · cases same
            exact .inr ⟨d, rfl, paired⟩
        · simp at longer
      | numeral =>
        have splits : c :: (w ++ d :: back) = (c :: (w ++ [d])) ++ back := by simp
        rw [splits] at longer
        exact longer.front (by simp)
      | name =>
        refine ⟨longer.1, fun e member => longer.2 e ?_⟩
        rcases List.mem_append.mp member with inside | last
        · exact List.mem_append_left _ inside
        · rw [List.mem_singleton.mp last]
          simp
      | quote =>
        -- A string ends with its first quote, so that no longer one starts with it.
        obtain ⟨body, inside, same⟩ := isWord
        have plain := plain_of_quote (lead?_eq_quote_iff.mp isLead)
        have longest : Longest (Quoted c) (c :: w) (d :: back) := by
          rw [same]
          exact longest_quoted plain inside
        have shorter := longest.2 _ longer (List.prefix_refl _)
        simp only [List.length_cons, List.length_append] at shorter
        omega

theorem longest_iff :
    Longest IsWord w back ↔ IsWord w ∧ ∀ d ∈ back.head?, ¬ IsWord (w ++ [d]) := by
  constructor
  · rintro ⟨isWord, longest⟩
    refine ⟨isWord, fun d first longer => ?_⟩
    obtain ⟨rest, rfl⟩ := List.head?_eq_some_iff.mp first
    have shorter := longest _ longer ⟨rest, by simp⟩
    rw [List.length_append, List.length_singleton] at shorter
    omega
  · rintro ⟨isWord, stops⟩
    refine ⟨isWord, fun other isOther isPrefix => ?_⟩
    rcases List.prefix_or_prefix_of_prefix isPrefix (List.prefix_append w back) with within | beyond
    · exact within.length_le
    · obtain ⟨more, rfl⟩ := beyond
      cases more with
      | nil => simp
      | cons d more =>
        obtain ⟨rest, rfl⟩ := (List.prefix_append_right_inj w).mp isPrefix
        exact absurd (isWord.snoc isOther) (stops d rfl)

/-- A word that goes on behind another one does so with a character that separates nothing. -/
theorem IsWord.solid_last (isWord : IsWord w) (longer : IsWord (w ++ [d])) :
    Text.isBlank d = false ∧ d ≠ '#' := by
  cases w with
  | nil =>
    obtain ⟨kind, value, denotes⟩ := isWord
    exact absurd denotes not_denotes_nil
  | cons c w =>
    rw [List.cons_append, isWord_cons_iff] at longer
    cases isLead : lead? c with
    | none => simp [isLead] at longer
    | some lead =>
      rw [isLead] at longer
      cases lead with
      | operator =>
        rcases longer with empty | ⟨e, same, kind, paired⟩
        · simp at empty
        · obtain ⟨-, rfl⟩ : w = [] ∧ d = e := by
            cases w with
            | nil => simpa using same
            | cons f w => simp at same
          obtain rfl : d = '=' := by
            unfold TokenKind.ofPair? at paired
            split at paired <;> first | rfl | cases paired
          decide
      | numeral =>
        rcases longer.2.1 d (by simp) with digit | rfl
        · refine ⟨Text.isBlank_eq_false_of_isDigit digit, ?_⟩
          rintro rfl
          exact absurd digit (by decide)
        · decide
      | name =>
        have goesOn := longer.2 d (by simp)
        refine ⟨Text.isBlank_eq_false_of_continuesName goesOn, ?_⟩
        rintro rfl
        exact absurd goesOn (by decide)
      | quote =>
        obtain ⟨body, -, same⟩ := longer
        have last := congrArg List.getLast? same
        simp only [← List.cons_append, List.getLast?_concat, Option.some.injEq] at last
        rcases lead?_eq_quote_iff.mp isLead with rfl | rfl
        · rw [last]
          decide
        · rw [last]
          decide

/-- Neither a blank nor a comment goes on with a word. -/
theorem IsWord.not_separator (isWord : IsWord w) (apart : Text.isBlank d = true ∨ d = '#') :
    ¬ IsWord (w ++ [d]) := by
  intro longer
  obtain ⟨notBlank, notHash⟩ := isWord.solid_last longer
  rcases apart with blank | hash
  · rw [blank] at notBlank
    cases notBlank
  · exact notHash hash

theorem IsWord.not_newline (isWord : IsWord w) : ¬ IsWord (w ++ ['\n']) :=
  isWord.not_separator (.inl (by decide))

end Word

section Skipping

variable {gap rest : List Char}

theorem Cursor.skip_line {line : List Char} (inLine : '\n' ∉ line)
    (ends : ∀ c ∈ rest.head?, c = '\n') (p : Position) :
    skip p false ('#' :: line ++ rest) = skip (p.walk ('#' :: line)) false rest := by
  have goesOn : ∀ c ∈ line, (c != '\n') = true := by
    intro c member
    rw [bne_iff_ne]
    rintro rfl
    exact inLine member
  have stops : rest.takeWhile (· != '\n') = [] ∧ rest.dropWhile (· != '\n') = rest := by
    cases rest with
    | nil => exact ⟨rfl, rfl⟩
    | cons c rest => simp [ends c rfl]
  have comment : skip p false ('#' :: (line ++ rest)) = skip (p.advance '#') true (line ++ rest) :=
    rfl
  rw [List.cons_append, comment, skip_comment, List.takeWhile_append_of_pos goesOn,
    List.dropWhile_append_of_pos goesOn, stops.1, stops.2, List.append_nil]
  rfl

/-- A gap is skipped in front of other characters too; where it may be the last line, these are on
    the next one. -/
theorem Gap.skip {other : List Char} (isGap : Gap gap rest)
    (ends : rest = [] → ∀ c ∈ other.head?, c = '\n') (p : Position) :
    Cursor.skip p false (gap ++ other) = Cursor.skip (p.walk gap) false other := by
  induction isGap generalizing p with
  | nil => rfl
  | blank blank _ ih =>
    rw [List.cons_append, Cursor.skip_blank blank, ih ends]
    rfl
  | @comment line gap rest inLine _ ih =>
    have newline : ∀ c ∈ ('\n' :: gap ++ other).head?, c = '\n' := by simp
    rw [List.append_assoc, Cursor.skip_line inLine newline, List.cons_append,
      Cursor.skip_blank (by decide), ih ends, Position.walk_append]
    rfl
  | lastLine inLine => exact Cursor.skip_line inLine (ends rfl) p

end Skipping

theorem Piece.eq_take {p : Position} {cs w back : List Char} {pull : Pull} {next : Cursor}
    {kind : TokenKind} {value : Json} (piece : Piece p cs pull next) (same : cs = w ++ back)
    (denotes : Denotes w kind value) (longest : Longest IsWord w back) :
    (pull, next) = Cursor.take p kind value w back := by
  have isWord : IsWord w := ⟨kind, value, denotes⟩
  cases piece with
  | @token lexeme rest kind' value' denotes' longest' =>
    have lengths : lexeme.length = w.length :=
      Nat.le_antisymm (longest.2 _ ⟨kind', value', denotes'⟩ ⟨rest, same⟩)
        (longest'.2 _ isWord ⟨back, same.symm⟩)
    obtain ⟨rfl, rfl⟩ := List.append_inj same lengths
    obtain ⟨rfl, rfl⟩ := denotes.unique denotes'
    rfl
  | illegal noQuote noWord => exact absurd isWord (noWord w ⟨back, same.symm⟩)
  | unclosed isQuote noWord => exact absurd isWord (noWord w ⟨back, same.symm⟩)

namespace TokenStream

variable {p stop : Position} {cs : List Char} {ending : Ending} {t : Token} {ts : List Token}

/-- The first token of a stream is what the first pull finds. -/
theorem ofCursor_eq_cons {cursor : Cursor} (scanned : ofCursor cursor = ⟨t :: ts, ending⟩) :
    ∃ next, cursor.pull = (.token t, next) ∧ ofCursor next = ⟨ts, ending⟩ := by
  rw [ofCursor_eq] at scanned
  generalize cursor.pull = result at scanned
  obtain ⟨pull, next⟩ := result
  cases pull with
  | fault | finished => cases scanned
  | token u =>
    simp only [mk.injEq, List.cons.injEq] at scanned
    obtain ⟨⟨rfl, tokens⟩, ends⟩ := scanned
    exact ⟨next, rfl, by rw [← tokens, ← ends]⟩

/-- A text without tokens and faults is a gap. -/
theorem gap_of_finished (scanned : ofCursor ⟨p, cs⟩ = ⟨[], .finished stop⟩) : Gap cs [] := by
  rcases Cursor.pull_tiles p cs with ⟨last, -⟩ | ⟨_, _, -, -, piece⟩
  · exact last
  · rw [ofCursor_eq] at scanned
    generalize Cursor.pull ⟨p, cs⟩ = pulled at scanned piece
    obtain ⟨pull, next⟩ := pulled
    dsimp only at piece
    cases piece with
    | token | illegal | unclosed => cases scanned

end TokenStream

namespace Cursor

/-- A word is taken where it is not the front of a longer one. -/
theorem pullHere_word {w back : List Char} {kind : TokenKind} {value : Json}
    (denotes : Denotes w kind value) (longest : Longest IsWord w back) (p : Position) :
    pullHere ⟨p, w ++ back⟩ = take p kind value w back := by
  cases w with
  | nil => exact absurd denotes Word.not_denotes_nil
  | cons c w => exact (piece_pullHere p).eq_take rfl denotes longest

/-- A token has the characters of a word, perhaps behind a gap. -/
theorem exists_word_of_pull {p : Position} {cs : List Char} {t : Token} {next : Cursor}
    (pulled : pull ⟨p, cs⟩ = (.token t, next)) : ∃ gap w, cs = gap ++ (w ++ next.rest) ∧
      Gap gap (w ++ next.rest) ∧ Denotes w t.kind t.value ∧ Longest IsWord w next.rest ∧
      t.span = ⟨p.walk gap, (p.walk gap).walk w⟩ ∧ next.position = (p.walk gap).walk w := by
  rcases pull_tiles p cs with ⟨-, finished⟩ | ⟨gap, rest, rfl, isGap, piece⟩
  · rw [pulled] at finished
    cases finished
  · rw [pulled] at piece
    dsimp only at piece
    cases piece with
    | token denotes longest => exact ⟨gap, _, rfl, isGap, denotes, longest, rfl, rfl⟩

/-- A word behind a gap is a token, in front of anything that does not go on with it. -/
theorem pull_word {gap w rest other : List Char} {kind : TokenKind} {value : Json}
    (isGap : Gap gap (w ++ rest)) (denotes : Denotes w kind value)
    (longest : Longest IsWord w other) (p : Position) :
    pull ⟨p, gap ++ (w ++ other)⟩ = take (p.walk gap) kind value w other := by
  cases w with
  | nil => exact absurd denotes Word.not_denotes_nil
  | cons c w =>
    obtain ⟨notBlank, notHash⟩ := longest.1.solid
    rw [pull, isGap.skip (by simp), List.cons_append, skip_solid notBlank notHash,
      ← List.cons_append, pullHere_word denotes longest]

/-- The characters of a token give it again, behind any position and in front of a separator or of
    what followed them. -/
theorem pull_again {p : Position} {cs : List Char} {t : Token} {next : Cursor}
    (pulled : pull ⟨p, cs⟩ = (.token t, next)) : ∃ front, cs = front ++ next.rest ∧
      ∀ q, ∃ span, ∀ rest,
        (∀ d ∈ rest.head?, (Text.isBlank d = true ∨ d = '#') ∨ d ∈ next.rest.head?) →
        pull ⟨q, front ++ rest⟩ = (.token ⟨t.kind, t.value, span⟩, ⟨q.walk front, rest⟩) := by
  obtain ⟨gap, w, rfl, isGap, denotes, longest, -⟩ := exists_word_of_pull pulled
  obtain ⟨isWord, stops⟩ := Word.longest_iff.mp longest
  refine ⟨gap ++ w, by rw [List.append_assoc], fun q => ?_⟩
  refine ⟨⟨q.walk gap, (q.walk gap).walk w⟩, fun rest follows => ?_⟩
  have longest : Longest IsWord w rest := by
    refine Word.longest_iff.mpr ⟨isWord, fun d first => ?_⟩
    rcases follows d first with apart | known
    · exact isWord.not_separator apart
    · exact stops d known
  rw [List.append_assoc, pull_word isGap denotes longest, Position.walk_append]
  rfl

end Cursor

/-- In front of a line break the characters scan to tokens with these words. -/
def Writes (cs : List Char) (words : List (TokenKind × Json)) : Prop :=
  ∀ p more, ∃ ts, Cursor.Scans ⟨p, cs ++ '\n' :: more⟩ ts ⟨p.walk cs, '\n' :: more⟩ ∧
    ts.map Token.word = words

namespace Writes

variable {cs ds : List Char} {words others : List (TokenKind × Json)}

theorem gap (isGap : Gap cs []) : Writes cs [] := by
  refine fun p more => ⟨[], TokenStream.ofCursor_congr ?_, rfl⟩
  rw [Cursor.pull, Cursor.pull, isGap.skip (by simp)]

theorem join (first : Writes cs words) (second : Writes ds others) :
    Writes (cs ++ '\n' :: ds) (words ++ others) := by
  intro p more
  obtain ⟨ts, scans, rfl⟩ := first p (ds ++ '\n' :: more)
  obtain ⟨us, scans', rfl⟩ := second ((p.walk cs).walk ['\n']) more
  have newline := @Cursor.Scans.blanks (p.walk cs) ['\n'] (List.all_eq_true.mp rfl)
    (ds ++ '\n' :: more)
  refine ⟨ts ++ us, ?_, List.map_append⟩
  rw [List.append_assoc, Position.walk_append]
  exact scans.trans (newline.trans scans')

theorem word {kind : TokenKind} {value : Json} (denotes : Denotes cs kind value) :
    Writes cs [(kind, value)] := by
  intro p more
  have isWord : IsWord cs := ⟨kind, value, denotes⟩
  have longest : Longest IsWord cs ('\n' :: more) := by
    refine Word.longest_iff.mpr ⟨isWord, ?_⟩
    rintro _ ⟨⟩
    exact isWord.not_newline
  cases cs with
  | nil => exact absurd denotes Word.not_denotes_nil
  | cons c cs =>
    obtain ⟨notBlank, notHash⟩ := isWord.solid
    have pulled : Cursor.pull ⟨p, c :: cs ++ '\n' :: more⟩ =
        Cursor.take p kind value (c :: cs) ('\n' :: more) := by
      rw [Cursor.pull, List.cons_append, Cursor.skip_solid notBlank notHash, ← List.cons_append,
        Cursor.pullHere_word denotes longest]
    exact ⟨_, .token pulled, rfl⟩

/-- One token more in front. -/
theorem token {p : Position} {t : Token} {next : Cursor}
    (pulled : Cursor.pull ⟨p, cs⟩ = (.token t, next)) (isPrefix : ds <+: next.rest)
    (writes : Writes ds words) :
    ∃ front, cs = front ++ next.rest ∧ Writes (front ++ ds) (t.word :: words) := by
  obtain ⟨front, splits, again⟩ := Cursor.pull_again pulled
  refine ⟨front, splits, fun q more => ?_⟩
  obtain ⟨span, found⟩ := again q
  have pulled' := found (ds ++ '\n' :: more) (by
    intro d first
    cases ds with
    | nil =>
      cases first
      exact .inl (.inl (by decide))
    | cons e ds =>
      obtain ⟨back, same⟩ := isPrefix
      rw [← same]
      exact .inr first)
  obtain ⟨ts, scans, rfl⟩ := writes (q.walk front) more
  refine ⟨⟨t.kind, t.value, span⟩ :: ts, ?_, rfl⟩
  rw [List.append_assoc, Position.walk_append]
  exact (Cursor.Scans.token pulled').trans scans

/-- The characters up to a token write the tokens up to it; all of a text without fault writes all
    of them. -/
theorem exists_front {cursor : Cursor} {ts us : List Token} {ending : Ending}
    (scanned : TokenStream.ofCursor cursor = ⟨ts ++ us, ending⟩) :
    ∃ front, front <+: cursor.rest ∧ Writes front (ts.map Token.word) ∧
      (us = [] → (∃ stop, ending = .finished stop) → front = cursor.rest) := by
  obtain ⟨p, cs⟩ := cursor
  induction ts generalizing p cs with
  | nil =>
    by_cases whole : us = [] ∧ ∃ stop, ending = .finished stop
    · obtain ⟨rfl, stop, rfl⟩ := whole
      exact ⟨cs, List.prefix_refl _, gap (TokenStream.gap_of_finished scanned), fun _ _ => rfl⟩
    · refine ⟨[], List.nil_prefix, gap (.nil []), fun none finished => ?_⟩
      exact absurd ⟨none, finished⟩ whole
  | cons t ts ih =>
    obtain ⟨next, pulled, remaining⟩ := TokenStream.ofCursor_eq_cons scanned
    obtain ⟨ahead, isPrefix, writes, whole⟩ := ih next.position next.rest remaining
    obtain ⟨front, rfl, writes'⟩ := writes.token pulled isPrefix
    refine ⟨front ++ ahead, ?_, writes', fun none finished => ?_⟩
    · exact (List.prefix_append_right_inj front).mpr isPrefix
    · rw [whole none finished]

theorem ofOrigin (writes : Writes cs words) (file : String) : ∃ ts stop,
    TokenStream.ofOrigin ⟨file, String.ofList (cs ++ ['\n'])⟩ = ⟨ts, .finished stop⟩ ∧
      ts.map Token.word = words := by
  let start := Position.start ⟨file, String.ofList (cs ++ ['\n'])⟩
  obtain ⟨ts, scans, same⟩ := writes start []
  have ends (p : Position) :
      TokenStream.ofCursor ⟨p, ['\n']⟩ = ⟨[], .finished (p.advance '\n')⟩ := by
    rw [TokenStream.ofCursor_eq]
    rfl
  rw [Cursor.Scans, ends, List.append_nil] at scans
  refine ⟨ts, (start.walk cs).advance '\n', ?_, same⟩
  rw [TokenStream.ofOrigin, Cursor.ofOrigin, String.toList_ofList]
  exact scans

end Writes

end SceneScript
