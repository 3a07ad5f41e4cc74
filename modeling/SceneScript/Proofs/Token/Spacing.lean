import SceneScript.Proofs.Token.Joining

/-!
Spacing. A token is the longest word where it starts, and no word goes on with a blank or with the
start of a comment; so blanks and comments can be put in front of any token and behind it, and the
text still has the same words.
-/

namespace SceneScript

open Word (Denotes IsWord)

/-- What can be put between tokens: blanks, or a comment with the end of its line. -/
def Spacing (gap : List Char) : Prop :=
  (∀ c ∈ gap, Text.isBlank c = true) ∨ ∃ line, '\n' ∉ line ∧ gap = '#' :: line ++ ['\n']

namespace Spacing

variable {gap : List Char}

theorem isGap (spacing : Spacing gap) (rest : List Char) : Gap gap rest := by
  rcases spacing with blank | ⟨line, inLine, rfl⟩
  · induction gap with
    | nil => exact .nil rest
    | cons c gap ih =>
      obtain ⟨here, others⟩ := List.forall_mem_cons.mp blank
      exact .blank here (ih others)
  · exact .comment inLine (.nil rest)

theorem separates (spacing : Spacing gap) :
    ∀ d ∈ gap.head?, Text.isBlank d = true ∨ d = '#' := by
  intro d first
  rcases spacing with blank | ⟨line, -, rfl⟩
  · exact .inl (blank d (List.mem_of_mem_head? first))
  · cases first
    exact .inr rfl

/-- What is the longest word stays it with spacing behind it, or further on. -/
theorem longest (spacing : Spacing gap) {w front back : List Char}
    (longest : Longest IsWord w (front ++ back)) : Longest IsWord w (front ++ (gap ++ back)) := by
  obtain ⟨isWord, stops⟩ := Word.longest_iff.mp longest
  refine Word.longest_iff.mpr ⟨isWord, fun d first => ?_⟩
  cases front with
  | cons c front => exact stops d first
  | nil =>
    cases gap with
    | nil => exact stops d first
    | cons c gap => exact isWord.not_separator (spacing.separates d first)

end Spacing

/-- Wherever the characters stand, they scan without a fault to tokens with these words. -/
def Splits (cs : List Char) (words : List (TokenKind × Json)) : Prop :=
  ∀ p, ∃ ts stop, TokenStream.ofCursor ⟨p, cs⟩ = ⟨ts, .finished stop⟩ ∧ ts.map Token.word = words

namespace Splits

variable {gap rest other : List Char} {words : List (TokenKind × Json)}

theorem nil : Splits [] [] := fun p => ⟨[], p, by rw [TokenStream.ofCursor_eq]; rfl, rfl⟩

theorem behind_gap (splits : Splits other words) (isGap : Gap gap rest)
    (ends : rest = [] → ∀ c ∈ other.head?, c = '\n') : Splits (gap ++ other) words := by
  intro p
  have pulls : Cursor.pull ⟨p, gap ++ other⟩ = Cursor.pull ⟨p.walk gap, other⟩ := by
    rw [Cursor.pull, Cursor.pull, isGap.skip ends]
  rw [TokenStream.ofCursor_congr pulls]
  exact splits (p.walk gap)

theorem spaced (splits : Splits other words) (spacing : Spacing gap) :
    Splits (gap ++ other) words := splits.behind_gap (spacing.isGap ['\n']) (by simp)

theorem word {w : List Char} {kind : TokenKind} {value : Json} (isGap : Gap gap (w ++ rest))
    (denotes : Denotes w kind value) (longest : Longest IsWord w other)
    (splits : Splits other words) : Splits (gap ++ (w ++ other)) ((kind, value) :: words) := by
  intro p
  have pulled := Cursor.pull_word isGap denotes longest p
  obtain ⟨ts, stop, scanned, rfl⟩ := splits ((p.walk gap).walk w)
  refine ⟨⟨kind, value, ⟨p.walk gap, (p.walk gap).walk w⟩⟩ :: ts, stop, ?_, rfl⟩
  rw [TokenStream.ofCursor_of_token pulled, scanned]

/-- Where a text stands does not matter for its words. -/
theorem of_scanned {p stop : Position} {cs : List Char} {ts : List Token}
    (scanned : TokenStream.ofCursor ⟨p, cs⟩ = ⟨ts, .finished stop⟩) :
    Splits cs (ts.map Token.word) := by
  induction ts generalizing p cs with
  | nil =>
    have whole := nil.behind_gap (TokenStream.gap_of_finished scanned) (by simp)
    rwa [List.append_nil] at whole
  | cons t ts ih =>
    obtain ⟨⟨q, rest⟩, pulled, remaining⟩ := TokenStream.ofCursor_eq_cons scanned
    obtain ⟨gap, w, rfl, isGap, denotes, longest, -⟩ := Cursor.exists_word_of_pull pulled
    exact word isGap denotes longest (ih remaining)

end Splits

/-- At either end of a token, spacing can be put in. -/
theorem exists_border {p stop b : Position} {cs : List Char} {ts : List Token} {t : Token}
    (scanned : TokenStream.ofCursor ⟨p, cs⟩ = ⟨ts, .finished stop⟩) (member : t ∈ ts)
    (border : t.span.start = b ∨ t.span.stop = b) :
    ∃ front back, cs = front ++ back ∧ b = p.walk front ∧
      ∀ gap, Spacing gap → Splits (front ++ (gap ++ back)) (ts.map Token.word) := by
  induction ts generalizing p cs with
  | nil => cases member
  | cons u ts ih =>
    obtain ⟨⟨q, rest⟩, pulled, remaining⟩ := TokenStream.ofCursor_eq_cons scanned
    obtain ⟨ahead, w, rfl, isGap, denotes, longest, span, rfl⟩ := Cursor.exists_word_of_pull pulled
    have others := Splits.of_scanned remaining
    rcases List.mem_cons.mp member with rfl | later
    · rw [span] at border
      -- In front of the token its gap grows, and behind it the gap of the next one.
      rcases border with same | same
      · cases same
        refine ⟨ahead, w ++ rest, rfl, rfl, fun gap spacing => ?_⟩
        have goesOn : w ++ rest ≠ [] := by
          intro empty
          rw [(List.append_eq_nil_iff.mp empty).1] at denotes
          exact Word.not_denotes_nil denotes
        have here := Splits.word (.nil (w ++ rest)) denotes longest others
        exact (here.spaced spacing).behind_gap isGap fun empty => absurd empty goesOn
      · cases same
        refine ⟨ahead ++ w, rest, by rw [List.append_assoc], (Position.walk_append ..).symm, ?_⟩
        intro gap spacing
        rw [List.append_assoc]
        have own : Longest IsWord w ([] ++ (gap ++ rest)) := spacing.longest longest
        exact .word isGap denotes own (others.spaced spacing)
    · obtain ⟨front, back, rfl, rfl, splits⟩ := ih remaining later
      refine ⟨ahead ++ (w ++ front), back, ?_, ?_, fun gap spacing => ?_⟩
      · simp
      · rw [Position.walk_append, Position.walk_append]
      · rw [List.append_assoc, List.append_assoc]
        exact .word isGap denotes (spacing.longest longest) (splits gap spacing)

/-- The text with more characters put in at an index. -/
def Origin.insert (origin : Origin) (index : Nat) (chars : List Char) : Origin :=
  ⟨origin.file, String.ofList
    (origin.text.toList.take index ++ (chars ++ origin.text.toList.drop index))⟩

theorem TokenStream.ofOrigin_insert {origin : Origin} {stop b : Position} {t : Token}
    (finished : (ofOrigin origin).ending = .finished stop) (member : t ∈ (ofOrigin origin).tokens)
    (border : t.span.start = b ∨ t.span.stop = b) {gap : List Char} (spacing : Spacing gap) :
    (∃ stop, (ofOrigin (origin.insert b.index gap)).ending = .finished stop) ∧
      (ofOrigin (origin.insert b.index gap)).tokens.map Token.word =
        (ofOrigin origin).tokens.map Token.word := by
  have scanned : ofCursor ⟨.start origin, origin.text.toList⟩ =
      ⟨(ofOrigin origin).tokens, .finished stop⟩ := by
    rw [← finished]
    rfl
  obtain ⟨front, back, text, rfl, splits⟩ := exists_border scanned member border
  have chars : (origin.insert ((Position.start origin).walk front).index gap).text.toList =
      front ++ (gap ++ back) := by
    simp [Origin.insert, Position.start, text]
  obtain ⟨ts, stop, again, same⟩ := splits gap spacing (.start (origin.insert _ gap))
  rw [← chars] at again
  have stream : ofOrigin (origin.insert ((Position.start origin).walk front).index gap) =
      ⟨ts, .finished stop⟩ := again
  rw [stream]
  exact ⟨⟨stop, rfl⟩, same⟩

end SceneScript
