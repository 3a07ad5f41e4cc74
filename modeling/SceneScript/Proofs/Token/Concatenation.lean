import SceneScript.Proofs.Node.Shift
import SceneScript.Proofs.Token.Joining

/-!
The tokens of a text that stands on the lines behind another one: first those of the other text,
then its own, all of them shifted by the same amount.
-/

namespace SceneScript

namespace Shift

variable (s : Shift)

def cursor (c : Cursor) : Cursor := ⟨s.position c.position, c.rest⟩

def lexical (f : LexicalFault) : LexicalFault := { f with span := s.span f.span }

def pull : Pull → Pull
  | .token t => .token (s.token t)
  | .fault f => .fault (s.lexical f)
  | .finished => .finished

/-- A pull and what is left behind it. -/
def pulled (found : Pull × Cursor) : Pull × Cursor := (s.pull found.1, s.cursor found.2)

def ending : Ending → Ending
  | .finished p => .finished (s.position p)
  | .fault f => .fault (s.lexical f)

def stream (stream : TokenStream) : TokenStream :=
  ⟨stream.tokens.map s.token, s.ending stream.ending⟩

theorem skip_position (p : Position) (inComment : Bool) (cs : List Char) :
    Cursor.skip (s.position p) inComment cs = s.cursor (Cursor.skip p inComment cs) := by
  induction cs generalizing p inComment with
  | nil => rfl
  | cons c cs ih =>
    simp only [Cursor.skip, ← position_advance, ih]
    split
    · rfl
    · split
      · rfl
      · split <;> rfl

theorem take_position (p : Position) (kind : TokenKind) (value : Json) (lexeme back : List Char) :
    Cursor.take (s.position p) kind value lexeme back =
      s.pulled (Cursor.take p kind value lexeme back) := by
  simp only [Cursor.take, ← position_walk]
  rfl

theorem pullHere_cursor (c : Cursor) : Cursor.pullHere (s.cursor c) = s.pulled c.pullHere := by
  obtain ⟨p, rest⟩ := c
  unfold Cursor.pullHere cursor
  cases rest with
  | nil => rfl
  | cons c cs =>
    simp only
    split
    · unfold Cursor.pullOperator
      split
      · split <;> exact s.take_position ..
      · exact s.take_position ..
    · split
      · exact s.take_position ..
      · split
        · exact s.take_position ..
        · split
          · unfold Cursor.pullString
            split
            · exact s.take_position ..
            · simp only [← position_walk]
              rfl
          · simp only [← position_advance]
            rfl

theorem pull_cursor (c : Cursor) : (s.cursor c).pull = s.pulled c.pull := by
  unfold Cursor.pull
  rw [cursor, skip_position, pullHere_cursor]

/-- Where a text stands matters for the places of its tokens and faults and for nothing else. -/
theorem ofCursor_cursor (c : Cursor) :
    TokenStream.ofCursor (s.cursor c) = s.stream (TokenStream.ofCursor c) := by
  induction size : c.rest.length using Nat.strongRecOn generalizing c with
  | ind n ih =>
    have shorter := c.rest_pull_lt
    rw [TokenStream.ofCursor_eq, TokenStream.ofCursor_eq c, pull_cursor]
    generalize c.pull = found at shorter
    obtain ⟨found, next⟩ := found
    cases found with
    | fault | finished => rfl
    | token t =>
      have next := ih next.rest.length (by rw [← size]; exact shorter (by simp)) next rfl
      simp only [pulled, pull, next]
      rfl

end Shift

namespace Cursor

/-- The tokens of a whole text are there in front of a line break too. -/
theorem scans_line {p stop : Position} {cs : List Char} {ts : List Token}
    (scanned : TokenStream.ofCursor ⟨p, cs⟩ = ⟨ts, .finished stop⟩) (more : List Char) :
    Scans ⟨p, cs ++ '\n' :: more⟩ ts ⟨p.walk cs, '\n' :: more⟩ := by
  induction ts generalizing p cs with
  | nil =>
    have isGap := TokenStream.gap_of_finished scanned
    refine TokenStream.ofCursor_congr ?_
    rw [pull, pull, isGap.skip (by simp)]
  | cons t ts ih =>
    obtain ⟨⟨q, rest⟩, pulled, remaining⟩ := TokenStream.ofCursor_eq_cons scanned
    obtain ⟨front, rfl, again⟩ := pull_again pulled
    obtain ⟨span, found⟩ := again p
    -- Only the place is open, and it is the same whatever follows.
    have own := found rest fun d first => .inr first
    rw [pulled] at own
    simp only [Prod.mk.injEq, Pull.token.injEq, mk.injEq, and_true] at own
    obtain ⟨same, rfl⟩ := own
    have here := found (rest ++ '\n' :: more) (by
      intro d first
      cases rest with
      | nil =>
        cases first
        exact .inl (.inl (by decide))
      | cons e rest => exact .inr first)
    rw [← same] at here
    rw [List.append_assoc, Position.walk_append]
    exact (Scans.token here).trans (ih remaining)

end Cursor

/-- The tokens of two texts with a line break between them. -/
theorem TokenStream.ofOrigin_concat {file first : String} {ts : List Token} {stop : Position}
    (scanned : ofOrigin ⟨file, first⟩ = ⟨ts, .finished stop⟩) (second : String) :
    let whole : Origin := ⟨file, first ++ "\n" ++ second⟩
    let behind : Shift := ⟨whole, first.length + 1, first.toList.count '\n' + 1⟩
    let own := behind.stream (ofOrigin ⟨file, second⟩)
    ofOrigin whole = ⟨ts.map (Shift.token ⟨whole, 0, 0⟩) ++ own.tokens, own.ending⟩ := by
  intro whole behind own
  let ahead : Shift := ⟨whole, 0, 0⟩
  have front : ofCursor ⟨.start whole, first.toList⟩ = ahead.stream ⟨ts, .finished stop⟩ := by
    rw [← scanned]
    exact ahead.ofCursor_cursor ⟨.start ⟨file, first⟩, first.toList⟩
  have blank : ∀ c ∈ ['\n'], Text.isBlank c = true := List.all_eq_true.mp rfl
  have newline := Cursor.Scans.blanks ((Position.start whole).walk first.toList) blank
    second.toList
  have back : ofCursor ⟨((Position.start whole).walk first.toList).walk ['\n'], second.toList⟩ =
      own := by
    rw [Position.walk_cons, Position.walk_nil, ← Shift.position_start whole ⟨file, second⟩]
    rw [String.length_toList]
    exact behind.ofCursor_cursor ⟨.start ⟨file, second⟩, second.toList⟩
  have scans := (Cursor.scans_line front second.toList).trans newline
  have text : whole.text.toList = first.toList ++ '\n' :: second.toList := by
    simp [whole, String.toList_append]
  rw [ofOrigin, Cursor.ofOrigin, text]
  rw [Cursor.Scans, back, List.append_nil] at scans
  exact scans

end SceneScript
