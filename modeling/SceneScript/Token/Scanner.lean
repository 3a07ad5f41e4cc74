import SceneScript.Text.Blank
import SceneScript.Token.Basic
import SceneScript.Token.Fault
import SceneScript.Token.Literal

/-!
The scanner: a cursor that reads a text from left to right, one token a pull. A pull skips
blanks and comments, and then either finds a token, finds a fault, or has reached the end; the
first two always leave less to read (`rest_pull_lt`), which is why the whole text can be scanned.
-/

namespace SceneScript

/-- A place in a text and the characters from there on. -/
structure Cursor where
  position : Position
  rest : List Char
deriving DecidableEq

inductive Pull where
  | token (t : Token)
  | fault (f : LexicalFault)
  | finished
deriving DecidableEq

namespace Cursor

def ofOrigin (origin : Origin) : Cursor := ⟨.start origin, origin.text.toList⟩

/-- Skips blanks and comments. A comment runs from a `#` through the end of its line;
    `inComment` tells whether the cursor stands inside one. -/
def skip (position : Position) (inComment : Bool) : List Char → Cursor
  | [] => ⟨position, []⟩
  | c :: cs =>
    if inComment then skip (position.advance c) (c != '\n') cs
    else if Text.isBlank c then skip (position.advance c) false cs
    else if c = '#' then skip (position.advance c) true cs
    else ⟨position, c :: cs⟩

/-- The numeral at the front: digits and at most one point. -/
def spanNumeral (dotted : Bool) : List Char → List Char × List Char
  | [] => ([], [])
  | c :: cs =>
    if Text.isDigit c then
      let (front, back) := spanNumeral dotted cs
      (c :: front, back)
    else if c = '.' ∧ dotted = false then
      let (front, back) := spanNumeral true cs
      (c :: front, back)
    else ([], c :: cs)

/-- The body of a string up to its closing quote: the characters it stands for, how many
    characters it takes with the quote, and what follows. -/
def closeString (quote : Char) : List Char → Option (List Char × Nat × List Char)
  | [] => none
  | '\\' :: c :: cs =>
    (closeString quote cs).map fun (body, length, back) =>
      (Literal.escaped c :: body, length + 2, back)
  | c :: cs =>
    if c = quote then some ([], 1, cs)
    else if c = '\\' then none
    else (closeString quote cs).map fun (body, length, back) => (c :: body, length + 1, back)

/-- A token that takes the characters `lexeme` and leaves `back`. -/
def take (start : Position) (kind : TokenKind) (value : Json) (lexeme back : List Char) :
    Pull × Cursor :=
  let stop := start.walk lexeme
  (.token ⟨kind, value, ⟨start, stop⟩⟩, ⟨stop, back⟩)

def pullOperator (start : Position) (kind : TokenKind) (c : Char) (cs : List Char) :
    Pull × Cursor :=
  match cs with
  | d :: back =>
    match TokenKind.ofPair? c d with
    | some kind => take start kind .null [c, d] back
    | none => take start kind .null [c] cs
  | [] => take start kind .null [c] []

def pullNumeral (start : Position) (cs : List Char) : Pull × Cursor :=
  let (numeral, back) := spanNumeral false cs
  take start .number (.string (String.ofList (Literal.completeNumeral numeral))) numeral back

def pullName (start : Position) (cs : List Char) : Pull × Cursor :=
  let name := cs.takeWhile Text.continuesName
  let text := String.ofList name
  take start (if text ∈ keywords then .keyword else .identifier) (.string text) name
    (cs.dropWhile Text.continuesName)

def pullString (start : Position) (quote : Char) (cs : List Char) : Pull × Cursor :=
  match closeString quote cs with
  | some (body, length, back) =>
    take start .string (.string (String.ofList body)) (quote :: cs.take length) back
  | none =>
    let stop := start.walk (quote :: cs)
    (.fault ⟨.unclosedString quote, ⟨start, stop⟩⟩, ⟨stop, []⟩)

/-- What stands at a cursor that is not in front of blanks or comments. -/
def pullHere (cursor : Cursor) : Pull × Cursor :=
  match cursor.rest with
  | [] => (.finished, cursor)
  | c :: cs =>
    match TokenKind.ofChar? c with
    | some kind => pullOperator cursor.position kind c cs
    | none =>
      if Text.isDigit c || c == '.' then pullNumeral cursor.position (c :: cs)
      else if Text.startsName c then pullName cursor.position (c :: cs)
      else if c = '"' ∨ c = Text.apostrophe then pullString cursor.position c cs
      else
        let stop := cursor.position.advance c
        (.fault ⟨.illegalCharacter c, ⟨cursor.position, stop⟩⟩, ⟨stop, cs⟩)

/-- Reads the next token. -/
def pull (cursor : Cursor) : Pull × Cursor :=
  pullHere (skip cursor.position false cursor.rest)

theorem length_rest_skip_le (position : Position) (inComment : Bool) (cs : List Char) :
    (skip position inComment cs).rest.length ≤ cs.length := by
  induction cs generalizing position inComment with
  | nil => simp [skip]
  | cons c cs ih =>
    have step := fun p b => Nat.le_succ_of_le (ih p b)
    simp only [skip, List.length_cons]
    split
    · exact step _ _
    · split
      · exact step _ _
      · split
        · exact step _ _
        · simp

theorem length_spanNumeral_le (dotted : Bool) (cs : List Char) :
    (spanNumeral dotted cs).2.length ≤ cs.length := by
  induction cs generalizing dotted with
  | nil => simp [spanNumeral]
  | cons c cs ih =>
    simp only [spanNumeral]
    split
    · exact Nat.le_succ_of_le (ih dotted)
    · split
      · exact Nat.le_succ_of_le (ih true)
      · simp

theorem length_spanNumeral_lt (c : Char) (cs : List Char)
    (starts : (Text.isDigit c || c == '.') = true) :
    (spanNumeral false (c :: cs)).2.length < (c :: cs).length := by
  simp only [spanNumeral]
  split
  · exact Nat.lt_succ_of_le (length_spanNumeral_le false cs)
  · split
    · exact Nat.lt_succ_of_le (length_spanNumeral_le true cs)
    · simp_all

theorem length_closeString_lt (quote : Char) (cs : List Char) {body : List Char} {length : Nat}
    {back : List Char} (closed : closeString quote cs = some (body, length, back)) :
    back.length < cs.length := by
  fun_induction closeString quote cs generalizing body length back with
  | case1 => cases closed
  | case2 c cs ih =>
    obtain ⟨⟨inner, count, rest⟩, found, same⟩ := Option.map_eq_some_iff.1 closed
    have shorter := ih found
    cases same
    simp only [List.length_cons]
    omega
  | case3 => cases closed; simp
  | case4 => cases closed
  | case5 c cs _ _ _ ih =>
    obtain ⟨⟨inner, count, rest⟩, found, same⟩ := Option.map_eq_some_iff.1 closed
    have shorter := ih found
    cases same
    simp only [List.length_cons]
    omega

theorem rest_pullHere_lt (cursor : Cursor) (more : cursor.rest ≠ []) :
    (pullHere cursor).2.rest.length < cursor.rest.length := by
  obtain ⟨position, rest⟩ := cursor
  cases rest with
  | nil => exact absurd rfl more
  | cons c cs =>
    simp only [pullHere]
    split
    · simp only [pullOperator]
      split
      · split <;> simp only [take, List.length_cons] <;> omega
      · simp [take]
    · split
      · rename_i starts
        exact length_spanNumeral_lt c cs starts
      · split
        · rename_i starts
          have goes : Text.continuesName c = true := by
            simp only [Text.startsName, Text.continuesName, Bool.or_eq_true] at starts ⊢
            exact starts.elim (fun h => Or.inl (Or.inl h)) Or.inr
          simp only [pullName, take, List.dropWhile_cons, goes, if_true, List.length_cons]
          exact Nat.lt_succ_of_le (List.dropWhile_suffix _).length_le
        · split
          · simp only [pullString]
            split
            · rename_i closed
              have shorter := length_closeString_lt _ _ closed
              simp only [take, List.length_cons]
              omega
            · simp
          · simp

/-- Every pull that does not reach the end reads something. -/
theorem rest_pull_lt (cursor : Cursor) (unfinished : cursor.pull.1 ≠ .finished) :
    cursor.pull.2.rest.length < cursor.rest.length := by
  have skipped := length_rest_skip_le cursor.position false cursor.rest
  have more : (skip cursor.position false cursor.rest).rest ≠ [] := by
    intro none
    apply unfinished
    simp [pull, pullHere, none]
  exact Nat.lt_of_lt_of_le (rest_pullHere_lt _ more) skipped

end Cursor

/-- How a text ends for its scanner. -/
inductive Ending where
  | finished (position : Position)
  | fault (f : LexicalFault)
deriving DecidableEq

/-- The tokens of a text up to its end or its first fault. -/
structure TokenStream where
  tokens : List Token
  ending : Ending
deriving DecidableEq

namespace TokenStream

def ofCursor (cursor : Cursor) : TokenStream :=
  match cursor.pull, cursor.rest_pull_lt with
  | (.token t, next), shorter =>
    have : next.rest.length < cursor.rest.length := shorter (by simp)
    let following := ofCursor next
    ⟨t :: following.tokens, following.ending⟩
  | (.fault f, _), _ => ⟨[], .fault f⟩
  | (.finished, next), _ => ⟨[], .finished next.position⟩
termination_by cursor.rest.length

def ofOrigin (origin : Origin) : TokenStream := ofCursor (.ofOrigin origin)

end TokenStream

end SceneScript
