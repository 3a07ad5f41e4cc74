import SceneScript.Proofs.Token.Scanning

/-!
Texts that scan to given tokens, whatever stands in front of them and behind them.
-/

namespace SceneScript

/-- From one cursor on, the scanner gives the tokens and then what it gives from the other one. -/
def Cursor.Scans (a : Cursor) (ts : List Token) (b : Cursor) : Prop :=
  TokenStream.ofCursor a =
    ⟨ts ++ (TokenStream.ofCursor b).tokens, (TokenStream.ofCursor b).ending⟩

namespace Cursor.Scans

variable {a b c : Cursor} {ts us : List Token}

theorem refl (a : Cursor) : a.Scans [] a := rfl

theorem trans (first : a.Scans ts b) (second : b.Scans us c) : a.Scans (ts ++ us) c := by
  unfold Scans at first second ⊢
  rw [first, second, List.append_assoc]

theorem token {t : Token} (pulled : a.pull = (.token t, b)) : a.Scans [t] b :=
  TokenStream.ofCursor_of_token pulled

theorem blanks (p : Position) {run : List Char} (blank : ∀ c ∈ run, Text.isBlank c = true)
    (rest : List Char) : Scans ⟨p, run ++ rest⟩ [] ⟨p.walk run, rest⟩ := by
  refine TokenStream.ofCursor_congr ?_
  rw [pull, pull, skip_blanks p blank]

end Cursor.Scans

def stoppers : List Char := [' ', '(', ')', ']', ',', ';']

/-- No token goes on with what follows. -/
def Stops (rest : List Char) : Prop := ∀ c ∈ rest.head?, c ∈ stoppers

/-- In front of anything that stops tokens, the text scans to tokens as described. -/
def Spells (text : List Char) (R : List Token → Prop) : Prop :=
  ∀ p rest, Stops rest → ∃ ts q, Cursor.Scans ⟨p, text ++ rest⟩ ts ⟨q, rest⟩ ∧ R ts

def Single (kind : TokenKind) (value : Json) (ts : List Token) : Prop :=
  ∃ span, ts = [⟨kind, value, span⟩]

namespace Stops

variable {rest : List Char}

theorem cons {c : Char} (known : c ∈ stoppers) (cs : List Char) : Stops (c :: cs) := by
  rintro d ⟨⟩
  exact known

theorem append {text : List Char} (first : Stops text) (second : Stops rest) :
    Stops (text ++ rest) := by
  cases text with
  | nil => exact second
  | cons c cs => exact first

theorem not_continuesName (stops : Stops rest) :
    ∀ c ∈ rest.head?, Text.continuesName c = false := by
  intro c first
  have known := stops c first
  simp only [stoppers, List.mem_cons, List.not_mem_nil, or_false] at known
  rcases known with rfl | rfl | rfl | rfl | rfl | rfl <;> decide

theorem not_numeral (stops : Stops rest) :
    ∀ c ∈ rest.head?, Text.isDigit c = false ∧ c ≠ '.' := by
  intro c first
  have known := stops c first
  simp only [stoppers, List.mem_cons, List.not_mem_nil, or_false] at known
  rcases known with rfl | rfl | rfl | rfl | rfl | rfl <;> decide

theorem not_pair (stops : Stops rest) (c : Char) :
    ∀ d ∈ rest.head?, TokenKind.ofPair? c d = none := by
  intro d first
  have known := stops d first
  simp only [stoppers, List.mem_cons, List.not_mem_nil, or_false] at known
  unfold TokenKind.ofPair?
  rcases known with rfl | rfl | rfl | rfl | rfl | rfl <;> simp

end Stops

namespace Spells

variable {text other : List Char} {R S : List Token → Prop}

theorem mono (spells : Spells text R) (more : ∀ ts, R ts → S ts) : Spells text S := by
  intro p rest stops
  obtain ⟨ts, q, scans, holds⟩ := spells p rest stops
  exact ⟨ts, q, scans, more ts holds⟩

/-- A text that stands alone scans to its tokens. -/
theorem tokens_ofOrigin (spells : Spells text R) (file : String) : ∃ ts stop,
    TokenStream.ofOrigin ⟨file, String.ofList text⟩ = ⟨ts, .finished stop⟩ ∧ R ts := by
  have nothing : Stops [] := by rintro c ⟨⟩
  obtain ⟨ts, q, scans, holds⟩ := spells (.start ⟨file, String.ofList text⟩) [] nothing
  have finished : TokenStream.ofCursor ⟨q, []⟩ = ⟨[], .finished q⟩ := by
    rw [TokenStream.ofCursor_eq]
    rfl
  rw [Cursor.Scans, finished, List.append_nil, List.append_nil] at scans
  refine ⟨ts, q, ?_, holds⟩
  rw [TokenStream.ofOrigin, Cursor.ofOrigin, String.toList_ofList]
  exact scans

theorem nil : Spells [] (· = []) := fun p _ _ => ⟨[], p, .refl _, rfl⟩

theorem append (first : Spells text R) (second : Spells other S) (stops : Stops other) :
    Spells (text ++ other) fun ts => ∃ us vs, R us ∧ S vs ∧ ts = us ++ vs := by
  intro p rest behind
  obtain ⟨us, q, scans, holds⟩ := first p (other ++ rest) (stops.append behind)
  obtain ⟨vs, q', scans', holds'⟩ := second q rest behind
  rw [List.append_assoc]
  exact ⟨us ++ vs, q', scans.trans scans', us, vs, holds, holds', rfl⟩

theorem blanks {run : List Char} (blank : ∀ c ∈ run, Text.isBlank c = true)
    (spells : Spells text R) : Spells (run ++ text) R := by
  intro p rest stops
  obtain ⟨ts, q, scans, holds⟩ := spells (p.walk run) rest stops
  rw [List.append_assoc]
  exact ⟨ts, q, (Cursor.Scans.blanks p blank (text ++ rest)).trans scans, holds⟩

theorem space (spells : Spells text R) : Spells (' ' :: text) R :=
  @blanks text R [' '] (List.all_eq_true.mp rfl) spells

/-- A character that is an operator in front of anything. -/
theorem operator {c : Char} {kind : TokenKind} (single : TokenKind.ofChar? c = some kind)
    (unpaired : ∀ d, TokenKind.ofPair? c d = none) (spells : Spells text R) :
    Spells (c :: text) fun ts => ∃ span us, R us ∧ ts = ⟨kind, .null, span⟩ :: us := by
  intro p rest stops
  have pulled (cs : List Char) :
      Cursor.pull ⟨p, c :: cs⟩ = Cursor.take p kind .null [c] cs := by
    rw [Cursor.pull_operator single]
    cases cs with
    | nil => rfl
    | cons d ds => simp only [Cursor.pullOperator, unpaired]
  obtain ⟨us, q, scans, holds⟩ := spells (p.walk [c]) rest stops
  exact ⟨_, q, (Cursor.Scans.token (pulled _)).trans scans, _, us, holds, rfl⟩

theorem cons {c : Char} {kind : TokenKind} (single : TokenKind.ofChar? c = some kind)
    (unpaired : ∀ d, TokenKind.ofPair? c d = none) (spells : Spells text R) :
    Spells (c :: text) fun ts => ∃ t us, t.kind = kind ∧ R us ∧ ts = t :: us := by
  refine (operator single unpaired spells).mono ?_
  rintro ts ⟨span, us, holds, rfl⟩
  exact ⟨_, us, rfl, holds, rfl⟩

theorem single {c : Char} {kind : TokenKind} (single : TokenKind.ofChar? c = some kind) :
    Spells [c] (Single kind .null) := by
  intro p rest stops
  have pulled : Cursor.pull ⟨p, c :: rest⟩ = Cursor.take p kind .null [c] rest := by
    rw [Cursor.pull_operator single]
    cases rest with
    | nil => rfl
    | cons d ds => simp only [Cursor.pullOperator, stops.not_pair c d rfl]
  exact ⟨_, _, .token pulled, _, rfl⟩

theorem pair {c d : Char} {first kind : TokenKind} (single : TokenKind.ofChar? c = some first)
    (pair : TokenKind.ofPair? c d = some kind) : Spells [c, d] (Single kind .null) := by
  intro p rest _
  have pulled : Cursor.pull ⟨p, c :: d :: rest⟩ = Cursor.take p kind .null [c, d] rest := by
    rw [Cursor.pull_operator single]
    simp only [Cursor.pullOperator, pair]
  exact ⟨_, _, .token pulled, _, rfl⟩

theorem word {c : Char} {cs : List Char} (starts : Text.startsName c = true)
    (goesOn : ∀ d ∈ c :: cs, Text.continuesName d = true) :
    Spells (c :: cs) (Single
      (if String.ofList (c :: cs) ∈ keywords then .keyword else .identifier)
      (.string (String.ofList (c :: cs)))) := by
  intro p rest stops
  have taken : rest.takeWhile Text.continuesName = [] := by
    cases rest with
    | nil => rfl
    | cons d ds => simp [stops.not_continuesName d rfl]
  have left : rest.dropWhile Text.continuesName = rest := by
    cases rest with
    | nil => rfl
    | cons d ds => simp [stops.not_continuesName d rfl]
  have pulled : Cursor.pull ⟨p, c :: (cs ++ rest)⟩ = _ := Cursor.pull_name starts p
  simp only [Cursor.pullName, ← List.cons_append, List.takeWhile_append_of_pos goesOn,
    List.dropWhile_append_of_pos goesOn, taken, left, List.append_nil] at pulled
  exact ⟨_, _, .token pulled, _, rfl⟩

end Spells

namespace Cursor

theorem spanNumeral_digits (dotted : Bool) {ds : List Char}
    (digits : ∀ d ∈ ds, Text.isDigit d = true) (rest : List Char) :
    spanNumeral dotted (ds ++ rest) =
      (ds ++ (spanNumeral dotted rest).1, (spanNumeral dotted rest).2) := by
  induction ds with
  | nil => rfl
  | cons d ds ih =>
    obtain ⟨here, others⟩ := List.forall_mem_cons.mp digits
    simp only [List.cons_append, spanNumeral, here, if_true, ih others]

theorem spanNumeral_stop (dotted : Bool) {rest : List Char} (stops : Stops rest) :
    spanNumeral dotted rest = ([], rest) := by
  cases rest with
  | nil => rfl
  | cons c cs =>
    obtain ⟨notDigit, notPoint⟩ := stops.not_numeral c rfl
    simp [spanNumeral, notDigit, notPoint]

end Cursor

namespace Literal

theorem completeNumeral_eq {cs : List Char} (first : cs.head? ≠ some '.')
    (last : cs.getLast? ≠ some '.') : completeNumeral cs = cs := by
  simp [completeNumeral, first, last]

theorem getLast?_ne_point (front : List Char) {ds : List Char} (some_digit : ds ≠ [])
    (digits : ∀ d ∈ ds, Text.isDigit d = true) : (front ++ ds).getLast? ≠ some '.' := by
  rw [List.getLast?_append, List.getLast?_eq_some_getLast some_digit, Option.some_or]
  intro last
  have digit := digits _ (List.getLast_mem some_digit)
  rw [Option.some.inj last] at digit
  exact absurd digit (by decide)

/-- A character of a text between double quotes. -/
def escape (c : Char) : List Char := if c = '\\' ∨ c = '"' then ['\\', c] else [c]

def quote (cs : List Char) : List Char := '"' :: cs.flatMap escape ++ ['"']

end Literal

namespace Cursor

theorem closeString_cons {quote c : Char} (plain : c ≠ '\\') (cs : List Char) :
    closeString quote (c :: cs) =
      if c = quote then some ([], 1, cs)
      else (closeString quote cs).map fun (body, length, back) =>
        (c :: body, length + 1, back) := by
  rw [closeString, if_neg plain]
  exact fun _ _ same => absurd same plain

theorem closeString_escaped (cs rest : List Char) :
    closeString '"' (cs.flatMap Literal.escape ++ '"' :: rest) =
      some (cs, (cs.flatMap Literal.escape).length + 1, rest) := by
  induction cs with
  | nil => exact closeString_cons (by decide) rest
  | cons c cs ih =>
    rw [List.flatMap_cons, List.append_assoc]
    by_cases special : c = '\\' ∨ c = '"'
    · have two : Literal.escape c = ['\\', c] := if_pos special
      have same : Literal.escaped c = c := by rcases special with rfl | rfl <;> rfl
      simp only [two, List.cons_append, List.nil_append, closeString, ih, Option.map_some, same,
        List.length_cons]
    · have one : Literal.escape c = [c] := if_neg special
      obtain ⟨plain, notQuote⟩ := not_or.mp special
      simp only [one, List.cons_append, List.nil_append, closeString_cons plain, notQuote, if_false,
        ih, Option.map_some, List.length_cons]

end Cursor

namespace Spells

theorem numeral_of_span {c : Char} {cs : List Char} (digit : Text.isDigit c = true)
    (last : (c :: cs).getLast? ≠ some '.')
    (spans : ∀ rest, Stops rest → Cursor.spanNumeral false (c :: cs ++ rest) = (c :: cs, rest)) :
    Spells (c :: cs) (Single .number (.string (String.ofList (c :: cs)))) := by
  intro p rest stops
  have notPoint : (c :: cs).head? ≠ some '.' := by
    rintro ⟨⟩
    exact absurd digit (by decide)
  have pulled : Cursor.pull ⟨p, c :: (cs ++ rest)⟩ = _ :=
    Cursor.pull_numeral (by rw [digit]; rfl) p
  rw [Cursor.pullNumeral, ← List.cons_append, spans rest stops] at pulled
  simp only [Literal.completeNumeral_eq notPoint last] at pulled
  exact ⟨_, _, .token pulled, _, rfl⟩

theorem whole {c : Char} {ds : List Char} (digits : ∀ d ∈ c :: ds, Text.isDigit d = true) :
    Spells (c :: ds) (Single .number (.string (String.ofList (c :: ds)))) := by
  refine numeral_of_span (digits c List.mem_cons_self)
    (Literal.getLast?_ne_point [] (by simp) digits) fun rest stops => ?_
  rw [Cursor.spanNumeral_digits false digits, Cursor.spanNumeral_stop false stops, List.append_nil]

theorem fraction {c : Char} {ds es : List Char} (digits : ∀ d ∈ c :: ds, Text.isDigit d = true)
    (some_digit : es ≠ []) (digits' : ∀ d ∈ es, Text.isDigit d = true) :
    Spells (c :: ds ++ '.' :: es)
      (Single .number (.string (String.ofList (c :: ds ++ '.' :: es)))) := by
  have last : (c :: (ds ++ '.' :: es)).getLast? ≠ some '.' := by
    have behind := Literal.getLast?_ne_point (c :: ds ++ ['.']) some_digit digits'
    simpa using behind
  refine numeral_of_span (digits c List.mem_cons_self) last fun rest stops => ?_
  have point : Cursor.spanNumeral false ('.' :: es ++ rest) = ('.' :: es, rest) := by
    have notDigit : Text.isDigit '.' = false := by decide
    simp [Cursor.spanNumeral, notDigit, Cursor.spanNumeral_digits true digits',
      Cursor.spanNumeral_stop true stops]
  show Cursor.spanNumeral false ((c :: ds ++ '.' :: es) ++ rest) = (c :: ds ++ '.' :: es, rest)
  rw [List.append_assoc, Cursor.spanNumeral_digits false digits, point]

theorem quoted (s : String) : Spells (Literal.quote s.toList) (Single .string (.string s)) := by
  intro p rest _
  have pulled : Cursor.pull ⟨p, '"' :: (s.toList.flatMap Literal.escape ++ '"' :: rest)⟩ = _ :=
    Cursor.pull_quote (.inl rfl) p
  rw [Cursor.pullString, Cursor.closeString_escaped] at pulled
  simp only [String.ofList_toList] at pulled
  have text : Literal.quote s.toList ++ rest =
      '"' :: (s.toList.flatMap Literal.escape ++ '"' :: rest) := by
    simp [Literal.quote]
  rw [text]
  exact ⟨_, _, .token pulled, _, rfl⟩

end Spells

end SceneScript
