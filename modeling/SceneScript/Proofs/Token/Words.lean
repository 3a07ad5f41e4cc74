import SceneScript.Proofs.Token.Lexemes

/-!
The words of a text: which characters make up an operator, a numeral, a name or a string, and how
far such a word reaches where it stands.
-/

namespace SceneScript

/-- No longer front of the text than this one has the property. -/
def Longest (P : List Char → Prop) (front back : List Char) : Prop :=
  P front ∧ ∀ other, P other → other <+: front ++ back → other.length ≤ front.length

namespace Longest

variable {P Q : List Char → Prop} {front back : List Char} {c : Char}

theorem nil {rest : List Char} (empty : P []) (stops : ∀ c ∈ rest.head?, ∀ w, ¬ P (c :: w)) :
    Longest P [] rest := by
  refine ⟨empty, fun other holds isPrefix => ?_⟩
  cases other with
  | nil => exact Nat.le_refl 0
  | cons c w =>
    obtain ⟨back, rfl⟩ := isPrefix
    exact absurd holds (stops c rfl w)

theorem cons (same : ∀ w, P (c :: w) ↔ Q w) (longest : Longest Q front back) :
    Longest P (c :: front) back := by
  refine ⟨(same front).mpr longest.1, fun other holds isPrefix => ?_⟩
  cases other with
  | nil => exact Nat.zero_le _
  | cons d w =>
    obtain ⟨rfl, rest⟩ := List.cons_prefix_cons.mp isPrefix
    exact Nat.succ_le_succ (longest.2 w ((same w).mp holds) rest)

/-- Only the fronts that have the same first character matter. -/
theorem of_first (longest : Longest P (c :: front) back)
    (same : ∀ w, Q (c :: w) ↔ P (c :: w)) : Longest Q (c :: front) back := by
  refine ⟨(same front).mpr longest.1, fun other holds isPrefix => ?_⟩
  cases other with
  | nil => exact Nat.zero_le _
  | cons d w =>
    obtain ⟨rfl, -⟩ := List.cons_prefix_cons.mp isPrefix
    exact longest.2 _ ((same w).mp holds) isPrefix

theorem takeWhile (p : Char → Bool) (cs : List Char) :
    Longest (∀ c ∈ ·, p c = true) (cs.takeWhile p) (cs.dropWhile p) := by
  induction cs with
  | nil => exact nil (by simp) (by simp)
  | cons c cs ih =>
    by_cases holds : p c = true
    · rw [List.takeWhile_cons_of_pos holds, List.dropWhile_cons_of_pos holds]
      exact ih.cons fun w => by simp [holds]
    · rw [List.takeWhile_cons_of_neg holds, List.dropWhile_cons_of_neg holds]
      refine nil (by simp) ?_
      rintro _ ⟨⟩ w all
      exact holds (all c List.mem_cons_self)

end Longest

namespace Word

/-- Digits with at most this many points among them. -/
def Digits (points : Nat) (w : List Char) : Prop :=
  (∀ c ∈ w, Text.isDigit c = true ∨ c = '.') ∧ w.count '.' ≤ points

/-- Digits with at most one point, or the point alone. -/
def Numeral (w : List Char) : Prop := w ≠ [] ∧ Digits 1 w

def Name : List Char → Prop
  | [] => False
  | c :: cs => Text.startsName c = true ∧ ∀ d ∈ cs, Text.continuesName d = true

/-- What may stand between two quotes: a quote or a backslash only behind a backslash. -/
inductive Body (quote : Char) : List Char → Prop where
  | nil : Body quote []
  | escape (c : Char) {cs : List Char} (rest : Body quote cs) : Body quote ('\\' :: c :: cs)
  | plain {c : Char} {cs : List Char} (notQuote : c ≠ quote) (notBackslash : c ≠ '\\')
    (rest : Body quote cs) : Body quote (c :: cs)

/-- The characters are those of a token of this kind and with this value. -/
inductive Denotes : List Char → TokenKind → Json → Prop where
  | single {c : Char} {kind : TokenKind} (operator : TokenKind.ofChar? c = some kind) :
    Denotes [c] kind .null
  | pair {c d : Char} {kind : TokenKind} (operator : TokenKind.ofPair? c d = some kind) :
    Denotes [c, d] kind .null
  | numeral {w : List Char} (numeral : Numeral w) :
    Denotes w .number (.string (String.ofList (Literal.completeNumeral w)))
  | name {w : List Char} (name : Name w) :
    Denotes w (if String.ofList w ∈ keywords then .keyword else .identifier)
      (.string (String.ofList w))
  | quoted {quote : Char} {body : List Char} (isQuote : quote = '"' ∨ quote = Text.apostrophe)
    (inside : Body quote body) :
    Denotes (quote :: body ++ [quote]) .string (.string (String.ofList (Literal.unescape body)))

/-- The characters are those of some token. -/
def IsWord (w : List Char) : Prop := ∃ kind value, Denotes w kind value

section Numeral

theorem digits_cons_digit {c : Char} (digit : Text.isDigit c = true) (points : Nat)
    (w : List Char) : Digits points (c :: w) ↔ Digits points w := by
  have notPoint : c ≠ '.' := by
    rintro rfl
    exact absurd digit (by decide)
  simp [Digits, digit, notPoint]

theorem digits_cons_point (points : Nat) (w : List Char) :
    Digits (points + 1) ('.' :: w) ↔ Digits points w := by
  simp [Digits]

theorem longest_digits (dotted : Bool) (cs : List Char) :
    Longest (Digits (if dotted then 0 else 1)) (Cursor.spanNumeral dotted cs).1
      (Cursor.spanNumeral dotted cs).2 := by
  have empty (points : Nat) : Digits points [] := ⟨by simp, Nat.zero_le _⟩
  induction cs generalizing dotted with
  | nil => exact .nil (empty _) fun _ isFirst => by cases isFirst
  | cons c cs ih =>
    by_cases digit : Text.isDigit c = true
    · simp only [Cursor.spanNumeral, digit, if_true]
      exact (ih dotted).cons (digits_cons_digit digit _)
    by_cases point : c = '.' ∧ dotted = false
    · obtain ⟨rfl, rfl⟩ := point
      simp only [Cursor.spanNumeral, digit, and_self, if_true, if_false, Bool.false_eq_true]
      exact (ih true).cons (digits_cons_point 0)
    · simp only [Cursor.spanNumeral, digit, point, if_false, Bool.false_eq_true]
      refine .nil (empty _) ?_
      rintro _ ⟨⟩ w ⟨allowed, count⟩
      -- The first character would be a point, of which there has been one already.
      rcases allowed c List.mem_cons_self with isDigit | rfl
      · exact digit isDigit
      · have isDotted : dotted = true := by simpa using point
        simp [isDotted] at count

theorem numeral_cons_iff {c : Char} {w : List Char} :
    Numeral (c :: w) ↔ (Text.isDigit c || c == '.') = true ∧ Digits 1 (c :: w) := by
  constructor
  · rintro ⟨-, digits⟩
    exact ⟨by simpa using digits.1 c List.mem_cons_self, digits⟩
  · rintro ⟨-, digits⟩
    exact ⟨by simp, digits⟩

theorem longest_numeral {c : Char} {cs front back : List Char}
    (starts : (Text.isDigit c || c == '.') = true)
    (spans : Cursor.spanNumeral false (c :: cs) = (c :: front, back)) :
    Longest Numeral (c :: front) back := by
  have longest := longest_digits false (c :: cs)
  rw [spans] at longest
  exact longest.of_first fun w => by simp [numeral_cons_iff, starts]

end Numeral

theorem longest_name {c : Char} (starts : Text.startsName c = true) (cs : List Char) :
    Longest Name (c :: cs.takeWhile Text.continuesName) (cs.dropWhile Text.continuesName) :=
  (Longest.takeWhile Text.continuesName cs).cons fun w => by simp [Name, starts]

section Quoted

variable {quote : Char} {cs : List Char}

theorem Body.closeString {body : List Char} (inside : Body quote body) (plain : quote ≠ '\\')
    (back : List Char) : Cursor.closeString quote (body ++ quote :: back) =
      some (Literal.unescape body, body.length + 1, back) := by
  induction inside with
  | nil => simp [Cursor.closeString_eq plain, Grammar.Pattern.quotedLength?_cons plain,
      Literal.unescape]
  | escape c rest ih => simp [Cursor.closeString, ih, Literal.unescape]
  | plain notQuote notBackslash rest ih =>
    rw [List.cons_append, Cursor.closeString, if_neg notQuote, if_neg notBackslash, ih]
    · simp [Cursor.unescape_cons notBackslash]
    · exact fun _ _ same => absurd same notBackslash

/-- A string ends with the first quote that no backslash escapes. -/
theorem exists_body_of_closeString {value back : List Char} {length : Nat}
    (closes : Cursor.closeString quote cs = some (value, length, back)) :
    ∃ body, Body quote body ∧ cs = body ++ quote :: back ∧ length = body.length + 1 ∧
      value = Literal.unescape body := by
  fun_induction Cursor.closeString quote cs generalizing value length back with
  | case1 => cases closes
  | case2 c cs ih =>
    obtain ⟨⟨inner, count, rest⟩, found, same⟩ := Option.map_eq_some_iff.mp closes
    cases same
    obtain ⟨body, inside, rfl, rfl, rfl⟩ := ih found
    exact ⟨'\\' :: c :: body, .escape c inside, rfl, rfl, by simp [Literal.unescape]⟩
  | case3 cs =>
    cases closes
    exact ⟨[], .nil, rfl, rfl, rfl⟩
  | case4 => cases closes
  | case5 c cs _ notQuote notBackslash ih =>
    obtain ⟨⟨inner, count, rest⟩, found, same⟩ := Option.map_eq_some_iff.mp closes
    cases same
    obtain ⟨body, inside, rfl, rfl, rfl⟩ := ih found
    exact ⟨c :: body, .plain notQuote notBackslash inside, rfl, rfl,
      (Cursor.unescape_cons notBackslash body).symm⟩

theorem take_closed (body back : List Char) :
    (body ++ quote :: back).take (body.length + 1) = body ++ [quote] := by
  rw [← List.singleton_append, ← List.append_assoc]
  exact List.take_left' (by simp)

/-- A quote, a body and the same quote again. -/
def Quoted (quote : Char) (w : List Char) : Prop :=
  ∃ body, Body quote body ∧ w = quote :: body ++ [quote]

theorem closeString_of_quoted {w : List Char} (plain : quote ≠ '\\')
    (quoted : Quoted quote (quote :: w)) (isPrefix : w <+: cs) :
    ∃ value back, Cursor.closeString quote cs = some (value, w.length, back) := by
  obtain ⟨body, inside, same⟩ := quoted
  obtain ⟨back, rfl⟩ := isPrefix
  obtain rfl : w = body ++ [quote] := by simpa using same
  have closes := inside.closeString plain back
  refine ⟨Literal.unescape body, back, ?_⟩
  rw [List.append_assoc, List.singleton_append, closes, List.length_append]
  rfl

theorem longest_quoted (plain : quote ≠ '\\') {body back : List Char} (inside : Body quote body) :
    Longest (Quoted quote) (quote :: body ++ [quote]) back := by
  refine ⟨⟨body, inside, rfl⟩, fun other quoted isPrefix => ?_⟩
  obtain ⟨body', inside', rfl⟩ := id quoted
  have front : body' ++ [quote] <+: body ++ quote :: back := by
    have tails := (List.cons_prefix_cons.mp isPrefix).2
    simpa using tails
  obtain ⟨value, back', closes⟩ := closeString_of_quoted (w := body' ++ [quote]) plain quoted front
  rw [inside.closeString plain] at closes
  have lengths := (Prod.mk.inj (Prod.mk.inj (Option.some.inj closes)).2).1
  simp only [List.cons_append, List.length_append, List.length_cons, List.length_nil] at lengths ⊢
  omega

theorem closeString_eq_none_iff (plain : quote ≠ '\\') :
    Cursor.closeString quote cs = none ↔ ∀ w, w <+: quote :: cs → ¬ Quoted quote w := by
  constructor
  · intro unclosed w isPrefix quoted
    obtain ⟨body, inside, rfl⟩ := id quoted
    have front := (List.cons_prefix_cons.mp isPrefix).2
    obtain ⟨value, back, closes⟩ := closeString_of_quoted plain quoted front
    rw [unclosed] at closes
    cases closes
  · intro none
    rw [Option.eq_none_iff_forall_ne_some]
    rintro ⟨value, length, back⟩ closes
    obtain ⟨body, inside, rfl, -, -⟩ := exists_body_of_closeString closes
    refine none (quote :: body ++ [quote]) ⟨back, ?_⟩ ⟨body, inside, rfl⟩
    simp

end Quoted

/-- What a word can be, as told by its first character. -/
inductive Lead where
  | operator
  | numeral
  | name
  | quote

def lead? (c : Char) : Option Lead :=
  if (TokenKind.ofChar? c).isSome then some .operator
  else if Text.isDigit c || c == '.' then some .numeral
  else if Text.startsName c then some .name
  else if c = '"' ∨ c = Text.apostrophe then some .quote
  else none

section Lead

variable {c : Char} {w : List Char}

theorem lead?_eq_operator_iff :
    lead? c = some .operator ↔ ∃ kind, TokenKind.ofChar? c = some kind := by
  unfold lead?
  grind [Option.isSome_iff_exists]

theorem lead?_eq_numeral_iff :
    lead? c = some .numeral ↔ (Text.isDigit c || c == '.') = true := by
  have noOperator := @TokenKind.ofChar?_of_numeral c
  unfold lead?
  grind

theorem lead?_eq_name_iff : lead? c = some .name ↔ Text.startsName c = true := by
  have noOperator := @TokenKind.ofChar?_of_name c
  have noDigit := @Text.isDigit_eq_false_of_startsName c
  have noPoint : Text.startsName '.' = false := by decide
  unfold lead?
  grind

theorem lead?_eq_quote_iff : lead? c = some .quote ↔ c = '"' ∨ c = Text.apostrophe := by
  constructor
  · unfold lead?
    grind
  · rintro (rfl | rfl) <;> rfl

theorem plain_of_quote (isQuote : c = '"' ∨ c = Text.apostrophe) : c ≠ '\\' := by
  rcases isQuote with rfl | rfl <;> decide

theorem exists_ofChar?_of_pair {d : Char} {kind : TokenKind}
    (pair : TokenKind.ofPair? c d = some kind) : ∃ first, TokenKind.ofChar? c = some first := by
  unfold TokenKind.ofPair? at pair
  split at pair <;> cases pair <;> exact ⟨_, rfl⟩

/-- The first character tells how to go on reading a word. -/
theorem denotes_cons_iff {kind : TokenKind} {value : Json} : Denotes (c :: w) kind value ↔
    match lead? c with
    | some .operator => value = .null ∧
        (w = [] ∧ TokenKind.ofChar? c = some kind ∨
          ∃ d, w = [d] ∧ TokenKind.ofPair? c d = some kind)
    | some .numeral => Numeral (c :: w) ∧ kind = .number ∧
        value = .string (String.ofList (Literal.completeNumeral (c :: w)))
    | some .name => Name (c :: w) ∧
        kind = (if String.ofList (c :: w) ∈ keywords then .keyword else .identifier) ∧
        value = .string (String.ofList (c :: w))
    | some .quote => ∃ body, Body c body ∧ w = body ++ [c] ∧ kind = .string ∧
        value = .string (String.ofList (Literal.unescape body))
    | none => False := by
  constructor
  · intro denotes
    generalize whole : c :: w = word at denotes
    cases denotes with
    | single operator =>
      cases whole
      rw [lead?_eq_operator_iff.mpr ⟨_, operator⟩]
      exact ⟨rfl, .inl ⟨rfl, operator⟩⟩
    | pair operator =>
      cases whole
      rw [lead?_eq_operator_iff.mpr (exists_ofChar?_of_pair operator)]
      exact ⟨rfl, .inr ⟨_, rfl, operator⟩⟩
    | numeral numeral =>
      subst whole
      rw [lead?_eq_numeral_iff.mpr (numeral_cons_iff.mp numeral).1]
      exact ⟨numeral, rfl, rfl⟩
    | name name =>
      subst whole
      rw [lead?_eq_name_iff.mpr name.1]
      exact ⟨name, rfl, rfl⟩
    | quoted isQuote inside =>
      cases whole
      rw [lead?_eq_quote_iff.mpr isQuote]
      exact ⟨_, inside, rfl, rfl, rfl⟩
  · intro means
    cases isLead : lead? c with
    | none => simp [isLead] at means
    | some lead =>
      rw [isLead] at means
      cases lead with
      | operator =>
        rcases means with ⟨rfl, ⟨rfl, operator⟩ | ⟨d, rfl, operator⟩⟩
        · exact .single operator
        · exact .pair operator
      | numeral =>
        obtain ⟨numeral, rfl, rfl⟩ := means
        exact .numeral numeral
      | name =>
        obtain ⟨name, rfl, rfl⟩ := means
        exact .name name
      | quote =>
        obtain ⟨body, inside, rfl, rfl, rfl⟩ := means
        exact .quoted (lead?_eq_quote_iff.mp isLead) inside

theorem not_denotes_nil {kind : TokenKind} {value : Json} : ¬ Denotes [] kind value := by
  generalize empty : ([] : List Char) = word
  intro denotes
  cases denotes with
  | single | pair | quoted => cases empty
  | numeral numeral => exact numeral.1 empty.symm
  | name name => exact (empty ▸ name : Name [])

/-- A word at the front of a text has its first character. -/
theorem IsWord.exists_cons {cs : List Char} (isWord : IsWord w) (isPrefix : w <+: c :: cs) :
    ∃ back, w = c :: back := by
  cases w with
  | nil =>
    obtain ⟨kind, value, denotes⟩ := isWord
    exact absurd denotes not_denotes_nil
  | cons d w =>
    obtain ⟨rfl, -⟩ := List.cons_prefix_cons.mp isPrefix
    exact ⟨w, rfl⟩

/-- Characters determine the kind and the value of their token. -/
theorem Denotes.unique {kind kind' : TokenKind} {value value' : Json}
    (first : Denotes w kind value) (second : Denotes w kind' value') :
    kind = kind' ∧ value = value' := by
  cases w with
  | nil => exact absurd first not_denotes_nil
  | cons c w =>
    rw [denotes_cons_iff] at first second
    cases isLead : lead? c with
    | none => simp [isLead] at first
    | some lead =>
      rw [isLead] at first second
      cases lead with
      | operator => grind
      | numeral => exact ⟨first.2.1.trans second.2.1.symm, first.2.2.trans second.2.2.symm⟩
      | name => exact ⟨first.2.1.trans second.2.1.symm, first.2.2.trans second.2.2.symm⟩
      | quote =>
        obtain ⟨body, -, rfl, rfl, rfl⟩ := first
        obtain ⟨body', -, same, rfl, rfl⟩ := second
        rw [List.append_cancel_right same]
        exact ⟨rfl, rfl⟩

/-- A word starts as words of its class do, so it is one of these. -/
theorem isWord_cons_iff : IsWord (c :: w) ↔
    match lead? c with
    | some .operator => w = [] ∨ ∃ d, w = [d] ∧ ∃ kind, TokenKind.ofPair? c d = some kind
    | some .numeral => Numeral (c :: w)
    | some .name => Name (c :: w)
    | some .quote => Quoted c (c :: w)
    | none => False := by
  simp only [IsWord, denotes_cons_iff]
  cases isLead : lead? c with
  | none => simp
  | some lead =>
    cases lead with
    | operator =>
      obtain ⟨kind, single⟩ := lead?_eq_operator_iff.mp isLead
      simp [single]
      grind
    | numeral => simp
    | name => simp
    | quote => simp [Quoted]

/-- No word starts like a gap between words. -/
theorem IsWord.solid (isWord : IsWord (c :: w)) :
    Text.isBlank c = false ∧ c ≠ '#' := by
  rw [isWord_cons_iff] at isWord
  cases isLead : lead? c with
  | none => simp [isLead] at isWord
  | some lead =>
    have notHash : c ≠ '#' := by
      rintro rfl
      cases isLead
    refine ⟨?_, notHash⟩
    cases lead with
    | operator =>
      obtain ⟨kind, single⟩ := lead?_eq_operator_iff.mp isLead
      exact (TokenKind.plain_of_ofChar? single).2.2
    | numeral =>
      rcases Bool.or_eq_true_iff.mp (lead?_eq_numeral_iff.mp isLead) with digit | point
      · exact Text.isBlank_eq_false_of_isDigit digit
      · rw [beq_iff_eq.mp point]
        decide
    | name => exact Text.isBlank_eq_false_of_startsName (lead?_eq_name_iff.mp isLead)
    | quote => rcases lead?_eq_quote_iff.mp isLead with rfl | rfl <;> decide

end Lead

end Word

end SceneScript
