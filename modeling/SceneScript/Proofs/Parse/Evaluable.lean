import SceneScript.Eval.Node
import SceneScript.Proofs.Parse.Shape
import SceneScript.Proofs.Token.Languages

/-!
What the nodes of a parsed program hold can be evaluated: names are texts, the texts of numbers are
numerals, and every operator has an operation.
-/

namespace SceneScript

namespace Numeral

theorem strip_eq {cs : List Char} (solid : ∀ c ∈ cs, isPadding c = false) : strip cs = cs := by
  have none_dropped {cs : List Char} (solid : ∀ c ∈ cs, isPadding c = false) :
      cs.dropWhile isPadding = cs := by
    cases cs with
    | nil => rfl
    | cons c cs => simp [solid c List.mem_cons_self]
  rw [strip, none_dropped solid, none_dropped fun c member => solid c (List.mem_reverse.mp member),
    List.reverse_reverse]

theorem dropSeparators_eq {cs : List Char} (plain : '_' ∉ cs) (afterDigit : Bool) :
    dropSeparators afterDigit cs = some cs := by
  induction cs generalizing afterDigit with
  | nil => rfl
  | cons c cs ih =>
    obtain ⟨differs, others⟩ := not_or.mp fun either => plain (List.mem_cons.mpr either)
    rw [dropSeparators, ih others]
    · rfl
    · exact fun same => absurd same.symm differs
    · exact fun _ _ same => absurd same.symm differs

/-- The characters of numerals mean themselves. -/
theorem plainDigit_eq {c : Char} (known : Text.isDigit c = true ∨ c = '.') : plainDigit c = c := by
  have checked : ∀ n, 0x30 ≤ n → n ≤ 0x39 → plainDigit (Char.ofNat n) = Char.ofNat n := by
    decide +kernel
  rcases known with digit | rfl
  · obtain ⟨least, most⟩ := Text.isDigit_iff.mp digit
    have same := checked c.toNat least most
    rwa [Char.ofNat_toNat] at same
  · decide +kernel

theorem readDecimal?_isSome {c : Char} {cs : List Char} (digit : Text.isDigit c = true)
    (digits : Word.Digits 1 (c :: cs)) (negative : Bool) :
    (readDecimal? negative (c :: cs)).isSome = true := by
  have some_digit : ((c :: cs).takeWhile Text.isDigit).isEmpty = false := by simp [digit]
  have splits : (c :: cs).takeWhile Text.isDigit ++ (c :: cs).dropWhile Text.isDigit = c :: cs :=
    List.takeWhile_append_dropWhile
  unfold readDecimal?
  rw [List.span_eq_takeWhile_dropWhile]
  cases rest : (c :: cs).dropWhile Text.isDigit with
  | nil => simp [some_digit, readExponent?]
  | cons d ds =>
    rw [rest] at splits
    -- Behind the digits there is the point, and behind that there are digits alone.
    have notDigit : Text.isDigit d = false := by
      have stops := List.head?_dropWhile_not Text.isDigit (c :: cs)
      simpa [rest] using stops
    have point : d = '.' := by
      have allowed := digits.1 d (by rw [← splits]; simp)
      exact allowed.resolve_left (by simp [notDigit])
    subst point
    have others : ∀ e ∈ ds, Text.isDigit e = true := by
      intro e member
      have allowed := digits.1 e (by rw [← splits]; simp [member])
      refine allowed.resolve_right ?_
      rintro rfl
      have count := digits.2
      have again := List.count_pos_iff.mpr member
      rw [← splits, List.count_append, List.count_cons_self] at count
      omega
    have none_left : ds.dropWhile Text.isDigit = [] := by
      rw [← List.append_nil ds, List.dropWhile_append_of_pos others]
      rfl
    simp [some_digit, List.span_eq_takeWhile_dropWhile, none_left, readExponent?]

/-- There is nothing around the characters of a numeral, or between them, that reading drops. -/
theorem ofText?_eq {c : Char} {cs : List Char} (digit : Text.isDigit c = true)
    (known : ∀ d ∈ c :: cs, Text.isDigit d = true ∨ d = '.') :
    ofText? (String.ofList (c :: cs)) = readUnsigned? false (c :: cs) := by
  have solid : ∀ d ∈ c :: cs, isPadding d = false := by
    intro d member
    rcases known d member with isDigit | rfl
    · simp [isPadding, Text.isBlank_eq_false_of_isDigit isDigit]
    · decide
  have same : (c :: cs).map plainDigit = c :: cs :=
    (List.map_congr_left fun d member => plainDigit_eq (known d member)).trans (List.map_id _)
  have plain : '_' ∉ c :: cs := by
    intro member
    exact absurd (known _ member) (by decide)
  have unsigned : readSign (c :: cs) = (false, c :: cs) := by
    unfold readSign
    split
    · rename_i sign
      cases sign
      exact absurd digit (by decide)
    · rename_i sign
      cases sign
      exact absurd digit (by decide)
    · rfl
  simp [ofText?, strip_eq solid, same, dropSeparators_eq plain, unsigned]

/-- A numeral of the language with digits on both sides of its point is one. -/
theorem ofText?_isSome {c : Char} {cs : List Char} (digit : Text.isDigit c = true)
    (digits : Word.Digits 1 (c :: cs)) : (ofText? (String.ofList (c :: cs))).isSome = true := by
  rw [ofText?_eq digit digits.1, readUnsigned?]
  split
  · rfl
  split
  · rfl
  · exact readDecimal?_isSome digit digits false

end Numeral

namespace Word.Numeral

/-- Completed, a numeral starts with a digit. -/
theorem exists_completed {w : List Char} (numeral : Numeral w) : ∃ c cs,
    Literal.completeNumeral w = c :: cs ∧ Text.isDigit c = true ∧ Digits 1 (c :: cs) := by
  have zero : Text.isDigit '0' = true := by decide
  have completed {c : Char} {cs : List Char} (digit : Text.isDigit c = true)
      (digits : Digits 1 (c :: cs)) : ∃ d ds,
      (if (c :: cs).getLast? = some '.' then c :: cs ++ ['0'] else c :: cs) = d :: ds ∧
        Text.isDigit d = true ∧ Digits 1 (d :: ds) := by
    split
    · refine ⟨c, cs ++ ['0'], rfl, digit, ?_, ?_⟩
      · rw [← List.cons_append, List.forall_mem_append]
        exact ⟨digits.1, by simp [zero]⟩
      · rw [← List.cons_append, List.count_append]
        exact digits.2
    · exact ⟨c, cs, rfl, digit, digits⟩
  cases w with
  | nil => exact absurd rfl numeral.1
  | cons c cs =>
    obtain ⟨starts, digits⟩ := numeral_cons_iff.mp numeral
    rw [Literal.completeNumeral]
    by_cases point : c = '.'
    · subst point
      exact completed zero ((digits_cons_digit zero 1 _).mpr digits)
    · have digit : Text.isDigit c = true := by simpa [point] using starts
      have first : ¬ (c :: cs).head? = some '.' := by simpa using point
      rw [if_neg first]
      exact completed digit digits

end Word.Numeral

/-- What the token has for a value can be read as its kind says. -/
def Token.Readable (t : Token) : Prop :=
  t.Textual ∧ ∀ s, t.kind = .number → t.value = .string s → (Numeral.ofText? s).isSome = true

theorem Grammar.LexemeStream.readable_of_mem {origin : Origin} {l : Lexeme}
    (member : l ∈ (ofOrigin origin).lexemes) : (l.toToken (.ofOrigin origin)).Readable := by
  refine ⟨l.textual _, fun s isNumber value => ?_⟩
  obtain ⟨pattern, among, terminal, matched⟩ := exists_pattern_of_mem _ _ l member
  obtain ⟨kind, text, start, stop⟩ := l
  obtain rfl : kind = .number := by
    cases kind <;> first | rfl | cases isNumber
  have isNumeral : pattern = .numeral := by
    cases pattern with
    | numeral => rfl
    | name =>
      unfold Pattern.terminal? Pattern.nameTerminal at terminal
      grind
    | literal t w =>
      cases terminal
      simp [Pattern.all] at among
    | quoted | comment | blanks => cases terminal
  subst isNumeral
  obtain rfl : String.ofList (Literal.completeNumeral text) = s := Json.string.inj value
  have numeral : Word.Numeral text := by
    cases text with
    | nil => exact absurd matched (Pattern.nil_notMem_language among)
    | cons c cs => exact Pattern.cons_mem_numeral.mp matched
  obtain ⟨c, cs, completed, digit, digits⟩ := numeral.exists_completed
  rw [completed]
  exact Numeral.ofText?_isSome digit digits

theorem Operator.isSome_of_level {t : Token} {level : Level}
    (known : Level.ofToken? t = some level) : (ofToken? t).isSome = true := by
  unfold Level.ofToken? at known
  unfold ofToken?
  cases kind : t.kind
  case keyword => grind
  all_goals simp_all

/-- The node itself is one that evaluation knows. -/
def Node.Evaluable : Node → Prop
  | .identifier token _ | .string token _ | .assign token _ _ => ∃ s, token.value = .string s
  | .number token _ => ∃ s, token.value = .string s ∧ (Numeral.ofText? s).isSome = true
  | .binary _ op _ _ => (Operator.ofToken? op).isSome = true
  | .unary .. | .list .. | .call .. => True
  | .program .. | .blank .. => False

theorem FrontEnd.evaluable_of_parse {f : FrontEnd} {origin : Origin} {p : Program}
    (parsed : f.parse origin = .ok p) : ∀ part ∈ Node.orderAll p.body, part.Evaluable := by
  obtain ⟨ls, body, stream, statements, rfl⟩ := f.parse_eq_ok parsed
  rw [Program.body_ofBody]
  intro part inside
  obtain ⟨n, member, inner⟩ := Node.exists_of_mem_orderAll inside
  obtain ⟨us, within, reads⟩ := statements.exists_of_mem member
  refine reads.forall_order (Q := Token.Readable) ?_ (fun t among => ?_) part inner
  · exact {
      number := fun t readable kind => by
        obtain ⟨s, value⟩ := readable.1 (by simp [kind])
        exact ⟨s, value, readable.2 s kind value⟩
      string := fun _ readable kind => readable.1 (by simp [kind])
      identifier := fun _ readable kind => readable.1 (by simp [kind])
      binding := fun _ _ readable kind => readable.1 (by simp [kind])
      combination := fun _ _ _ _ known => Operator.isSome_of_level known
      application := fun _ _ => trivial
      enumeration := fun _ _ _ => trivial
      invocation := fun _ _ _ => trivial }
  · obtain ⟨l, isLexeme, rfl⟩ := List.mem_map.mp (within.subset among)
    exact Grammar.LexemeStream.readable_of_mem (by rw [stream]; exact isLexeme)

end SceneScript
