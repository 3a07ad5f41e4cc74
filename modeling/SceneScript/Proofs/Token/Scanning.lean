import SceneScript.Token.Scanner

/-!
What the scanner does step by step: how it skips, and how its stream comes from its pulls.
-/

namespace SceneScript

namespace Text

theorem isDigit_iff {c : Char} : isDigit c = true ↔ 0x30 ≤ c.toNat ∧ c.toNat ≤ 0x39 := by
  simp only [isDigit, Bool.and_eq_true, decide_eq_true_eq, Char.le_def, UInt32.le_iff_toNat_le]
  rfl

theorem startsName_iff {c : Char} : startsName c = true ↔
    (0x61 ≤ c.toNat ∧ c.toNat ≤ 0x7A ∨ 0x41 ≤ c.toNat ∧ c.toNat ≤ 0x5A) ∨ c = '_' := by
  simp only [startsName, isLetter, Bool.or_eq_true, Bool.and_eq_true, decide_eq_true_eq,
    Char.le_def, UInt32.le_iff_toNat_le, beq_iff_eq]
  rfl

theorem continuesName_of_startsName {c : Char} (starts : startsName c = true) :
    continuesName c = true := by
  rw [startsName, Bool.or_eq_true] at starts
  rw [continuesName, Bool.or_eq_true, Bool.or_eq_true]
  exact starts.elim (fun letter => .inl (.inl letter)) .inr

theorem isDigit_eq_false_of_startsName {c : Char} (starts : startsName c = true) :
    isDigit c = false := by
  rw [Bool.eq_false_iff, ne_eq, isDigit_iff]
  rcases startsName_iff.mp starts with letter | rfl
  · omega
  · decide

theorem isBlank_eq_false_of_startsName {c : Char} (starts : startsName c = true) :
    isBlank c = false := by
  rcases startsName_iff.mp starts with letter | rfl
  · simp only [isBlank, Bool.or_eq_false_iff, Bool.and_eq_false_iff, decide_eq_false_iff_not,
      beq_eq_false_iff_ne]
    omega
  · decide

theorem isBlank_eq_false_of_isDigit {c : Char} (digit : isDigit c = true) :
    isBlank c = false := by
  have bounds := isDigit_iff.mp digit
  simp only [isBlank, Bool.or_eq_false_iff, Bool.and_eq_false_iff, decide_eq_false_iff_not,
    beq_eq_false_iff_ne]
  omega

theorem isBlank_eq_false_of_continuesName {c : Char} (goesOn : continuesName c = true) :
    isBlank c = false := by
  rw [continuesName, Bool.or_eq_true, Bool.or_eq_true] at goesOn
  rcases goesOn with (letter | digit) | under
  · exact isBlank_eq_false_of_startsName (by rw [startsName, letter, Bool.true_or])
  · exact isBlank_eq_false_of_isDigit digit
  · exact isBlank_eq_false_of_startsName (by rw [startsName, under, Bool.or_true])

end Text

namespace TokenKind

theorem plain_of_ofChar? {c : Char} {kind : TokenKind} (single : ofChar? c = some kind) :
    Text.startsName c = false ∧ Text.isDigit c = false ∧ Text.isBlank c = false := by
  unfold ofChar? at single
  split at single <;> cases single <;> decide

theorem ofChar?_of_numeral {c : Char} (starts : (Text.isDigit c || c == '.') = true) :
    ofChar? c = none := by
  cases operator : ofChar? c with
  | none => rfl
  | some kind =>
    have point : c = '.' := by simpa [(plain_of_ofChar? operator).2.1] using starts
    rw [point] at operator
    cases operator

theorem ofChar?_of_name {c : Char} (starts : Text.startsName c = true) : ofChar? c = none := by
  cases operator : ofChar? c with
  | none => rfl
  | some kind => exact absurd starts (Bool.eq_false_iff.mp (plain_of_ofChar? operator).1)

end TokenKind

namespace Cursor

theorem skip_blanks (p : Position) {run : List Char} (blank : ∀ c ∈ run, Text.isBlank c = true)
    (rest : List Char) : skip p false (run ++ rest) = skip (p.walk run) false rest := by
  induction run generalizing p with
  | nil => rfl
  | cons c cs ih =>
    obtain ⟨here, others⟩ := List.forall_mem_cons.mp blank
    simp only [List.cons_append, skip, here, if_true, Bool.false_eq_true, if_false]
    exact ih _ others

/-- A comment ends in front of the newline, which is a blank. -/
theorem skip_comment (p : Position) (cs : List Char) :
    skip p true cs = skip (p.walk (cs.takeWhile (· != '\n'))) false (cs.dropWhile (· != '\n')) := by
  induction cs generalizing p with
  | nil => rfl
  | cons c cs ih =>
    by_cases newline : c = '\n'
    · subst newline
      have blank : Text.isBlank '\n' = true := by decide
      simp [skip, blank]
    · have goesOn : (c != '\n') = true := by simpa using newline
      simp only [skip, if_true, goesOn, List.takeWhile_cons, List.dropWhile_cons, ih,
        Position.walk_cons]

section Pulls

variable {c : Char} {cs : List Char}

theorem skip_solid (notBlank : Text.isBlank c = false) (notHash : c ≠ '#') (p : Position) :
    skip p false (c :: cs) = ⟨p, c :: cs⟩ := by
  simp [skip, notBlank, notHash]

theorem pull_operator {kind : TokenKind} (single : TokenKind.ofChar? c = some kind)
    (p : Position) : pull ⟨p, c :: cs⟩ = pullOperator p kind c cs := by
  have notBlank := (TokenKind.plain_of_ofChar? single).2.2
  have notHash : c ≠ '#' := by
    rintro rfl
    cases single
  simp only [pull, skip_solid notBlank notHash, pullHere, single]

theorem pull_numeral (starts : (Text.isDigit c || c == '.') = true) (p : Position) :
    pull ⟨p, c :: cs⟩ = pullNumeral p (c :: cs) := by
  have notBlank : Text.isBlank c = false := by
    rcases Bool.or_eq_true_iff.mp starts with digit | point
    · exact Text.isBlank_eq_false_of_isDigit digit
    · rw [beq_iff_eq.mp point]
      decide
  have notHash : c ≠ '#' := by
    rintro rfl
    exact absurd starts (by decide)
  have notOperator := TokenKind.ofChar?_of_numeral starts
  simp only [pull, skip_solid notBlank notHash, pullHere, notOperator, starts, if_true]

theorem pull_name (starts : Text.startsName c = true) (p : Position) :
    pull ⟨p, c :: cs⟩ = pullName p (c :: cs) := by
  have notBlank := Text.isBlank_eq_false_of_startsName starts
  have notDigit := Text.isDigit_eq_false_of_startsName starts
  have notPoint : c ≠ '.' := by
    rintro rfl
    exact absurd starts (by decide)
  have notHash : c ≠ '#' := by
    rintro rfl
    exact absurd starts (by decide)
  have notOperator := TokenKind.ofChar?_of_name starts
  simp [pull, skip_solid notBlank notHash, pullHere, notOperator, notDigit, notPoint, starts]

theorem pull_quote (quote : c = '"' ∨ c = Text.apostrophe) (p : Position) :
    pull ⟨p, c :: cs⟩ = pullString p c cs := by
  have solid : Text.isBlank c = false ∧ c ≠ '#' := by rcases quote with rfl | rfl <;> decide
  rw [pull, skip_solid solid.1 solid.2]
  rcases quote with rfl | rfl <;> rfl

end Pulls

end Cursor

namespace TokenStream

theorem ofCursor_eq (cursor : Cursor) : ofCursor cursor =
    match cursor.pull with
    | (.token t, next) => ⟨t :: (ofCursor next).tokens, (ofCursor next).ending⟩
    | (.fault f, _) => ⟨[], .fault f⟩
    | (.finished, next) => ⟨[], .finished next.position⟩ := by
  rw [ofCursor]
  split <;> simp [*]

theorem ofCursor_congr {a b : Cursor} (same : a.pull = b.pull) : ofCursor a = ofCursor b := by
  rw [ofCursor_eq a, ofCursor_eq b, same]

theorem ofCursor_of_token {cursor next : Cursor} {t : Token}
    (pulled : cursor.pull = (.token t, next)) :
    ofCursor cursor = ⟨t :: (ofCursor next).tokens, (ofCursor next).ending⟩ := by
  rw [ofCursor_eq, pulled]

theorem ofCursor_of_fault {cursor : Cursor} {f : LexicalFault}
    (faults : cursor.pull.1 = .fault f) : ofCursor cursor = ⟨[], .fault f⟩ := by
  rw [ofCursor_eq]
  generalize cursor.pull = pulled at faults
  obtain ⟨pull, next⟩ := pulled
  cases faults
  rfl

end TokenStream

end SceneScript
