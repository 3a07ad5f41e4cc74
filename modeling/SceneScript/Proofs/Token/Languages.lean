import Mathlib.Computability.Language
import SceneScript.Proofs.Token.Tiling

/-!
The patterns as regular expressions. A pattern takes the longest front that its expression matches,
the first pattern that matches takes the longest front that any does, and where none matches the
scanner faults.
-/

namespace SceneScript

open Grammar (Pattern LexemeStream)
open Computability

namespace Grammar.Pattern

/-- One character of a class. -/
def oneOf (p : Char → Bool) : Language Char := {w | ∃ c, p c = true ∧ w = [c]}

def letter (c : Char) : Language Char := oneOf (· == c)

/-- The texts that a pattern stands for. -/
def language : Pattern → Language Char
  | .name => oneOf Text.startsName * (oneOf Text.continuesName)∗
  | .numeral =>
    oneOf Text.isDigit * (oneOf Text.isDigit)∗ * (letter '.' * (oneOf Text.isDigit)∗ + 1) +
      letter '.' * (oneOf Text.isDigit)∗
  | .quoted quote =>
    letter quote *
      (letter '\\' * oneOf (fun _ => true) + oneOf fun c => c != quote && c != '\\')∗ *
      letter quote
  | .comment => letter '#' * (oneOf (· != '\n'))∗
  | .blanks => oneOf Text.isBlank * (oneOf Text.isBlank)∗
  | .literal _ text => {text}

section Expressions

variable {p : Char → Bool} {l : Language Char} {w : List Char}

theorem mem_oneOf_mul : w ∈ oneOf p * l ↔ ∃ c v, w = c :: v ∧ p c = true ∧ v ∈ l := by
  rw [Language.mem_mul]
  constructor
  · rintro ⟨_, ⟨c, holds, rfl⟩, v, member, rfl⟩
    exact ⟨c, v, rfl, holds, member⟩
  · rintro ⟨c, v, rfl, holds, member⟩
    exact ⟨[c], ⟨c, holds, rfl⟩, v, member, rfl⟩

theorem cons_mem_oneOf_mul {c : Char} : c :: w ∈ oneOf p * l ↔ p c = true ∧ w ∈ l := by
  rw [mem_oneOf_mul]
  constructor
  · rintro ⟨_, _, ⟨⟩, holds, member⟩
    exact ⟨holds, member⟩
  · rintro ⟨holds, member⟩
    exact ⟨c, w, rfl, holds, member⟩

theorem cons_mem_letter_mul {c d : Char} : c :: w ∈ letter d * l ↔ c = d ∧ w ∈ l := by
  rw [letter, cons_mem_oneOf_mul, beq_iff_eq]

theorem cons_mem_kstar_mul {c : Char} :
    c :: w ∈ (oneOf p)∗ * l ↔ c :: w ∈ l ∨ p c = true ∧ w ∈ (oneOf p)∗ * l := by
  rw [← cons_mem_oneOf_mul, ← Language.mem_add, ← mul_assoc]
  conv => lhs; rw [← Language.one_add_self_mul_kstar_eq_kstar, add_mul, one_mul]

theorem mem_kstar_oneOf : w ∈ (oneOf p)∗ ↔ ∀ c ∈ w, p c = true := by
  induction w with
  | nil => exact iff_of_true (Language.nil_mem_kstar _) (by simp)
  | cons c w ih =>
    rw [← Language.one_add_self_mul_kstar_eq_kstar, Language.mem_add, cons_mem_oneOf_mul, ih,
      List.forall_mem_cons]
    exact or_iff_right (by simp)

end Expressions

theorem cons_mem_name {c : Char} {w : List Char} :
    c :: w ∈ language .name ↔ Word.Name (c :: w) := by
  rw [language, cons_mem_oneOf_mul, mem_kstar_oneOf]
  rfl

theorem cons_mem_comment {c : Char} {w : List Char} :
    c :: w ∈ language .comment ↔ c = '#' ∧ ∀ d ∈ w, (d != '\n') = true := by
  rw [language, cons_mem_letter_mul, mem_kstar_oneOf]

theorem cons_mem_blanks {c : Char} {w : List Char} :
    c :: w ∈ language .blanks ↔ Text.isBlank c = true ∧ ∀ d ∈ w, Text.isBlank d = true := by
  rw [language, cons_mem_oneOf_mul, mem_kstar_oneOf]

section Numeral

theorem digits_zero_iff {w : List Char} :
    Word.Digits 0 w ↔ ∀ c ∈ w, Text.isDigit c = true := by
  have point : Text.isDigit '.' = false := by decide
  constructor
  · rintro ⟨allowed, count⟩ c member
    rcases allowed c member with digit | rfl
    · exact digit
    · exact absurd (List.count_pos_iff.mpr member) (by omega)
  · intro digits
    refine ⟨fun c member => .inl (digits c member), ?_⟩
    rw [Nat.le_zero, List.count_eq_zero]
    intro member
    rw [digits '.' member] at point
    cases point

/-- Digits, and perhaps a point with digits behind it. -/
theorem digits_one_iff {w : List Char} : Word.Digits 1 w ↔
    w ∈ (oneOf Text.isDigit)∗ * (letter '.' * (oneOf Text.isDigit)∗ + 1) := by
  induction w with
  | nil =>
    refine iff_of_true ⟨by simp, by simp⟩ ?_
    exact Language.mem_mul.mpr ⟨[], Language.nil_mem_kstar _, [], .inr rfl, rfl⟩
  | cons c w ih =>
    rw [cons_mem_kstar_mul, Language.mem_add, cons_mem_letter_mul, mem_kstar_oneOf, ← ih,
      Language.mem_one]
    by_cases digit : Text.isDigit c = true
    · have notPoint : c ≠ '.' := by
        rintro rfl
        exact absurd digit (by decide)
      simp [Word.digits_cons_digit digit, digit, notPoint]
    by_cases point : c = '.'
    · subst point
      simp [Word.digits_cons_point, digits_zero_iff, digit]
    · have not_allowed : ¬ Word.Digits 1 (c :: w) := by
        rintro ⟨allowed, -⟩
        exact (allowed c List.mem_cons_self).elim digit point
      simp [not_allowed, digit, point]

theorem cons_mem_numeral {c : Char} {w : List Char} :
    c :: w ∈ language .numeral ↔ Word.Numeral (c :: w) := by
  rw [language, Language.mem_add, mul_assoc, cons_mem_oneOf_mul, ← digits_one_iff,
    cons_mem_letter_mul, mem_kstar_oneOf, Word.numeral_cons_iff, ← digits_zero_iff]
  by_cases digit : Text.isDigit c = true
  · have notPoint : c ≠ '.' := by
      rintro rfl
      exact absurd digit (by decide)
    simp [Word.digits_cons_digit digit, digit, notPoint]
  by_cases point : c = '.'
  · subst point
    simp [Word.digits_cons_point, digit]
  · simp [digit, point]

end Numeral

theorem mem_bodies_iff {quote : Char} {w : List Char} :
    w ∈ (letter '\\' * oneOf (fun _ => true) + oneOf fun c => c != quote && c != '\\')∗ ↔
      Word.Body quote w := by
  constructor
  · rw [Language.mem_kstar]
    rintro ⟨parts, rfl, members⟩
    induction parts with
    | nil => exact .nil
    | cons part parts ih =>
      obtain ⟨first, others⟩ := List.forall_mem_cons.mp members
      rcases first with escape | ⟨c, plain, rfl⟩
      · obtain ⟨b, v, rfl, backslash, ⟨c, -, rfl⟩⟩ := mem_oneOf_mul.mp escape
        rw [beq_iff_eq.mp backslash]
        exact .escape c (ih others)
      · rw [Bool.and_eq_true, bne_iff_ne, bne_iff_ne] at plain
        exact .plain plain.1 plain.2 (ih others)
  · intro inside
    rw [Language.mem_kstar]
    induction inside with
    | nil => exact ⟨[], rfl, by simp⟩
    | escape c rest ih =>
      obtain ⟨parts, rfl, members⟩ := ih
      refine ⟨['\\', c] :: parts, rfl, List.forall_mem_cons.mpr ⟨.inl ?_, members⟩⟩
      exact mem_oneOf_mul.mpr ⟨'\\', [c], rfl, beq_self_eq_true _, c, rfl, rfl⟩
    | @plain c cs notQuote notBackslash rest ih =>
      obtain ⟨parts, rfl, members⟩ := ih
      refine ⟨[c] :: parts, rfl, List.forall_mem_cons.mpr ⟨.inr ⟨c, ?_, rfl⟩, members⟩⟩
      rw [Bool.and_eq_true, bne_iff_ne, bne_iff_ne]
      exact ⟨notQuote, notBackslash⟩

theorem mem_quoted {quote : Char} {w : List Char} :
    w ∈ language (.quoted quote) ↔ Word.Quoted quote w := by
  rw [language, mul_assoc, letter, mem_oneOf_mul]
  simp only [Language.mem_mul, mem_bodies_iff]
  constructor
  · rintro ⟨c, _, rfl, opens, body, inside, _, ⟨d, closes, rfl⟩, rfl⟩
    rw [beq_iff_eq.mp opens, beq_iff_eq.mp closes]
    exact ⟨body, inside, rfl⟩
  · rintro ⟨body, inside, rfl⟩
    exact ⟨quote, body ++ [quote], rfl, beq_self_eq_true _, body, inside, [quote],
      ⟨quote, beq_self_eq_true _, rfl⟩, rfl⟩

theorem plain_of_mem_all {quote : Char} (member : .quoted quote ∈ all) : quote ≠ '\\' := by
  have known : quote = '"' ∨ quote = Text.apostrophe := by simpa [all] using member
  exact Word.plain_of_quote known

theorem ne_nil_of_mem_all {w : Terminal} {text : List Char} (member : .literal w text ∈ all) :
    text ≠ [] := by
  rintro rfl
  simp [all] at member

theorem nil_notMem_language {pattern : Pattern} (member : pattern ∈ all) :
    [] ∉ pattern.language := by
  have notMul {p : Char → Bool} {l : Language Char} : [] ∉ oneOf p * l := by
    rw [mem_oneOf_mul]
    rintro ⟨_, _, ⟨⟩, -⟩
  cases pattern with
  | name | comment | blanks => exact notMul
  | numeral =>
    rw [language, Language.mem_add, mul_assoc]
    exact not_or.mpr ⟨notMul, notMul⟩
  | quoted quote =>
    rw [language, mul_assoc]
    exact notMul
  | literal w text => exact fun same => ne_nil_of_mem_all member same.symm

section Extent

variable {pattern : Pattern} {c : Char} {cs : List Char}

theorem longest_countWhile {P : List Char → Prop} {p : Char → Bool}
    (same : ∀ w, P (c :: w) ↔ ∀ d ∈ w, p d = true) :
    Longest P (c :: cs.take (countWhile p cs)) (cs.drop (countWhile p cs)) := by
  rw [take_countWhile, drop_countWhile]
  exact (Longest.takeWhile p cs).cons same

/-- A pattern that matches takes the longest front that it can. -/
theorem longest_of_extent {extent : Nat} (member : pattern ∈ all)
    (found : pattern.extent? c cs = some extent) :
    extent ≤ cs.length ∧
      Longest (· ∈ pattern.language) (c :: cs.take extent) (cs.drop extent) := by
  cases pattern with
  | name =>
    obtain ⟨starts, ⟨⟩⟩ := Option.ite_none_right_eq_some.mp found
    refine ⟨countWhile_le _ _, longest_countWhile fun w => ?_⟩
    rw [cons_mem_name, Word.Name]
    exact and_iff_right starts
  | numeral =>
    by_cases starts : (Text.isDigit c || c == '.') = true
    · obtain ⟨reach, within, isReach, spans⟩ := @numeral_extent c cs starts
      obtain rfl : reach = extent := Option.some.inj (isReach.symm.trans found)
      exact ⟨within, (Word.longest_numeral starts spans).of_first fun _ => cons_mem_numeral⟩
    · simp_all [extent?]
  | quoted quote =>
    obtain ⟨rfl, closes⟩ := Option.ite_none_right_eq_some.mp found
    have plain := plain_of_mem_all member
    have closed := Cursor.closeString_eq plain cs
    rw [closes] at closed
    obtain ⟨body, inside, splits, rfl, -⟩ := Word.exists_body_of_closeString closed
    generalize cs.drop (body.length + 1) = back at splits ⊢
    subst splits
    rw [Word.take_closed]
    refine ⟨by simp, (Word.longest_quoted plain inside).of_first fun _ => mem_quoted⟩
  | comment =>
    obtain ⟨rfl, ⟨⟩⟩ := Option.ite_none_right_eq_some.mp found
    refine ⟨countWhile_le _ _, longest_countWhile fun w => ?_⟩
    rw [cons_mem_comment]
    exact and_iff_right rfl
  | blanks =>
    obtain ⟨starts, ⟨⟩⟩ := Option.ite_none_right_eq_some.mp found
    refine ⟨countWhile_le _ _, longest_countWhile fun w => ?_⟩
    rw [cons_mem_blanks]
    exact and_iff_right starts
  | literal w text =>
    obtain ⟨isPrefix, ⟨⟩⟩ := Option.ite_none_right_eq_some.mp found
    cases text with
    | nil => exact absurd rfl (ne_nil_of_mem_all member)
    | cons d text =>
      obtain ⟨rfl, back, rfl⟩ := List.cons_prefix_cons.mp (List.isPrefixOf_iff_prefix.mp isPrefix)
      rw [List.length_cons, Nat.add_sub_cancel, List.take_left, List.drop_left]
      refine ⟨by simp, rfl, ?_⟩
      rintro _ rfl -
      exact Nat.le_refl _

/-- A pattern that does not match here matches no front. -/
theorem notMem_of_extent (member : pattern ∈ all) (missed : pattern.extent? c cs = none) :
    ∀ w, w <+: c :: cs → w ∉ pattern.language := by
  intro w isPrefix matched
  cases w with
  | nil => exact nil_notMem_language member matched
  | cons d w =>
    obtain ⟨rfl, front⟩ := List.cons_prefix_cons.mp isPrefix
    cases pattern with
    | name =>
      have starts := (cons_mem_name.mp matched).1
      simp [extent?, starts] at missed
    | numeral =>
      have starts := (Word.numeral_cons_iff.mp (cons_mem_numeral.mp matched)).1
      obtain ⟨extent, -, found, -⟩ := @numeral_extent d cs starts
      rw [missed] at found
      cases found
    | quoted quote =>
      have quoted := mem_quoted.mp matched
      obtain rfl : d = quote := by
        obtain ⟨body, -, same⟩ := quoted
        exact (List.cons.inj same).1
      have plain := plain_of_mem_all member
      obtain ⟨value, back, closes⟩ := Word.closeString_of_quoted plain quoted front
      rw [extent?, if_pos rfl] at missed
      rw [Cursor.closeString_eq plain, missed] at closes
      cases closes
    | comment =>
      have starts := (cons_mem_comment.mp matched).1
      simp [extent?, starts] at missed
    | blanks =>
      have starts := (cons_mem_blanks.mp matched).1
      simp [extent?, starts] at missed
    | literal t text =>
      obtain rfl : d :: w = text := matched
      have isFront := List.isPrefixOf_iff_prefix.mpr isPrefix
      rw [extent?, if_pos isFront] at missed
      cases missed

def operator? : List Char → Option TokenKind
  | [c] => TokenKind.ofChar? c
  | [c, d] => TokenKind.ofPair? c d
  | _ => none

theorem isWord_of_operator? {text : List Char} (known : (operator? text).isSome = true) :
    Word.IsWord text := by
  obtain ⟨kind, isKind⟩ := Option.isSome_iff_exists.mp known
  unfold operator? at isKind
  split at isKind
  · exact ⟨kind, _, .single isKind⟩
  · exact ⟨kind, _, .pair isKind⟩
  · cases isKind

theorem literals_checked : (all.all fun
    | .literal _ text => (operator? text).isSome
    | _ => true) = true := by decide

/-- What a pattern matches is a word, or it is dropped and starts as no word does. -/
theorem sort_of_mem (member : pattern ∈ all) (matched : c :: cs ∈ pattern.language) :
    (Word.IsWord (c :: cs) ∧ ∀ w, pattern.terminal? w ≠ none) ∨
      (pattern = .blanks ∧ Text.isBlank c = true) ∨ (pattern = .comment ∧ c = '#') := by
  cases pattern with
  | blanks => exact .inr (.inl ⟨rfl, (cons_mem_blanks.mp matched).1⟩)
  | comment => exact .inr (.inr ⟨rfl, (cons_mem_comment.mp matched).1⟩)
  | name => exact .inl ⟨⟨_, _, .name (cons_mem_name.mp matched)⟩, fun _ => Option.some_ne_none _⟩
  | numeral =>
    exact .inl ⟨⟨_, _, .numeral (cons_mem_numeral.mp matched)⟩, fun _ => Option.some_ne_none _⟩
  | quoted quote =>
    have known : quote = '"' ∨ quote = Text.apostrophe := by simpa [all] using member
    obtain ⟨body, inside, same⟩ := mem_quoted.mp matched
    rw [same]
    exact .inl ⟨⟨_, _, .quoted known inside⟩, fun _ => Option.some_ne_none _⟩
  | literal t text =>
    obtain rfl : c :: cs = text := matched
    exact .inl ⟨isWord_of_operator? (List.all_eq_true.mp literals_checked _ member),
      fun _ => Option.some_ne_none _⟩

end Extent

end Grammar.Pattern

/-- The token that is taken at once has the characters of the longest word. -/
theorem Cursor.longest_of_take {p : Position} {kind : TokenKind} {value : Json}
    {lexeme back : List Char}
    (pulls : pull ⟨p, lexeme ++ back⟩ = take p kind value lexeme back) :
    Longest Word.IsWord lexeme back := by
  rcases pull_tiles p (lexeme ++ back) with ⟨-, finished⟩ | ⟨gap, rest, splits, -, piece⟩
  · rw [pulls] at finished
    cases finished
  · rw [pulls] at piece
    obtain ⟨found, rfl, span, longest⟩ := piece.of_token
    -- The token starts where the pull does, so there is no gap in front of it.
    have atOnce : p = p.walk gap := Place.position.inj (Span.mk.inj span).1
    have noGap : gap = [] := by
      have indices := congrArg Position.index atOnce
      rw [Position.index_walk] at indices
      exact List.length_eq_zero_iff.mp (by omega)
    rw [noGap, List.nil_append] at splits
    rw [List.append_cancel_right splits]
    exact longest

namespace Grammar.LexemeStream

variable {c : Char} {cs : List Char}

/-- Some pattern matches the whole text. -/
def Matched (w : List Char) : Prop := ∃ pattern ∈ Pattern.all, w ∈ pattern.language

theorem match?_eq_none_iff : match? c cs = none ↔ ∀ w, w <+: c :: cs → ¬ Matched w := by
  constructor
  · rintro nothing w isPrefix ⟨pattern, member, matched⟩
    have missed := List.findSome?_eq_none_iff.mp nothing pattern member
    exact Pattern.notMem_of_extent member (Option.map_eq_none_iff.mp missed) w isPrefix matched
  · intro noMatch
    refine List.findSome?_eq_none_iff.mpr fun pattern member => Option.map_eq_none_iff.mpr ?_
    rw [Option.eq_none_iff_forall_ne_some]
    intro extent found
    have longest := (Pattern.longest_of_extent member found).2
    refine noMatch _ ⟨cs.drop extent, ?_⟩ ⟨pattern, member, longest.1⟩
    rw [List.cons_append, List.take_append_drop]

theorem longest_word {pattern : Pattern} {extent : Nat} {t : Terminal}
    (first : match? c cs = some (pattern, extent))
    (terminal : pattern.terminal? (c :: cs.take extent) = some t) :
    Longest Word.IsWord (c :: cs.take extent) (cs.drop extent) := by
  cases found c cs with
  | missed nothing => simp [first] at nothing
  | dropped isFirst _ dropped =>
    obtain ⟨rfl, rfl⟩ := Prod.mk.inj (Option.some.inj (first.symm.trans isFirst))
    simp [terminal] at dropped
  | kept isFirst _ _ pulls =>
    obtain ⟨rfl, rfl⟩ := Prod.mk.inj (Option.some.inj (first.symm.trans isFirst))
    have pulled := pulls .nowhere 0 0
    have splits : c :: cs.take extent ++ cs.drop extent = c :: cs := by
      rw [List.cons_append, List.take_append_drop]
    rw [← splits] at pulled
    exact Cursor.longest_of_take pulled

/-- The first pattern that matches takes the longest front that any pattern matches. -/
theorem longest_of_match {pattern : Pattern} {extent : Nat}
    (first : match? c cs = some (pattern, extent)) :
    c :: cs.take extent ∈ pattern.language ∧
      Longest Matched (c :: cs.take extent) (cs.drop extent) := by
  obtain ⟨_, member, isFirst⟩ := List.exists_of_findSome?_eq_some first
  obtain ⟨reach, reached, same⟩ := Option.map_eq_some_iff.mp isFirst
  cases same
  have ⟨_, longest⟩ := Pattern.longest_of_extent member reached
  refine ⟨longest.1, ⟨pattern, member, longest.1⟩, ?_⟩
  rintro w ⟨other, among, matched⟩ isPrefix
  obtain ⟨w, rfl⟩ : ∃ back, w = c :: back := by
    cases w with
    | nil => exact absurd matched (Pattern.nil_notMem_language among)
    | cons d w => exact ⟨w, by rw [(List.cons_prefix_cons.mp isPrefix).1]⟩
  -- The first character tells whether both are words, blanks or comments.
  have hash : Text.isBlank '#' = false := by decide
  rcases Pattern.sort_of_mem member longest.1 with ⟨isWord, kept⟩ | ⟨rfl, blank⟩ | ⟨rfl, rfl⟩
  · obtain ⟨t, terminal⟩ := Option.ne_none_iff_exists'.mp (kept (c :: cs.take extent))
    rcases Pattern.sort_of_mem among matched with ⟨isWord', -⟩ | ⟨-, blank⟩ | ⟨-, comment⟩
    · exact (longest_word first terminal).2 _ isWord' isPrefix
    · simp [isWord.solid.1] at blank
    · exact absurd comment isWord.solid.2
  · rcases Pattern.sort_of_mem among matched with ⟨isWord, -⟩ | ⟨rfl, -⟩ | ⟨-, rfl⟩
    · simp [isWord.solid.1] at blank
    · exact longest.2 _ matched isPrefix
    · simp [hash] at blank
  · rcases Pattern.sort_of_mem among matched with ⟨isWord, -⟩ | ⟨-, blank⟩ | ⟨rfl, -⟩
    · exact absurd rfl isWord.solid.2
    · simp [hash] at blank
    · exact longest.2 _ matched isPrefix

/-- Every lexeme has a text that the pattern of its terminal matches. -/
theorem exists_pattern_of_mem (index : Nat) (cs : List Char) :
    ∀ l ∈ (ofCharsAt index cs).lexemes, ∃ pattern ∈ Pattern.all,
      pattern.terminal? l.text = some l.terminal ∧ l.text ∈ pattern.language := by
  fun_induction ofCharsAt index cs with
  | case1 | case2 => simp
  | case3 index c cs pattern extent first shorter stop following text terminal kept ih =>
    refine List.forall_mem_cons.mpr ⟨?_, ih⟩
    obtain ⟨_, member, isFirst⟩ := List.exists_of_findSome?_eq_some first
    obtain ⟨_, _, same⟩ := Option.map_eq_some_iff.mp isFirst
    cases same
    exact ⟨pattern, member, kept, (longest_of_match first).1⟩
  | case4 index c cs pattern extent first shorter stop following text dropped ih => exact ih

open Grammar (lexicalFault)

theorem start_lexicalFault (lines : LineIndex) (index : Nat) :
    (lexicalFault lines index c).span.start = lines.position index := by
  unfold lexicalFault
  dsimp only
  split <;> rfl

/-- The scanner faults at an index only if no pattern matches there. -/
theorem missed_of_fault {origin : Origin} {front : List Char}
    (text : origin.text.toList = front ++ c :: cs)
    (fault : (Cursor.pull ⟨(Position.start origin).walk front, c :: cs⟩).1 =
      .fault (lexicalFault (.ofOrigin origin) front.length c)) : match? c cs = none := by
  cases found c cs with
  | missed nothing => exact nothing
  | kept first _ _ pulls =>
    rw [pulls _ 0 0] at fault
    cases fault
  | @dropped pattern extent first _ _ skips =>
    -- Behind what is dropped a fault would start further on.
    have later : Cursor.pull ⟨(Position.start origin).walk front, c :: cs⟩ = Cursor.pull
        ⟨((Position.start origin).walk front).walk (c :: cs.take extent), cs.drop extent⟩ := by
      rw [Cursor.pull, skips]
      rfl
    rw [later] at fault
    rcases Cursor.pull_tiles (((Position.start origin).walk front).walk (c :: cs.take extent))
      (cs.drop extent) with ⟨-, finished⟩ | ⟨gap, rest, -, -, piece⟩
    · rw [finished] at fault
      cases fault
    · rw [fault] at piece
      obtain ⟨-, -, -, -, start, stop, span, index, -⟩ := piece.exists_lexeme
      have starts := start_lexicalFault (c := c) (.ofOrigin origin) front.length
      rw [span, LineIndex.position_eq_walk text] at starts
      rw [Place.position.inj starts] at index
      simp only [Position.index_walk, Position.start, List.length_cons] at index
      omega

end Grammar.LexemeStream

open Grammar (lexicalFault) in
/-- The scanner and the patterns agree on every text: they give the same tokens at the same places
    up to the end or the same fault. Wherever a pattern matches, the first one that does takes the
    longest front that any does; and the scanner faults exactly where none matches, with the fault
    of that index. -/
theorem scanner_agrees_with_patterns (origin : Origin) :
    TokenStream.ofOrigin origin = (LexemeStream.ofOrigin origin).toTokens (.ofOrigin origin) ∧
    ∀ front c cs, origin.text.toList = front ++ c :: cs →
      (∀ pattern extent, LexemeStream.match? c cs = some (pattern, extent) →
        c :: cs.take extent ∈ pattern.language ∧
          Longest LexemeStream.Matched (c :: cs.take extent) (cs.drop extent)) ∧
      ((Cursor.pull ⟨(Position.start origin).walk front, c :: cs⟩).1 =
          .fault (lexicalFault (.ofOrigin origin) front.length c) ↔
        ∀ w, w <+: c :: cs → ¬ LexemeStream.Matched w) := by
  refine ⟨(TokenStream.ofOrigin_eq_toTokens origin).1, fun front c cs text => ⟨fun _ _ =>
    LexemeStream.longest_of_match, ?_⟩⟩
  rw [← LexemeStream.match?_eq_none_iff]
  exact ⟨LexemeStream.missed_of_fault text, TokenStream.fault_of_missed text⟩

theorem no_pattern_matches_open_string :
    ∀ w, w <+: ['"', 'a', '\\', '"'] → ¬ LexemeStream.Matched w :=
  ((scanner_agrees_with_patterns ⟨"", "x \"a\\\""⟩).2 ['x', ' '] '"' ['a', '\\', '"'] rfl).2.mp
    (by decide +kernel)

end SceneScript
