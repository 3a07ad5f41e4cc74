import Mathlib.Tactic.Tauto
import SceneScript.Proofs.Json.Grammar

/-!
What stands outside the strings of a text. In a JSON document none of the letters is there by which
the words of the loose grammar are known.
-/

namespace SceneScript.Json

open SceneScript.Json.Grammar

/-- Where a reader of a text is. -/
inductive Region where
  | outside
  | inside
  | escaped

/-- The characters of a text that stand outside its strings. -/
def bare : Region → List Char → List Char
  | _, [] => []
  | .outside, c :: cs => if c = '"' then bare .inside cs else c :: bare .outside cs
  | .inside, c :: cs =>
    if c = '"' then bare .outside cs
    else if c = '\\' then bare .escaped cs
    else bare .inside cs
  | .escaped, _ :: cs => bare .inside cs

/-- One of the letters that no text has outside its strings, save for the words that the loose
    grammar has in addition. -/
def Marked (cs : List Char) : Prop := 'I' ∈ cs ∨ 'N' ∈ cs

/-- The text has all its strings closed, and whether a mark stands outside of them is known. -/
def Bare (cs : List Char) (marked : Prop) : Prop :=
  ∃ out, (∀ rest, bare .outside (cs ++ rest) = out ++ bare .outside rest) ∧ (Marked out ↔ marked)

/-- A character that neither opens a string nor is a mark. -/
def Plain (c : Char) : Prop := c ≠ '"' ∧ c ≠ 'I' ∧ c ≠ 'N'

instance : DecidablePred Plain := fun c =>
  inferInstanceAs (Decidable (c ≠ '"' ∧ c ≠ 'I' ∧ c ≠ 'N'))

variable {cs ds : List Char} {p q : Prop}

theorem Bare.append (front : Bare cs p) (back : Bare ds q) : Bare (cs ++ ds) (p ∨ q) := by
  obtain ⟨out, read, marked⟩ := front
  obtain ⟨out', read', marked'⟩ := back
  refine ⟨out ++ out', fun rest => ?_, ?_⟩
  · rw [List.append_assoc, read, read', List.append_assoc]
  · rw [← marked, ← marked', Marked, Marked, Marked, List.mem_append, List.mem_append]
    tauto

theorem Bare.iff (own : Bare cs p) (other : Bare cs q) : p ↔ q := by
  obtain ⟨out, read, marked⟩ := own
  obtain ⟨out', read', marked'⟩ := other
  have same := (read []).symm.trans (read' [])
  rw [List.append_cancel_right same] at marked
  exact marked.symm.trans marked'

theorem bare_eq_of_quote_notMem (none : '"' ∉ cs) (rest : List Char) :
    bare .outside (cs ++ rest) = cs ++ bare .outside rest := by
  induction cs with
  | nil => rfl
  | cons c cs ih =>
    rw [List.mem_cons, not_or] at none
    rw [List.cons_append, bare, if_neg (Ne.symm none.1), ih none.2]
    rfl

theorem bare_of_plain (plain : ∀ c ∈ cs, Plain c) : Bare cs False := by
  refine ⟨cs, bare_eq_of_quote_notMem fun member => (plain _ member).1 rfl, ?_⟩
  refine iff_of_false ?_ id
  rintro (member | member)
  · exact (plain _ member).2.1 rfl
  · exact (plain _ member).2.2 rfl

theorem bare_comma : Bare [','] False := bare_of_plain (List.forall_mem_singleton.mpr (by decide))

section Strings

theorem hexValue?_isSome {c : Char} {n : Nat} (known : hexValue? c = some n) :
    c ≠ '"' ∧ c ≠ '\\' := by
  constructor <;> rintro rfl <;> cases known

theorem bare_inside_cons {c : Char} (quote : c ≠ '"') (backslash : c ≠ '\\') (cs : List Char) :
    bare .inside (c :: cs) = bare .inside cs := by
  rw [bare, if_neg quote, if_neg backslash]

theorem bare_inside_escape (c : Char) (cs : List Char) :
    bare .inside ('\\' :: c :: cs) = bare .inside cs := by
  rw [bare, if_neg (by decide), if_pos rfl, bare]

theorem bare_inside_unit {digits : List Char} {n : Nat} (read : readUnit? digits = some (n, []))
    (cs : List Char) : bare .inside (digits ++ cs) = bare .inside cs := by
  match digits, read with
  | a :: b :: c :: d :: rest, read =>
    simp only [readUnit?, Option.bind_eq_bind, Option.bind_eq_some_iff] at read
    obtain ⟨w, hw, x, hx, y, hy, z, hz, whole⟩ := read
    cases whole
    have first := hexValue?_isSome hw
    have second := hexValue?_isSome hx
    have third := hexValue?_isSome hy
    have fourth := hexValue?_isSome hz
    simp only [List.cons_append, List.nil_append]
    rw [bare_inside_cons first.1 first.2, bare_inside_cons second.1 second.2,
      bare_inside_cons third.1 third.2, bare_inside_cons fourth.1 fourth.2]

theorem bare_inside_characters {s : List Char} (characters : Characters cs s) (rest : List Char) :
    bare .inside (cs ++ rest) = bare .inside rest := by
  induction characters with
  | nil => rfl
  | plain quote backslash visible _ ih => rw [List.cons_append, bare_inside_cons quote backslash, ih]
  | short known _ ih => rw [List.cons_append, List.cons_append, bare_inside_escape, ih]
  | unit read _ ih =>
    rw [List.cons_append, List.cons_append, bare_inside_escape, List.append_assoc,
      bare_inside_unit read, ih]
  | pair readHigh readLow isHigh isLow whole _ ih =>
    rw [List.cons_append, List.cons_append, bare_inside_escape, List.append_assoc,
      bare_inside_unit readHigh, List.cons_append, List.cons_append, bare_inside_escape,
      List.append_assoc, bare_inside_unit readLow, ih]

theorem bare_of_quoted {s : String} (quoted : Quoted cs s) : Bare cs False := by
  cases quoted with
  | quoted inside =>
    refine ⟨[], fun rest => ?_, by simp [Marked]⟩
    rw [List.cons_append, bare, if_pos rfl, List.append_assoc, bare_inside_characters inside,
      List.singleton_append, bare, if_pos rfl, List.nil_append]

end Strings

section Numbers

theorem plain_of_isDigit {c : Char} (digit : Text.isDigit c = true) : Plain c := by
  refine ⟨?_, ?_, ?_⟩ <;> rintro rfl <;> exact absurd digit (by decide)

theorem plain_of_numeral {amount : ℚ} (written : DecimalNumeral cs amount) : ∀ c ∈ cs, Plain c := by
  have digits {ds : List Char} (digits : Digits ds) : ∀ c ∈ ds, Plain c :=
    fun c member => plain_of_isDigit (digits.2 c member)
  cases written with
  | decimal front part scale =>
    refine List.forall_mem_append.mpr ⟨digits front.1, List.forall_mem_append.mpr ⟨?_, ?_⟩⟩
    · cases part with
      | absent => simp
      | present some => exact List.forall_mem_cons.mpr ⟨by decide, digits some⟩
    · cases scale with
      | absent => simp
      | unsigned known some =>
        exact List.forall_mem_cons.mpr ⟨by rcases known with rfl | rfl <;> decide, digits some⟩
      | plus known some =>
        exact List.forall_mem_cons.mpr ⟨by rcases known with rfl | rfl <;> decide,
          List.forall_mem_cons.mpr ⟨by decide, digits some⟩⟩
      | minus known some =>
        exact List.forall_mem_cons.mpr ⟨by rcases known with rfl | rfl <;> decide,
          List.forall_mem_cons.mpr ⟨by decide, digits some⟩⟩

theorem plain_of_number {j : Json} (number : Number cs j) : ∀ c ∈ cs, Plain c := by
  have sign (negative : Bool) : ∀ c ∈ Binary64.signText negative, Plain c := by
    cases negative <;> simp [Binary64.signText, Plain]
  cases number with
  | integer negative whole =>
    exact List.forall_mem_append.mpr ⟨sign negative,
      fun c member => plain_of_isDigit (whole.1.2 c member)⟩
  | decimal negative written =>
    exact List.forall_mem_append.mpr ⟨sign negative, plain_of_numeral written⟩
  | huge negative written =>
    exact List.forall_mem_append.mpr ⟨sign negative, plain_of_numeral written⟩

theorem plain_of_spaces (spaces : Spaces cs) : ∀ c ∈ cs, Plain c := by
  intro c member
  have space := spaces c member
  refine ⟨?_, ?_, ?_⟩ <;> rintro rfl <;> exact absurd space (by decide)

end Numbers

section Documents

/-- Blanks around a part and marks between parts say nothing. -/
theorem Bare.enclosed {before behind : List Char} (inside : Bare cs p)
    (front : ∀ c ∈ before, Plain c) (back : ∀ c ∈ behind, Plain c) :
    Bare (before ++ (cs ++ behind)) p := by
  have all := (bare_of_plain front).append (inside.append (bare_of_plain back))
  rwa [false_or, or_false] at all

theorem Bare.bracketed {opener closer : Char} (inside : Bare cs p) (opening : Plain opener)
    (closing : Plain closer) : Bare (opener :: (cs ++ [closer])) p :=
  @Bare.enclosed cs p [opener] [closer] inside (List.forall_mem_singleton.mpr opening)
    (List.forall_mem_singleton.mpr closing)

mutual

theorem bare_of_value {cs : List Char} {j : Json} (value : Value false cs j) : Bare cs False := by
  cases value with
  | null => exact bare_of_plain (by simp [Plain])
  | yes => exact bare_of_plain (by simp [Plain])
  | no => exact bare_of_plain (by simp [Plain])
  | number number => exact bare_of_plain (plain_of_number number)
  | word allowed => exact absurd allowed (by decide)
  | string quoted => exact bare_of_quoted quoted
  | emptyArray spaces =>
    exact (bare_of_plain (plain_of_spaces spaces)).bracketed (by decide) (by decide)
  | array inside => exact (bare_of_items inside).bracketed (by decide) (by decide)
  | emptyObject spaces =>
    exact (bare_of_plain (plain_of_spaces spaces)).bracketed (by decide) (by decide)
  | object inside => exact (bare_of_members inside).bracketed (by decide) (by decide)

theorem bare_of_items {cs : List Char} {items : List Json} (inside : Grammar.Items false cs items) :
    Bare cs False := by
  cases inside with
  | last front value back =>
    exact (bare_of_value value).enclosed (plain_of_spaces front) (plain_of_spaces back)
  | more front value back others =>
    have comma : ∀ c ∈ [','], Plain c := by simp [Plain]
    have own := (bare_of_value value).enclosed (plain_of_spaces front)
      (List.forall_mem_append.mpr ⟨plain_of_spaces back, comma⟩)
    have all := own.append (bare_of_items others)
    rw [or_false] at all
    simpa using all

theorem bare_of_member {cs : List Char} {field : String × Json} (member : Member false cs field) :
    Bare cs False := by
  cases member with
  | member spaces named holds =>
    obtain ⟨first, second, third, fourth⟩ := spaces
    have colon : ∀ c ∈ [':'], Plain c := by simp [Plain]
    have name := (bare_of_quoted named).enclosed (plain_of_spaces first)
      (List.forall_mem_append.mpr ⟨plain_of_spaces second, colon⟩)
    have own := (bare_of_value holds).enclosed (plain_of_spaces third) (plain_of_spaces fourth)
    have all := name.append own
    rw [or_false] at all
    simpa using all

theorem bare_of_members {cs : List Char} {fields : List (String × Json)}
    (inside : Members false cs fields) : Bare cs False := by
  cases inside with
  | last member => exact bare_of_member member
  | more member others =>
    have all := (bare_of_member member).append (bare_comma.append (bare_of_members others))
    rw [or_false, or_false] at all
    simpa using all

end

/-- No mark stands outside the strings of a JSON document. -/
theorem bare_of_document {text : String} {j : Json} (document : Document false text j) :
    Bare text.toList False := by
  cases document with
  | document front value back =>
    rw [String.toList_ofList]
    exact (bare_of_value value).enclosed (plain_of_spaces front) (plain_of_spaces back)

end Documents

end SceneScript.Json
