import SceneScript.Proofs.Json.RoundTrip
import SceneScript.Proofs.Json.Unquoted
import SceneScript.Proofs.Number.Decimals

/-!
The texts that are written are documents. A value whose numbers are all finite is written as a JSON
document of it; any other one is written as a document of the loose grammar, and the text is then no
JSON document of any value at all.
-/

namespace SceneScript.Json

open SceneScript.Json.Grammar

mutual

/-- The numbers of the value that are no integers all have the property. -/
def Each (P : Binary64 → Prop) : Json → Prop
  | .float x => P x
  | .array items => EachItem P items
  | .object fields => EachField P fields
  | .null | .bool _ | .int _ | .string _ => True

def EachItem (P : Binary64 → Prop) : List Json → Prop
  | [] => True
  | item :: items => Each P item ∧ EachItem P items

def EachField (P : Binary64 → Prop) : List (String × Json) → Prop
  | [] => True
  | (_, value) :: fields => Each P value ∧ EachField P fields

end

/-- The number is finite, and such as bits give it; or there are words for it. -/
def Writable (loose : Bool) : Binary64 → Prop
  | .finite _ mantissa exponent => Binary64.Canonical mantissa exponent
  | _ => loose = true

section Scalars

variable {loose : Bool}

theorem number_int (n : Int) : Number (toString n).toList (.int n) := by
  cases n with
  | ofNat n =>
    have number := Number.integer false (Decimal.whole_toDigits n)
    rw [Decimal.amountOf_toDigits] at number
    rw [← Nat.toList_repr] at number
    exact number
  | negSucc n =>
    have number := Number.integer true (Decimal.whole_toDigits (n + 1))
    rw [Decimal.amountOf_toDigits] at number
    have text : (toString (Int.negSucc n)).toList = '-' :: Nat.toDigits 10 (n + 1) := by
      show ("-" ++ (n + 1).repr).toList = _
      rw [String.toList_append, Nat.toList_repr]
      rfl
    rw [text]
    exact number

/-- Zero is written with a fraction. -/
theorem numeral_zero : DecimalNumeral ['0', '.', '0'] 0 := by
  have written := Decimal.numeral_of_point [] 0 1 1 Decimal.whole_zero Decimal.digits_zero rfl rfl
  have none : (amountOf [] : ℚ) * 10 ^ (0 : Int) = 0 := by simp [amountOf, Numeral.natOf]
  rwa [none] at written

theorem nearest_zero {exponent : Int} (canonical : Binary64.Canonical 0 exponent) :
    Binary64.Nearest 0 0 exponent := by
  have zero : Binary64.magnitude 0 exponent = 0 := by simp [Binary64.magnitude]
  have before : Binary64.below 0 exponent = 0 := by
    rw [Binary64.below, if_neg (fun boundary => absurd boundary.1 (by decide))]
    exact zero
  have behind : 0 ≤ Binary64.above 0 exponent := Binary64.magnitude_nonneg _ _
  exact Binary64.nearest_of_between canonical (by rw [zero, before]; simp) (by rw [zero]; simpa)
    fun odd => absurd odd (by decide)

theorem number_shortestText (negative : Bool) {mantissa : Nat} {exponent : Int}
    (canonical : Binary64.Canonical mantissa exponent) :
    Number (Binary64.shortestText negative mantissa exponent)
      (.float (.finite negative mantissa exponent)) := by
  rw [Binary64.shortestText]
  split
  · rename_i zero
    subst zero
    exact .decimal negative numeral_zero (nearest_zero canonical)
  · rename_i some
    have positive := Nat.pos_of_ne_zero some
    have digits : 0 < (Decimal.shortest mantissa exponent).digits := by
      refine Nat.pos_of_ne_zero fun none => ?_
      have amount := Decimal.amount_shortest_pos canonical positive
      rw [Decimal.amount, none] at amount
      simp at amount
    exact .decimal negative (Decimal.numeral_text digits)
      (Decimal.nearest_shortest canonical positive)

theorem value_floatText {x : Binary64} (writable : Writable loose x) :
    Value loose (floatText x).toList (.float x) := by
  cases x with
  | nan => exact .word writable .nan
  | infinite negative =>
    cases negative with
    | false => exact .word writable .infinity
    | true => exact .word writable .minusInfinity
  | finite negative mantissa exponent =>
    rw [floatText, Binary64.decimalText, String.toList_ofList]
    exact .number (number_shortestText negative writable)

theorem readUnit?_hexDigits_nil {n : Nat} (small : n < 0x10000) :
    readUnit? (Text.hexDigits 4 n) = some (n, []) := by
  have read := readUnit?_hexDigits small []
  rwa [List.append_nil] at read

theorem characters_escapeUnits (c : Char) {cs s : List Char} (rest : Characters cs s) :
    Characters (escapeUnits c ++ cs) (c :: s) := by
  unfold escapeUnits
  simp only
  split
  · rename_i small
    exact .unit (readUnit?_hexDigits_nil small) rest
  · have valid : c.toNat.isValidChar := c.valid
    unfold Nat.isValidChar at valid
    have high : 0xD800 ≤ 0xD800 + (c.toNat - 0x10000) / 0x400 ∧
        0xD800 + (c.toNat - 0x10000) / 0x400 < 0xDC00 := by omega
    have low : 0xDC00 ≤ 0xDC00 + (c.toNat - 0x10000) % 0x400 ∧
        0xDC00 + (c.toNat - 0x10000) % 0x400 < 0xE000 := by omega
    have pair := Characters.pair (c := c) (readUnit?_hexDigits_nil (by omega))
      (readUnit?_hexDigits_nil (by omega)) high low (by omega) rest
    simpa [unitEscape] using pair

theorem characters_escapeChar (ascii : Bool) (c : Char) {cs s : List Char}
    (rest : Characters cs s) : Characters (escapeChar ascii c ++ cs) (c :: s) := by
  unfold escapeChar
  split_ifs with special newline returned tab feed back control wide
  · rcases special with rfl | rfl
    · exact .short rfl rest
    · exact .short rfl rest
  · rw [newline]
    exact .short rfl rest
  · rw [returned]
    exact .short rfl rest
  · rw [tab]
    exact .short rfl rest
  · rw [feed]
    exact .short rfl rest
  · rw [back]
    exact .short rfl rest
  · exact .unit (readUnit?_hexDigits_nil (by omega)) rest
  · exact characters_escapeUnits c rest
  · exact .plain (fun quote => special (.inl quote)) (fun backslash => special (.inr backslash))
      (Nat.not_lt.mp control) rest

theorem quoted_quote (ascii : Bool) (s : String) : Quoted (quote ascii s).toList s := by
  have inside : Characters (s.toList.flatMap (escapeChar ascii)) s.toList := by
    induction s.toList with
    | nil => exact .nil
    | cons c cs ih =>
      rw [List.flatMap_cons]
      exact characters_escapeChar ascii c ih
  have quoted := Quoted.quoted inside
  rwa [String.ofList_toList, ← toList_quote] at quoted

end Scalars

section Texts

theorem spaces_newline (level : Nat) : Spaces (newline level).toList := by
  intro c member
  rw [toList_newline] at member
  rcases List.mem_cons.mp member with rfl | later
  · rfl
  · rw [(List.mem_replicate.mp later).2]
    rfl

theorem spaces_nil : Spaces [] := fun _ member => nomatch member

variable {loose : Bool}

mutual

/-- A value is written as a text that stands for it, at every level. -/
theorem value_prettyAt (ascii : Bool) (level : Nat) (j : Json) (writable : j.Each (Writable loose)) :
    Value loose (prettyAt ascii level j).toList j := by
  cases j with
  | null =>
    rw [prettyAt]
    exact .null
  | bool b =>
    rw [prettyAt]
    cases b with
    | false => exact .no
    | true => exact .yes
  | int n =>
    rw [prettyAt]
    exact .number (number_int n)
  | float x =>
    rw [prettyAt]
    exact value_floatText writable
  | string s =>
    rw [prettyAt]
    exact .string (quoted_quote ascii s)
  | array items =>
    rw [prettyAt]
    cases items with
    | nil =>
      rw [prettyItems, block_nil]
      exact .emptyArray spaces_nil
    | cons item items =>
      have inside := items_lined ascii (level + 1) (item :: items) writable (by simp)
        (spaces_newline (level + 1)) (spaces_newline level)
      rw [block_eq (by simp [prettyItems])]
      simp only [String.toList_append]
      simpa using Value.array inside
  | object fields =>
    rw [prettyAt]
    cases fields with
    | nil =>
      rw [prettyFields, block_nil]
      exact .emptyObject spaces_nil
    | cons field fields =>
      have inside := members_lined ascii (level + 1) (field :: fields) writable (by simp)
        (spaces_newline (level + 1)) (spaces_newline level)
      rw [block_eq (by simp [prettyFields])]
      simp only [String.toList_append]
      simpa using Value.object inside

theorem items_lined (ascii : Bool) (level : Nat) (items : List Json)
    (writable : EachItem (Writable loose) items) (some : items ≠ []) {before behind : List Char}
    (front : Spaces before) (back : Spaces behind) :
    Grammar.Items loose (before ++ ((lined level (prettyItems ascii level items)).toList ++ behind))
      items := by
  cases items with
  | nil => exact absurd rfl some
  | cons item items =>
    have first := value_prettyAt ascii level item writable.1
    cases items with
    | nil =>
      rw [prettyItems, prettyItems, lined, String.intercalate_singleton]
      exact .last front first back
    | cons next items =>
      have others := items_lined ascii level (next :: items) writable.2 (by simp)
        (spaces_newline level) back
      have more := Grammar.Items.more front first spaces_nil others
      rw [prettyItems, lined_cons (by simp [prettyItems])]
      simp only [String.toList_append]
      simpa using more

theorem members_lined (ascii : Bool) (level : Nat) (fields : List (String × Json))
    (writable : EachField (Writable loose) fields) (some : fields ≠ []) {before behind : List Char}
    (front : Spaces before) (back : Spaces behind) :
    Members loose (before ++ ((lined level (prettyFields ascii level fields)).toList ++ behind))
      fields := by
  cases fields with
  | nil => exact absurd rfl some
  | cons field fields =>
    obtain ⟨key, value⟩ := field
    have blank : Spaces [' '] := by simp [Spaces, isSpace]
    have first {behind : List Char} (back : Spaces behind) :=
      Member.member ⟨front, spaces_nil, blank, back⟩ (quoted_quote ascii key)
        (value_prettyAt ascii level value writable.1)
    cases fields with
    | nil =>
      rw [prettyFields, prettyFields, lined, String.intercalate_singleton]
      simp only [String.toList_append]
      simpa using Members.last (first back)
    | cons next fields =>
      have others := members_lined ascii level (next :: fields) writable.2 (by simp)
        (spaces_newline level) back
      have more := Members.more (first spaces_nil) others
      rw [prettyFields, lined_cons (by simp [prettyFields])]
      simp only [String.toList_append]
      simpa using more

end

/-- A value with numbers that can be written is the value of its text. -/
theorem document_pretty (ascii : Bool) {j : Json} (writable : j.Each (Writable loose)) :
    Document loose (pretty ascii j) j := by
  have document := Document.document spaces_nil (value_prettyAt ascii 0 j writable) spaces_nil
  simpa [pretty] using document

end Texts

section Marks

variable {p q : Prop} {cs : List Char}

theorem bare_newline (level : Nat) : Bare (newline level).toList False :=
  bare_of_plain (plain_of_spaces (spaces_newline level))

theorem bare_nil : Bare [] False := bare_of_plain (by simp)

theorem Bare.of_iff (bare : Bare cs p) (same : p ↔ q) : Bare cs q := by rwa [← same]

theorem bare_lined_cons {level : Nat} {part : String} {parts : List String}
    (first : Bare part.toList p) (others : Bare (lined level parts).toList q) :
    Bare (lined level (part :: parts)).toList (p ∨ q) := by
  cases parts with
  | nil =>
    have none := others.iff bare_nil
    rw [lined, String.intercalate_singleton]
    exact first.of_iff (by tauto)
  | cons next parts =>
    have all := first.append (bare_comma.append ((bare_newline level).append others))
    rw [lined_cons (by simp)]
    simpa using all

theorem bare_block {opener closer : String} (level : Nat) {parts : List String}
    (opening : Bare opener.toList False) (closing : Bare closer.toList False)
    (inside : Bare (lined (level + 1) parts).toList p) :
    Bare (block opener closer level parts).toList p := by
  cases parts with
  | nil =>
    have none := inside.iff bare_nil
    rw [block_nil, String.toList_append]
    exact (opening.append closing).of_iff (by tauto)
  | cons part parts =>
    have all := opening.append ((bare_newline (level + 1)).append (inside.append
      ((bare_newline level).append closing)))
    rw [block_eq (by simp)]
    simpa using all

theorem bare_floatText {x : Binary64} (writable : Writable true x) :
    Bare (floatText x).toList (¬ x.IsFinite) := by
  have word (out : List Char) (none : '"' ∉ out) (marked : Marked out) (infinite : ¬ x.IsFinite) :
      Bare out (¬ x.IsFinite) :=
    ⟨out, bare_eq_of_quote_notMem none, iff_of_true marked infinite⟩
  cases x with
  | nan => exact word _ (by decide) (.inr (by decide)) id
  | infinite negative =>
    cases negative with
    | false => exact word _ (by decide) (.inl (by decide)) id
    | true => exact word _ (by decide) (.inl (by decide)) id
  | finite negative mantissa exponent =>
    rw [floatText, Binary64.decimalText, String.toList_ofList]
    exact (bare_of_plain (plain_of_number (number_shortestText negative writable))).of_iff
      (iff_of_false id (not_not_intro trivial))

mutual

/-- A mark stands outside the strings if and only if one of the numbers is not finite. -/
theorem bare_prettyAt (ascii : Bool) (level : Nat) (j : Json) (writable : j.Each (Writable true)) :
    Bare (prettyAt ascii level j).toList (¬ j.Each Binary64.IsFinite) := by
  have finite {cs : List Char} (bare : Bare cs False) (each : j.Each Binary64.IsFinite) :
      Bare cs (¬ j.Each Binary64.IsFinite) :=
    bare.of_iff (iff_of_false id (not_not_intro each))
  cases j with
  | null =>
    rw [prettyAt]
    exact finite (bare_of_plain (by simp [Plain])) trivial
  | bool b =>
    rw [prettyAt]
    cases b with
    | false => exact finite (bare_of_plain (by simp [Plain])) trivial
    | true => exact finite (bare_of_plain (by simp [Plain])) trivial
  | int n =>
    rw [prettyAt]
    exact finite (bare_of_plain (plain_of_number (number_int n))) trivial
  | float x =>
    rw [prettyAt]
    exact bare_floatText writable
  | string s =>
    rw [prettyAt]
    exact finite (bare_of_quoted (quoted_quote ascii s)) trivial
  | array items =>
    rw [prettyAt]
    exact bare_block level (bare_of_plain (by simp [Plain])) (bare_of_plain (by simp [Plain]))
      (bare_items ascii (level + 1) items writable)
  | object fields =>
    rw [prettyAt]
    exact bare_block level (bare_of_plain (by simp [Plain])) (bare_of_plain (by simp [Plain]))
      (bare_fields ascii (level + 1) fields writable)

theorem bare_items (ascii : Bool) (level : Nat) (items : List Json)
    (writable : EachItem (Writable true) items) :
    Bare (lined level (prettyItems ascii level items)).toList
      (¬ EachItem Binary64.IsFinite items) := by
  cases items with
  | nil =>
    rw [prettyItems]
    exact bare_nil.of_iff (iff_of_false id (not_not_intro trivial))
  | cons item items =>
    rw [prettyItems, EachItem, not_and_or]
    exact bare_lined_cons (bare_prettyAt ascii level item writable.1)
      (bare_items ascii level items writable.2)

theorem bare_fields (ascii : Bool) (level : Nat) (fields : List (String × Json))
    (writable : EachField (Writable true) fields) :
    Bare (lined level (prettyFields ascii level fields)).toList
      (¬ EachField Binary64.IsFinite fields) := by
  cases fields with
  | nil =>
    rw [prettyFields]
    exact bare_nil.of_iff (iff_of_false id (not_not_intro trivial))
  | cons field fields =>
    obtain ⟨key, value⟩ := field
    have colon : Bare ": ".toList False := bare_of_plain (by simp [Plain])
    have named := (bare_of_quoted (quoted_quote ascii key)).append colon
    have own := named.append (bare_prettyAt ascii level value writable.1)
    rw [← String.toList_append, ← String.toList_append] at own
    rw [prettyFields, EachField, not_and_or]
    exact bare_lined_cons (own.of_iff (by tauto)) (bare_fields ascii level fields writable.2)

end

/-- The text of a value is a JSON document, of whatever value, only if its numbers are finite. -/
theorem each_of_document_pretty (ascii : Bool) {j j' : Json} (writable : j.Each (Writable true))
    (document : Document false (pretty ascii j) j') : j.Each Binary64.IsFinite := by
  have same := (bare_prettyAt ascii 0 j writable).iff (bare_of_document document)
  exact not_not.mp same.mp

end Marks

end SceneScript.Json
