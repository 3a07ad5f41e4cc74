import Mathlib.Tactic.SplitIfs
import SceneScript.Json.Printer
import SceneScript.Json.Reader

/-!
Strings in JSON texts: every text is read back from its quoted form, whatever characters it has and
whichever of them are written as escapes.
-/

namespace SceneScript.Json

theorem hexValue?_digitChar {d : Nat} (small : d < 16) : hexValue? (Nat.digitChar d) = some d := by
  have all : ∀ d : Fin 16, hexValue? (Nat.digitChar d) = some d.val := by decide
  exact all ⟨d, small⟩

theorem readUnit?_hexDigits {n : Nat} (small : n < 0x10000) (rest : List Char) :
    readUnit? (Text.hexDigits 4 n ++ rest) = some (n, rest) := by
  have digit (k : Nat) : hexValue? (Nat.digitChar (k % 16)) = some (k % 16) :=
    hexValue?_digitChar (Nat.mod_lt k (by decide))
  have value : ((n / 16 / 16 / 16 % 16 * 16 + n / 16 / 16 % 16) * 16 + n / 16 % 16) * 16 + n % 16 =
      n := by omega
  simp only [Text.hexDigits, List.nil_append, List.cons_append, readUnit?, digit,
    Option.bind_eq_bind, Option.bind_some, value]
  rfl

section Characters

variable (fuel : Nat) (rest : List Char)

/-- The string with one more character in front. -/
def grown (c : Char) (read : Option (List Char × List Char)) : Option (List Char × List Char) :=
  read.map fun (body, rest) => (c :: body, rest)

theorem readString?_short {c e : Char} (known : shortEscape? e = some c) (notUnit : e ≠ 'u') :
    readString? (fuel + 1) ('\\' :: e :: rest) = grown c (readString? fuel rest) := by
  rw [readString?, if_neg (by decide), if_pos rfl, known]
  · cases readString? fuel rest <;> rfl
  · exact notUnit

theorem readString?_unit {n : Nat} (small : n < 0x10000) :
    readString? (fuel + 1) (unitEscape n ++ rest) =
      grown (finishUnit n rest).1 (readString? fuel (finishUnit n rest).2) := by
  rw [unitEscape, List.append_assoc]
  show readString? (fuel + 1) ('\\' :: 'u' :: (Text.hexDigits 4 n ++ rest)) = _
  rw [readString?, if_neg (by decide), if_pos rfl]
  simp only [readUnit?_hexDigits small, Option.bind_eq_bind, Option.bind_some]
  cases readString? fuel (finishUnit n rest).2 <;> rfl

theorem readString?_plain {c : Char} (notQuote : c ≠ '"') (notEscape : c ≠ '\\')
    (visible : ¬ c.toNat < 0x20) :
    readString? (fuel + 1) (c :: rest) = grown c (readString? fuel rest) := by
  rw [readString?.eq_def]
  simp only [if_neg notQuote, if_neg notEscape, if_neg visible]
  cases readString? fuel rest <;> rfl

theorem finishUnit_char {c : Char} (small : c.toNat < 0x10000) :
    finishUnit c.toNat rest = (c, rest) := by
  have valid : c.toNat.isValidChar := c.valid
  unfold Nat.isValidChar at valid
  have notHigh : ¬ (0xD800 ≤ c.toNat ∧ c.toNat < 0xDC00) := by omega
  have notLow : ¬ (0xDC00 ≤ c.toNat ∧ c.toNat < 0xE000) := by omega
  rw [finishUnit, if_neg notHigh, if_neg notLow, Char.ofNat_toNat]

theorem finishUnit_pair {high low : Nat} {c : Char} (isHigh : 0xD800 ≤ high ∧ high < 0xDC00)
    (isLow : 0xDC00 ≤ low ∧ low < 0xE000)
    (whole : 0x10000 + (high - 0xD800) * 0x400 + (low - 0xDC00) = c.toNat) :
    finishUnit high (unitEscape low ++ rest) = (c, rest) := by
  have read : readLowUnit? high (unitEscape low ++ rest) = some (c, rest) := by
    rw [unitEscape, List.append_assoc]
    show (readUnit? (Text.hexDigits 4 low ++ rest)).bind _ = _
    rw [readUnit?_hexDigits (by omega)]
    simp only [Option.bind_some]
    rw [if_pos isLow, whole, Char.ofNat_toNat]
    rfl
  rw [finishUnit, if_pos isHigh, read]
  rfl

/-- Characters beyond the first plane are two units. -/
theorem readString?_escapeUnits (c : Char) :
    readString? (fuel + 1) (escapeUnits c ++ rest) = grown c (readString? fuel rest) := by
  unfold escapeUnits
  simp only
  split
  · rename_i small
    rw [readString?_unit fuel rest small, finishUnit_char rest small]
  · have valid : c.toNat.isValidChar := c.valid
    unfold Nat.isValidChar at valid
    have isHigh : 0xD800 ≤ 0xD800 + (c.toNat - 0x10000) / 0x400 ∧
        0xD800 + (c.toNat - 0x10000) / 0x400 < 0xDC00 := by omega
    have isLow : 0xDC00 ≤ 0xDC00 + (c.toNat - 0x10000) % 0x400 ∧
        0xDC00 + (c.toNat - 0x10000) % 0x400 < 0xE000 := by omega
    rw [List.append_assoc, readString?_unit _ _ (by omega),
      finishUnit_pair (c := c) rest isHigh isLow (by omega)]

end Characters

theorem readString?_escapeChar (ascii : Bool) (c : Char) (fuel : Nat) (rest : List Char) :
    readString? (fuel + 1) (escapeChar ascii c ++ rest) = grown c (readString? fuel rest) := by
  unfold escapeChar
  split_ifs with special newline returned tab feed back control wide
  · rcases special with rfl | rfl
    · exact readString?_short _ _ rfl (by decide)
    · exact readString?_short _ _ rfl (by decide)
  · rw [newline]
    exact readString?_short _ _ rfl (by decide)
  · rw [returned]
    exact readString?_short _ _ rfl (by decide)
  · rw [tab]
    exact readString?_short _ _ rfl (by decide)
  · rw [feed]
    exact readString?_short _ _ rfl (by decide)
  · rw [back]
    exact readString?_short _ _ rfl (by decide)
  · have small : c.toNat < 0x10000 := by omega
    rw [readString?_unit fuel rest small, finishUnit_char rest small]
  · exact readString?_escapeUnits fuel rest c
  · exact readString?_plain fuel rest (fun quote => special (.inl quote))
      (fun backslash => special (.inr backslash)) control

/-- A quoted text is read to its end. -/
theorem readString?_flatMap_escapeChar (ascii : Bool) (s rest : List Char) {fuel : Nat}
    (enough : s.length < fuel) :
    readString? fuel (s.flatMap (escapeChar ascii) ++ '"' :: rest) = some (s, rest) := by
  induction s generalizing fuel with
  | nil =>
    obtain ⟨fuel, rfl⟩ : ∃ k, fuel = k + 1 := ⟨fuel - 1, by simp at enough; omega⟩
    simp [readString?]
  | cons c s ih =>
    rw [List.length_cons] at enough
    obtain ⟨fuel, rfl⟩ : ∃ k, fuel = k + 1 := ⟨fuel - 1, by omega⟩
    rw [List.flatMap_cons, List.append_assoc, readString?_escapeChar, ih (by omega)]
    rfl

theorem escapeChar_ne_nil (ascii : Bool) (c : Char) : escapeChar ascii c ≠ [] := by
  unfold escapeChar escapeUnits unitEscape
  simp only
  split_ifs <;> simp

theorem length_le_length_flatMap_escapeChar (ascii : Bool) (s : List Char) :
    s.length ≤ (s.flatMap (escapeChar ascii)).length := by
  induction s with
  | nil => simp
  | cons c s ih =>
    have some := List.length_pos_iff.mpr (escapeChar_ne_nil ascii c)
    rw [List.flatMap_cons, List.length_append, List.length_cons]
    omega

theorem toList_quote (ascii : Bool) (s : String) :
    (quote ascii s).toList = '"' :: (s.toList.flatMap (escapeChar ascii) ++ ['"']) := by
  rw [quote, String.toList_ofList, List.cons_append]

theorem length_lt_length_quote (ascii : Bool) (s : String) :
    s.length + 1 < (quote ascii s).length := by
  have body := length_le_length_flatMap_escapeChar ascii s.toList
  have whole := congrArg List.length (toList_quote ascii s)
  simp only [String.length_toList, List.length_cons, List.length_append, List.length_nil]
    at body whole
  omega

end SceneScript.Json
