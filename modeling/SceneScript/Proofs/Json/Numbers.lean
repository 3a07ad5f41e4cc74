import Mathlib.Data.List.TakeDrop
import SceneScript.Json.Printer
import SceneScript.Json.Reader
import SceneScript.Proofs.Token.Scanning

/-!
Integers in JSON texts: an integer with no more digits than are allowed is read back from its
numeral, provided that nothing behind it goes on with the numeral.
-/

namespace SceneScript.Json

/-- What stands behind a value: nothing, a comma or a new line. -/
def Delimits (rest : List Char) : Prop := ∀ c ∈ rest.head?, c = ',' ∨ c = '\n'

theorem isDigit_of_mem_toDigits {n : Nat} {c : Char} (member : c ∈ Nat.toDigits 10 n) :
    Text.isDigit c = true := by
  have digit := Nat.isDigit_of_mem_toDigits (by decide) (by decide) member
  rw [Text.isDigit_iff]
  simp only [Char.isDigit, Bool.and_eq_true, decide_eq_true_eq, ge_iff_le,
    UInt32.le_iff_toNat_le] at digit
  exact digit

theorem natOf_toDigits (n : Nat) :
    Numeral.natOf ((Nat.toDigits 10 n).map Numeral.digitValue) = n := by
  rw [Numeral.natOf, List.foldl_map]
  exact Nat.ofDigitChars_ten_toDigits

theorem length_toDigits_le {n k : Nat} (some : 0 < k) (short : n < Nat.pow 10 k) :
    (Nat.toDigits 10 n).length ≤ k := (Nat.length_toDigits_le_iff (by decide) some).mpr short

theorem head_toDigits_ne_zero {n : Nat} (positive : 0 < n) :
    ∃ c cs, Nat.toDigits 10 n = c :: cs ∧ c ≠ '0' := by
  induction n using Nat.strongRecOn with
  | _ n ih =>
    by_cases small : n < 10
    · refine ⟨Nat.digitChar n, [], Nat.toDigits_of_lt_base small, ?_⟩
      have all : ∀ d : Fin 10, 0 < d.val → Nat.digitChar d ≠ '0' := by decide
      exact all ⟨n, small⟩ positive
    · obtain ⟨c, cs, front, other⟩ := ih (n / 10) (by omega) (by omega)
      rw [Nat.toDigits_of_base_le (by decide) (by omega), front]
      exact ⟨c, cs ++ _, rfl, other⟩

section Reading

variable {rest : List Char}

theorem Delimits.not_digit (delimits : Delimits rest) :
    ∀ c ∈ rest.head?, Text.isDigit c = false := by
  intro c first
  rcases delimits c first with rfl | rfl <;> decide

theorem readFraction_of_delimits (delimits : Delimits rest) : readFraction rest = ([], rest) := by
  cases rest with
  | nil => rfl
  | cons c cs =>
    rcases delimits c rfl with rfl | rfl <;> rfl

theorem readPower_of_delimits (delimits : Delimits rest) : readPower rest = ([], rest) := by
  cases rest with
  | nil => rfl
  | cons c cs =>
    rcases delimits c rfl with rfl | rfl <;> rfl

theorem span_digits {digits : List Char} (all : ∀ c ∈ digits, Text.isDigit c = true)
    (delimits : Delimits rest) : (digits ++ rest).span Text.isDigit = (digits, rest) := by
  have stops : rest.takeWhile Text.isDigit = [] ∧ rest.dropWhile Text.isDigit = rest := by
    cases rest with
    | nil => exact ⟨rfl, rfl⟩
    | cons c cs =>
      have other := delimits.not_digit c rfl
      simp [other]
  rw [List.span_eq_takeWhile_dropWhile, List.takeWhile_append_of_pos all,
    List.dropWhile_append_of_pos all, stops.1, stops.2, List.append_nil]

theorem readUnsigned_of_span (negative : Bool) {cs whole : List Char}
    (front : cs.span Text.isDigit = (whole, rest)) (digits : whole ≠ [])
    (single : ∀ back, cs = '0' :: back → whole = ['0'] ∧ rest = back)
    (short : whole.length ≤ digitLimit) (delimits : Delimits rest) :
    readUnsigned negative cs =
      .ok (.int (if negative then -Numeral.natOf (whole.map Numeral.digitValue)
        else Numeral.natOf (whole.map Numeral.digitValue)), rest) := by
  have some : whole.isEmpty = false := by simp [digits]
  have count : ¬ digitLimit < whole.length := Nat.not_lt.mpr short
  unfold readUnsigned
  split
  rename_i w r found
  have same : w = whole ∧ r = rest := by
    split at found
    · rename_i back
      cases found
      obtain ⟨rfl, rfl⟩ := single r rfl
      exact ⟨rfl, rfl⟩
    · rw [front] at found
      cases found
      exact ⟨rfl, rfl⟩
  obtain ⟨rfl, rfl⟩ := same
  simp [some, readFraction_of_delimits delimits, readPower_of_delimits delimits, count]

theorem readUnsigned_toDigits (negative : Bool) {n : Nat} (short : n < integerLimit)
    (delimits : Delimits rest) : readUnsigned negative (Nat.toDigits 10 n ++ rest) =
      .ok (.int (if negative then -n else n), rest) := by
  unfold integerLimit at short
  have read := readUnsigned_of_span negative
    (span_digits (fun _ => isDigit_of_mem_toDigits (n := n)) delimits) Nat.toDigits_ne_nil ?_
    (length_toDigits_le (by decide) short) delimits
  · rwa [natOf_toDigits] at read
  · intro back same
    by_cases zero : n = 0
    · subst zero
      exact ⟨rfl, (List.cons.inj same).2⟩
    · obtain ⟨c, cs, digits, other⟩ := head_toDigits_ne_zero (Nat.pos_of_ne_zero zero)
      rw [digits] at same
      exact absurd (List.cons.inj same).1 other

theorem readScalar_of_digit {c : Char} (digit : Text.isDigit c = true) (cs : List Char) :
    readScalar (c :: cs) = readUnsigned false (c :: cs) := by
  have within := Text.isDigit_iff.mp digit
  unfold readScalar
  split <;> first | rfl | (rename_i same; cases same; exact absurd digit (by decide))

theorem exists_head_toDigits (n : Nat) :
    ∃ c cs, Nat.toDigits 10 n = c :: cs ∧ Text.isDigit c = true := by
  cases digits : Nat.toDigits 10 n with
  | nil => exact absurd digits Nat.toDigits_ne_nil
  | cons c cs =>
    exact ⟨c, cs, rfl, isDigit_of_mem_toDigits (n := n) (by rw [digits]; exact List.mem_cons_self)⟩

theorem readScalar_int {n : Int} (short : n.natAbs < integerLimit) (delimits : Delimits rest) :
    readScalar ((toString n).toList ++ rest) = .ok (.int n, rest) := by
  cases n with
  | ofNat n =>
    obtain ⟨c, cs, digits, digit⟩ := exists_head_toDigits n
    have read := readUnsigned_toDigits false (n := n) short delimits
    show readScalar (n.repr.toList ++ rest) = _
    rw [digits] at read
    rw [Nat.toList_repr, digits]
    exact (readScalar_of_digit digit _).trans read
  | negSucc n =>
    obtain ⟨c, cs, digits, digit⟩ := exists_head_toDigits (n + 1)
    have read := readUnsigned_toDigits true (n := n + 1) short delimits
    have signed : readScalar ('-' :: (Nat.toDigits 10 (n + 1) ++ rest)) =
        readUnsigned true (Nat.toDigits 10 (n + 1) ++ rest) := by
      have other : c ≠ 'I' := by
        rintro rfl
        exact absurd digit (by decide)
      rw [digits, List.cons_append, readScalar]
      exact fun _ same => other (List.cons.inj same).1
    show readScalar (("-" ++ (n + 1).repr).toList ++ rest) = _
    rw [String.toList_append, Nat.toList_repr]
    exact signed.trans read

end Reading

end SceneScript.Json
