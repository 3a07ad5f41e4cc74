import Mathlib.Data.List.TakeWhile
import SceneScript.Proofs.Json.Grammar
import SceneScript.Proofs.Json.Numbers
import SceneScript.Proofs.Number.Shortest

/-!
How decimals are written: the text of a decimal, with a point or with a power of ten, is a numeral of
the same amount.
-/

namespace SceneScript.Decimal

open Json.Grammar

section Amounts

theorem natOf_append (front back : List Nat) : Numeral.natOf (front ++ back) =
    Numeral.natOf front * 10 ^ back.length + Numeral.natOf back := by
  have go (start : Nat) (ds : List Nat) : ds.foldl (fun n d => 10 * n + d) start =
      start * 10 ^ ds.length + Numeral.natOf ds := by
    unfold Numeral.natOf
    induction ds generalizing start with
    | nil => simp
    | cons d ds ih =>
      rw [List.foldl_cons, List.foldl_cons, ih, ih (10 * 0 + d), List.length_cons]
      ring
  rw [Numeral.natOf, List.foldl_append]
  exact go _ back

theorem amountOf_append (front back : List Char) :
    amountOf (front ++ back) = amountOf front * 10 ^ back.length + amountOf back := by
  rw [amountOf, List.map_append, natOf_append, List.length_map]
  rfl

theorem amountOf_zeros (n : Nat) : amountOf (List.replicate n '0') = 0 := by
  induction n with
  | zero => rfl
  | succ n ih =>
    rw [List.replicate_succ', amountOf_append, ih]
    rfl

theorem amountOf_toDigits (n : Nat) : amountOf (Nat.toDigits 10 n) = n := Json.natOf_toDigits n

/-- Zeros in front do not count, and zeros behind are powers of ten. -/
theorem decimalAmount_of_padded {front whole digits : List Char} {shift : Int} {i j : Nat}
    (padded : whole ++ digits = List.replicate i '0' ++ (front ++ List.replicate j '0')) :
    decimalAmount whole digits shift =
      amountOf front * (10 : ℚ) ^ (shift + j - digits.length) := by
  have ten : (10 : ℚ) ≠ 0 := by norm_num
  have regroup : shift + j - (digits.length : Int) = j + (shift - digits.length) := by omega
  rw [decimalAmount, padded, amountOf_append, amountOf_zeros, amountOf_append, amountOf_zeros,
    regroup, zpow_add₀ ten, zpow_natCast, List.length_replicate]
  push_cast
  ring

end Amounts

section Trimmed

/-- Digits that start with another one than zero. -/
structure Leading (digits : List Char) : Prop where
  digit : ∀ c ∈ digits, Text.isDigit c = true
  some : ∃ c cs, digits = c :: cs ∧ c ≠ '0'

theorem Leading.digits {digits : List Char} (leading : Leading digits) : Digits digits := by
  obtain ⟨c, cs, rfl, -⟩ := leading.some
  exact ⟨List.cons_ne_nil c cs, leading.digit⟩

theorem leading_toDigits {n : Nat} (positive : 0 < n) : Leading (Nat.toDigits 10 n) :=
  ⟨fun _ => Json.isDigit_of_mem_toDigits, Json.head_toDigits_ne_zero positive⟩

theorem trim_eq (digits : List Char) (exponent : Int) : ∃ front zeros,
    trim digits exponent = (front, exponent + (zeros : Nat)) ∧
      digits = front ++ List.replicate zeros '0' := by
  obtain ⟨count, zeros⟩ : ∃ zeros, digits.reverse.takeWhile (· == '0') =
      List.replicate zeros '0' := ⟨_, List.eq_replicate_of_mem fun c member => by
    simpa using List.mem_takeWhile_imp member⟩
  have split := List.takeWhile_append_dropWhile (p := (· == '0')) (l := digits.reverse)
  rw [zeros] at split
  have whole : digits = (digits.reverse.dropWhile (· == '0')).reverse ++
      List.replicate count '0' := by
    have turned := congrArg List.reverse split
    rw [List.reverse_append, List.reverse_reverse, List.reverse_replicate] at turned
    exact turned.symm
  refine ⟨_, count, ?_, whole⟩
  have length := congrArg List.length whole
  rw [List.length_append, List.length_replicate] at length
  rw [trim, zeros, List.length_replicate]
  congr 1
  conv => lhs; arg 2; rw [whole]
  exact List.take_left' (by omega)

/-- The digits that are written, without the zeros at their end. -/
theorem trim_leading {d : Decimal} (positive : 0 < d.digits) : ∃ front exponent,
    trim (Nat.toDigits 10 d.digits) d.exponent = (front, exponent) ∧ Leading front ∧
      d.amount = amountOf front * (10 : ℚ) ^ exponent := by
  obtain ⟨front, zeros, trimmed, whole⟩ := trim_eq (Nat.toDigits 10 d.digits) d.exponent
  have leading := leading_toDigits positive
  refine ⟨front, _, trimmed, ⟨fun c member => leading.digit c ?_, ?_⟩, ?_⟩
  · rw [whole]
    exact List.mem_append_left _ member
  · obtain ⟨c, cs, digits, other⟩ := leading.some
    cases front with
    | nil =>
      have zero : c ∈ List.replicate zeros '0' := by
        rw [← List.nil_append (List.replicate zeros '0'), ← whole, digits]
        exact List.mem_cons_self
      exact absurd (List.mem_replicate.mp zero).2 other
    | cons first rest =>
      rw [digits] at whole
      exact ⟨first, rest, rfl, (List.cons.inj whole).1 ▸ other⟩
  · have ten : (10 : ℚ) ≠ 0 := by norm_num
    have value : d.digits = amountOf front * 10 ^ zeros := by
      have all := amountOf_toDigits d.digits
      rw [whole, amountOf_append, amountOf_zeros, List.length_replicate] at all
      omega
    rw [amount, value, zpow_add₀ ten, zpow_natCast]
    push_cast
    ring

end Trimmed

section Texts

variable {front : List Char} {exponent : Int}

theorem Leading.append {cs : List Char} (leading : Leading front)
    (digit : ∀ c ∈ cs, Text.isDigit c = true) : Leading (front ++ cs) := by
  obtain ⟨c, rest, rfl, other⟩ := leading.some
  exact ⟨List.forall_mem_append.mpr ⟨leading.digit, digit⟩, c, rest ++ cs, rfl, other⟩

theorem Leading.take (leading : Leading front) (n : Nat) : Leading (front.take (n + 1)) := by
  obtain ⟨c, rest, rfl, other⟩ := leading.some
  exact ⟨fun d member => leading.digit d (List.mem_of_mem_take member), c, rest.take n, rfl, other⟩

theorem Leading.whole (leading : Leading front) : Whole front := by
  obtain ⟨c, rest, rfl, other⟩ := leading.some
  exact ⟨leading.digits, fun first => absurd (Option.some.inj first) other⟩

theorem digits_zero : Digits ['0'] :=
  ⟨List.cons_ne_nil '0' [], List.forall_mem_singleton.mpr rfl⟩

theorem whole_zero : Whole ['0'] := ⟨digits_zero, fun _ => rfl⟩

/-- An integer is written without zeros in front. -/
theorem whole_toDigits (n : Nat) : Whole (Nat.toDigits 10 n) := by
  cases n with
  | zero => exact whole_zero
  | succ n => exact (leading_toDigits n.succ_pos).whole

theorem isDigit_of_mem_zeros {n : Nat} {c : Char} (member : c ∈ List.replicate n '0') :
    Text.isDigit c = true := by
  rw [(List.mem_replicate.mp member).2]
  rfl

/-- A numeral with a point and no power of ten. -/
theorem numeral_of_point (front : List Char) (exponent : Int) (i j : Nat)
    {whole digits : List Char} (isWhole : Whole whole) (part : Digits digits)
    (padded : whole ++ digits = List.replicate i '0' ++ (front ++ List.replicate j '0'))
    (same : exponent = (j : Int) - digits.length) :
    DecimalNumeral (whole ++ '.' :: digits) (amountOf front * (10 : ℚ) ^ exponent) := by
  have written := DecimalNumeral.decimal isWhole (.present part) .absent (by simp)
  rw [decimalAmount_of_padded padded, zero_add, ← same, List.append_nil] at written
  exact written

theorem numeral_positional (leading : Leading front) :
    DecimalNumeral (positional front (exponent + front.length - 1))
      (amountOf front * (10 : ℚ) ^ exponent) := by
  generalize place : exponent + front.length - 1 = l
  cases l with
  | ofNat n =>
    rw [Int.ofNat_eq_natCast] at place
    rcases Nat.lt_or_ge (n + 1) front.length with within | beyond
    · -- The point stands among the digits.
      have part : (front.drop (n + 1)).isEmpty = false := by simp [within]
      have behind : Digits (front.drop (n + 1)) :=
        ⟨by simpa using within, fun d member => leading.digit d (List.mem_of_mem_drop member)⟩
      have written := numeral_of_point front exponent 0 0 (leading.take n).whole behind (by simp)
        (by rw [List.length_drop]; omega)
      have none : n + 1 - front.length = 0 := by omega
      simpa [positional, part, none] using written
    · -- Zeros are needed in front of the point, and one behind it.
      have part : front.drop (n + 1) = [] := List.drop_eq_nil_of_le beyond
      have all : front.take (n + 1) = front := List.take_of_length_le beyond
      have zeros : ∀ c ∈ List.replicate (n + 1 - front.length) '0', Text.isDigit c = true :=
        fun c => isDigit_of_mem_zeros
      have written := numeral_of_point front exponent 0 (n + 1 - front.length + 1)
        (leading.append zeros).whole digits_zero (by simp [List.replicate_succ'])
        (by rw [List.length_singleton]; omega)
      simpa [positional, part, all] using written
  | negSucc n =>
    have digits : Digits (List.replicate n '0' ++ front) :=
      ⟨by simp [leading.digits.1],
        List.forall_mem_append.mpr ⟨fun c => isDigit_of_mem_zeros, leading.digit⟩⟩
    have written := numeral_of_point front exponent (n + 1) 0 whole_zero digits
      (by simp [List.replicate_succ]) (by rw [List.length_append, List.length_replicate]; omega)
    simpa [positional] using written

theorem power_scientific (leading : Int) :
    Power (['e', if leading < 0 then '-' else '+'] ++
      (if (Nat.toDigits 10 leading.natAbs).length < 2 then '0' :: Nat.toDigits 10 leading.natAbs
        else Nat.toDigits 10 leading.natAbs)) leading := by
  have padded : ∃ digits, (if (Nat.toDigits 10 leading.natAbs).length < 2 then
      '0' :: Nat.toDigits 10 leading.natAbs else Nat.toDigits 10 leading.natAbs) = digits ∧
      Digits digits ∧ amountOf digits = leading.natAbs := by
    have digit : ∀ c ∈ Nat.toDigits 10 leading.natAbs, Text.isDigit c = true :=
      fun _ => Json.isDigit_of_mem_toDigits
    split
    · refine ⟨_, rfl, ⟨by simp, List.forall_mem_cons.mpr ⟨by decide, digit⟩⟩, ?_⟩
      rw [← List.singleton_append, amountOf_append, amountOf_toDigits]
      simp [amountOf, Numeral.natOf, Numeral.digitValue]
    · exact ⟨_, rfl, ⟨Nat.toDigits_ne_nil, digit⟩, amountOf_toDigits _⟩
  obtain ⟨digits, text, some, amount⟩ := padded
  rw [text]
  by_cases negative : leading < 0
  · have power : Power ('e' :: '-' :: digits) (-amountOf digits) := .minus (.inl rfl) some
    have value : -(amountOf digits : Int) = leading := by omega
    rw [value] at power
    simpa [negative] using power
  · have power : Power ('e' :: '+' :: digits) (amountOf digits) := .plus (.inl rfl) some
    have value : (amountOf digits : Int) = leading := by omega
    rw [value] at power
    simpa [negative] using power

theorem numeral_scientific (leading : Leading front) :
    DecimalNumeral (scientific front (exponent + front.length - 1))
      (amountOf front * (10 : ℚ) ^ exponent) := by
  obtain ⟨c, rest, rfl, other⟩ := leading.some
  have first : Whole [c] := ⟨⟨by simp, by simpa using leading.digit c List.mem_cons_self⟩,
    fun _ => rfl⟩
  have part : ∃ fraction, (if (c :: rest).length ≤ 1 then [] else '.' :: rest) = fraction ∧
      Fraction fraction rest := by
    cases rest with
    | nil => exact ⟨_, rfl, .absent⟩
    | cons d rest =>
      refine ⟨_, if_neg (by simp), .present ⟨by simp, fun e member => ?_⟩⟩
      exact leading.digit e (List.mem_cons_of_mem _ member)
  obtain ⟨fraction, text, part⟩ := part
  have scale := power_scientific (exponent + (c :: rest).length - 1)
  have written := DecimalNumeral.decimal first part scale (by simp)
  have unpadded : [c] ++ rest =
      List.replicate 0 '0' ++ ((c :: rest) ++ List.replicate 0 '0') := by simp
  rw [decimalAmount_of_padded unpadded] at written
  have shift : exponent + (c :: rest).length - 1 + (0 : Nat) - rest.length = exponent := by
    rw [List.length_cons]
    omega
  rw [shift, ← text] at written
  simpa [scientific] using written

/-- The text of a decimal is a numeral of its amount. -/
theorem numeral_text {d : Decimal} (positive : 0 < d.digits) : DecimalNumeral d.text d.amount := by
  obtain ⟨front, exponent, trimmed, leading, amount⟩ := trim_leading positive
  rw [text, trimmed, amount]
  dsimp only
  split
  · exact numeral_positional leading
  · exact numeral_scientific leading

end Texts

end SceneScript.Decimal
