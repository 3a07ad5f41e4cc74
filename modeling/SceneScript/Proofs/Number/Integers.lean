import SceneScript.Proofs.Number.Decimals
import SceneScript.Proofs.Number.Floats
import SceneScript.Proofs.Parse.Evaluable
import SceneScript.Proofs.Token.Writing
import SceneScript.Value.View

/-!
Integers: numbers that are integers of at most 21 digits are printed in full, and the text is scanned
and read back as the same number.
-/

namespace SceneScript

namespace Binary64

/-- The number is finite, and this is its amount. -/
def Amounts : Binary64 → ℚ → Prop
  | .finite negative mantissa exponent, q =>
    (if negative then -magnitude mantissa exponent else magnitude mantissa exponent) = q
  | _, _ => False

section Exact

variable {mantissa n : Nat} {exponent : Int}

theorem eq_of_magnitude_ofNat {up : Nat} (whole : magnitude mantissa (.ofNat up) = n) :
    n = mantissa * 2 ^ up := by
  rw [magnitude, Int.ofNat_eq_natCast, zpow_natCast] at whole
  exact_mod_cast whole.symm

theorem eq_of_magnitude_negSucc {down : Nat} (whole : magnitude mantissa (.negSucc down) = n) :
    mantissa = n * 2 ^ (down + 1) := by
  rw [magnitude, zpow_negSucc, ← div_eq_mul_inv, div_eq_iff (by positivity)] at whole
  exact_mod_cast whole

theorem scale_of_magnitude (whole : magnitude mantissa exponent = n) :
    (scale n 1 exponent).1 = mantissa * (scale n 1 exponent).2 ∧ 0 < (scale n 1 exponent).2 := by
  cases exponent with
  | ofNat up =>
    simp [scale, Nat.shiftLeft_eq, eq_of_magnitude_ofNat whole]
  | negSucc down =>
    simp [scale, Nat.shiftLeft_eq, eq_of_magnitude_negSucc whole]

theorem log2_mul_two_pow {n : Nat} (positive : 0 < n) (k : Nat) :
    (n * 2 ^ k).log2 = n.log2 + k := by
  induction k with
  | zero => simp
  | succ k ih =>
    have some : n * 2 ^ k ≠ 0 := by positivity
    have double : n * 2 ^ (k + 1) = 2 * (n * 2 ^ k) := by ring
    rw [double, Nat.log2_two_mul some, ih, Nat.add_assoc]

/-- An integer with all 53 bits of its mantissa is written in the unit of the number. -/
theorem log2_of_magnitude (canonical : Canonical mantissa exponent) (full : leadingBit ≤ mantissa)
    (whole : magnitude mantissa exponent = n) : (n.log2 : Int) = exponent + 52 := by
  have short := canonical.short
  rw [leadingBit_eq] at full short
  have bits : mantissa.log2 = 52 := (Nat.log2_eq_iff (by omega)).mpr (by omega)
  cases exponent with
  | ofNat up =>
    rw [eq_of_magnitude_ofNat whole, log2_mul_two_pow (by omega), bits, Int.ofNat_eq_natCast]
    omega
  | negSucc down =>
    have product := eq_of_magnitude_negSucc whole
    have positive : 0 < n := by
      refine Nat.pos_of_ne_zero fun zero => ?_
      rw [zero] at product
      omega
    rw [product, log2_mul_two_pow positive] at bits
    omega

theorem unitExponent_of_magnitude (canonical : Canonical mantissa exponent)
    (full : leadingBit ≤ mantissa) (whole : magnitude mantissa exponent = n) :
    unitExponent n 1 = exponent := by
  obtain ⟨scaled, positive⟩ := scale_of_magnitude whole
  have bits := log2_of_magnitude canonical full whole
  have one : Nat.log2 1 = 0 := by decide
  have guess : max ((n.log2 : Int) - (Nat.log2 1 : Nat) - 52) (-1074) = exponent := by
    have least := canonical.least
    rw [one, bits]
    omega
  rw [unitExponent, guess]
  dsimp only
  rw [scaled, Nat.mul_div_cancel _ positive, if_neg fun less => Nat.not_lt.mpr full less.1]

theorem roundQuotient_mul {den : Nat} (positive : 0 < den) (n : Nat) :
    roundQuotient (n * den) den = n := by
  rw [roundQuotient, Nat.mul_div_cancel n positive, Nat.mul_mod_left, if_neg (by omega)]

/-- An integer that is the amount of a number rounds to it. -/
theorem nearest_of_magnitude (canonical : Canonical mantissa exponent)
    (full : leadingBit ≤ mantissa) (whole : magnitude mantissa exponent = n) (negative : Bool) :
    nearest negative n 1 = .finite negative mantissa exponent := by
  obtain ⟨scaled, positive⟩ := scale_of_magnitude whole
  have some : n ≠ 0 := by
    rintro rfl
    have front : 0 < leadingBit := by decide
    have more : magnitude 0 exponent < magnitude mantissa exponent :=
      magnitude_lt_iff.mpr (Nat.lt_of_lt_of_le front full)
    have nothing := magnitude_nonneg 0 exponent
    rw [whole, Nat.cast_zero] at more
    exact absurd more (not_lt.mpr nothing)
  have exact : nearestBits n 1 = finiteBits mantissa exponent := by
    rw [nearestBits, if_neg some, unitExponent_of_magnitude canonical full whole]
    dsimp only
    rw [scaled, roundQuotient_mul positive, Nat.min_eq_left canonical.finiteBits_lt.le]
  rw [nearest, exact, ofBits_finiteBits canonical]

/-- Only zero has a smaller mantissa. -/
theorem leadingBit_le_of_magnitude (canonical : Canonical mantissa exponent)
    (whole : magnitude mantissa exponent = n) (positive : 0 < n) : leadingBit ≤ mantissa := by
  by_contra small
  have least := canonical.full (Nat.lt_of_not_le small)
  have below : magnitude mantissa exponent < 1 := by
    have bits : (mantissa : ℚ) < 2 ^ 1074 := by
      have short : mantissa < 2 ^ 1074 :=
        Nat.lt_of_lt_of_le canonical.short (by decide +kernel)
      exact_mod_cast short
    rw [magnitude, least, zpow_neg, ← div_eq_mul_inv, div_lt_one (by positivity)]
    exact_mod_cast bits
  rw [whole] at below
  have : n < 1 := by exact_mod_cast below
  omega

end Exact

section Texts

/-- How an integer is printed. -/
def integerText (n : Int) : List Char := signText (n < 0) ++ Nat.toDigits 10 n.natAbs

/-- The sign and the parts of a number that is an integer. -/
theorem Amounts.exists_parts {x : Float} {n : Int} (whole : (ofFloat x).Amounts n) :
    ∃ negative mantissa exponent, ofFloat x = .finite negative mantissa exponent ∧
      Canonical mantissa exponent ∧ magnitude mantissa exponent = n.natAbs ∧
      (negative && n.natAbs != 0) = decide (n < 0) := by
  cases parts : ofFloat x with
  | nan | infinite =>
    rw [parts] at whole
    exact whole.elim
  | finite negative mantissa exponent =>
    rw [parts] at whole
    have amount : (if negative then -magnitude mantissa exponent
      else magnitude mantissa exponent) = n := whole
    have some := magnitude_nonneg mantissa exponent
    refine ⟨negative, mantissa, exponent, rfl, canonical_of_ofBits parts, ?_, ?_⟩
    · have absolute : ((n.natAbs : Int) : ℚ) = |(n : ℚ)| := by
        rw [Int.natCast_natAbs, Int.cast_abs]
      rw [← Int.cast_natCast, absolute, ← amount]
      split
      · rw [abs_neg, abs_of_nonneg some]
      · rw [abs_of_nonneg some]
    · cases negative with
      | false =>
        have front : (0 : ℚ) ≤ n := by rwa [← amount]
        have front : 0 ≤ n := by exact_mod_cast front
        simp [front]
      | true =>
        have front : (n : ℚ) ≤ 0 := by
          rw [← amount, if_pos rfl]
          linarith
        have front : n ≤ 0 := by exact_mod_cast front
        rw [Bool.eq_iff_iff]
        simp only [Bool.true_and, bne_iff_ne, decide_eq_true_eq]
        omega

theorem numberText_of_amounts {x : Float} {n : Int} (whole : (ofFloat x).Amounts n)
    (small : n.natAbs < 10 ^ 21) : numberText x = String.ofList (integerText n) := by
  obtain ⟨negative, mantissa, exponent, parts, -, amount, sign⟩ := whole.exists_parts
  have below : n.natAbs < integerLimit := small
  rw [numberText, parts, text, integer?_eq_some_iff.mpr amount]
  dsimp only
  rw [if_pos below, sign, integerText]

theorem minus_notMem_toDigits (n : Nat) : '-' ∉ Nat.toDigits 10 n := by
  intro member
  exact absurd (Json.isDigit_of_mem_toDigits member) (by decide)

/-- Different integers are printed differently. -/
theorem integerText_injective {k n : Int} (same : integerText k = integerText n) : k = n := by
  have member (k : Int) : '-' ∈ integerText k ↔ k < 0 := by
    by_cases negative : k < 0 <;>
      simp [integerText, signText, negative, minus_notMem_toDigits]
  have signs : k < 0 ↔ n < 0 := by
    rw [← member, ← member, same]
  have digits : Nat.toDigits 10 k.natAbs = Nat.toDigits 10 n.natAbs := by
    unfold integerText at same
    rw [decide_eq_decide.mpr signs] at same
    exact List.append_cancel_left same
  have natAbs := congrArg Json.Grammar.amountOf digits
  rw [Decimal.amountOf_toDigits, Decimal.amountOf_toDigits] at natAbs
  omega

end Texts

end Binary64

namespace Numeral

/-- Digits are read as the decimal that they are. -/
theorem ofText?_digits {digits : List Char} (whole : Json.Grammar.Digits digits) :
    ofText? (String.ofList digits) = some (.decimal false (digits.map digitValue) 0) := by
  obtain ⟨some, all⟩ := whole
  cases digits with
  | nil => exact absurd rfl some
  | cons c cs =>
    have digit := all c List.mem_cons_self
    have lower : c.toLower = c := by
      have checked : ∀ n, 0x30 ≤ n → n ≤ 0x39 → (Char.ofNat n).toLower = Char.ofNat n := by decide
      obtain ⟨least, most⟩ := Text.isDigit_iff.mp digit
      have same := checked c.toNat least most
      rwa [Char.ofNat_toNat] at same
    have noWord (word : String) (letter : ∀ d ∈ word.toList.head?, Text.isDigit d = false) :
        String.ofList ((c :: cs).map Char.toLower) ≠ word := by
      rintro rfl
      have other := letter c (by rw [String.toList_ofList, List.map_cons, lower]; rfl)
      rw [digit] at other
      cases other
    have inf : ∀ d ∈ "inf".toList.head?, Text.isDigit d = false := by rintro d ⟨⟩; decide
    have infinity : ∀ d ∈ "infinity".toList.head?, Text.isDigit d = false := by rintro d ⟨⟩; decide
    have nan : ∀ d ∈ "nan".toList.head?, Text.isDigit d = false := by rintro d ⟨⟩; decide
    have behind : Json.Delimits [] := fun d first => nomatch first
    have spans := Json.span_digits all behind
    rw [List.append_nil] at spans
    rw [ofText?_eq digit fun d member => .inl (all d member), readUnsigned?,
      if_neg (not_or.mpr ⟨noWord _ inf, noWord _ infinity⟩), if_neg (noWord _ nan),
      readDecimal?, spans]
    simp [readExponent?]

/-- A decimal of an integer with few enough digits, the first of which is not zero. -/
theorem value_decimal (negative : Bool) {digits : List Nat} {d : Nat} {ds : List Nat}
    (front : digits = d :: ds) (some : d ≠ 0) (short : digits.length ≤ 400) :
    (decimal negative digits 0).value = Binary64.nearest negative (natOf digits) 1 := by
  have kept : digits.dropWhile (· == 0) = digits := by
    rw [front, List.dropWhile_cons, if_neg (by simpa using some)]
  have full : digits.isEmpty = false := by rw [front]; rfl
  have far : farExponent = 400 := rfl
  simp only [value, kept, full, far, Int.add_zero]
  rw [if_neg (not_or.mpr ⟨Bool.false_ne_true, by omega⟩), if_neg (by omega)]
  simp

theorem value_toDigits (negative : Bool) {n : Nat} (small : n < 10 ^ 21) :
    (decimal negative ((Nat.toDigits 10 n).map digitValue) 0).value =
      Binary64.nearest negative n 1 := by
  rcases Nat.eq_zero_or_pos n with rfl | positive
  · rfl
  · have short : (Nat.toDigits 10 n).length ≤ 21 := Json.length_toDigits_le (by decide) small
    obtain ⟨c, cs, digits, other⟩ := Json.head_toDigits_ne_zero positive
    have digit : Text.isDigit c = true :=
      Json.isDigit_of_mem_toDigits (n := n) (by rw [digits]; exact List.mem_cons_self)
    have some : digitValue c ≠ 0 := by
      obtain ⟨least, most⟩ := Text.isDigit_iff.mp digit
      intro zero
      have same : c.toNat = '0'.toNat := by
        have base : '0'.toNat = 48 := rfl
        rw [digitValue] at zero
        omega
      exact other (Char.toNat_inj.mp same)
    have front : (Nat.toDigits 10 n).map digitValue = digitValue c :: cs.map digitValue := by
      rw [digits, List.map_cons]
    have read := value_decimal negative front some (by rw [List.length_map]; omega)
    rwa [Json.natOf_toDigits] at read

end Numeral

section Reading

open Binary64 Json.Grammar

/-- The tokens of an integer: a sign if there is one, and a single numeral. -/
theorem tokens_integerText (file : String) (n : Int) : ∃ ts stop,
    TokenStream.ofOrigin ⟨file, String.ofList (integerText n)⟩ = ⟨ts, .finished stop⟩ ∧
      ts.map (fun t => (t.kind, t.value)) =
        (if n < 0 then [(.minus, .null)] else []) ++
          [(.number, .string (String.ofList (Nat.toDigits 10 n.natAbs)))] := by
  obtain ⟨c, cs, digits, -⟩ := Json.exists_head_toDigits n.natAbs
  have all : ∀ d ∈ c :: cs, Text.isDigit d = true := by
    rw [← digits]
    exact fun d => Json.isDigit_of_mem_toDigits
  have numeral := Spells.whole all
  rw [integerText, digits]
  by_cases negative : n < 0
  · have signed := Spells.operator (c := '-') rfl (fun _ => rfl) numeral
    obtain ⟨ts, stop, scanned, span, us, ⟨span', rfl⟩, rfl⟩ := signed.tokens_ofOrigin file
    rw [signText, if_pos (decide_eq_true negative), if_pos negative]
    exact ⟨_, stop, scanned, rfl⟩
  · obtain ⟨ts, stop, scanned, span, rfl⟩ := numeral.tokens_ofOrigin file
    rw [signText, if_neg (by simpa using negative), if_neg negative]
    exact ⟨_, stop, scanned, rfl⟩

/-- The numeral of an integer that a number can have is read as that number without its sign. -/
theorem readNumber_toDigits {mantissa n : Nat} {exponent : Int}
    (canonical : Canonical mantissa exponent) (whole : magnitude mantissa exponent = n)
    (small : n < 10 ^ 21) (m : Machine) :
    ∃ y, (EvalM.readNumber (.string (String.ofList (Nat.toDigits 10 n)))).run m = .ok y m ∧
      (ofFloat y).Amounts n := by
  have known := Numeral.ofText?_digits (Decimal.whole_toDigits n).1
  refine ⟨(nearest false n 1).toFloat, ?_, ?_⟩
  · rw [EvalM.readNumber, known]
    dsimp only
    rw [Numeral.value_toDigits false small]
    rfl
  · rcases Nat.eq_zero_or_pos n with rfl | positive
    · have zero : nearest false 0 1 = .finite false 0 (-1074) := by decide
      have none : Canonical 0 (-1074) := ⟨by decide, by decide, by decide, fun _ => rfl⟩
      rw [zero, ofFloat_toFloat none]
      show magnitude 0 (-1074) = _
      simp [magnitude]
    · rw [nearest_of_magnitude canonical (leadingBit_le_of_magnitude canonical whole positive) whole,
        ofFloat_toFloat canonical]
      exact whole

/-- A number that is an integer of at most 21 digits is printed as the numeral of that integer: all
    digits, no zeros in front of others, and a sign only below zero. The text scans to the numeral
    alone, behind a minus sign if there is one, and the numeral is read as the absolute value. No
    other integer of at most 21 digits is printed in this way. -/
theorem integers_print_in_full (x : Float) (n : Int) (whole : (ofFloat x).Amounts n)
    (small : n.natAbs < 10 ^ 21) :
    let digits := Nat.toDigits 10 n.natAbs
    let text := String.ofList ((if n < 0 then ['-'] else []) ++ digits)
    (∀ stamp, (View.number x stamp).display? = some text) ∧
    Whole digits ∧ amountOf digits = n.natAbs ∧
    (∀ file, ∃ ts stop, TokenStream.ofOrigin ⟨file, text⟩ = ⟨ts, .finished stop⟩ ∧
      ts.map (fun t => (t.kind, t.value)) =
        (if n < 0 then [(.minus, .null)] else []) ++ [(.number, .string (String.ofList digits))]) ∧
    (∀ m, ∃ y, (EvalM.readNumber (.string (String.ofList digits))).run m = .ok y m ∧
      (ofFloat y).Amounts n.natAbs) ∧
    ∀ y k stamp, (ofFloat y).Amounts (k : Int) → k.natAbs < 10 ^ 21 →
      (View.number y stamp).display? = some text → k = n := by
  obtain ⟨negative, mantissa, exponent, -, canonical, amount, -⟩ := whole.exists_parts
  have sign : signText (n < 0) = if n < 0 then ['-'] else [] := by
    by_cases negative : n < 0 <;> simp [signText, negative]
  have printed : numberText x = String.ofList ((if n < 0 then ['-'] else []) ++
      Nat.toDigits 10 n.natAbs) := by
    rw [numberText_of_amounts whole small, integerText, sign]
  intro digits text
  refine ⟨fun stamp => ?_, Decimal.whole_toDigits _, Decimal.amountOf_toDigits _, fun file => ?_,
    readNumber_toDigits canonical amount small, fun y k stamp other short same => ?_⟩
  · rw [View.display?, printed]
  · have scanned := tokens_integerText file n
    rwa [integerText, sign] at scanned
  · rw [View.display?, numberText_of_amounts other short, Option.some.injEq] at same
    have listed := congrArg String.toList same
    rw [String.toList_ofList, String.toList_ofList, ← sign] at listed
    exact integerText_injective listed

/-- Minus the 69th power of two, far beyond the integers that all are numbers. -/
theorem negative_power_of_two_prints_in_full :
    (ofFloat (Float.ofBits 0xC440000000000000)).Amounts (-590295810358705651712 : Int) ∧
      ∀ stamp, (View.number (Float.ofBits 0xC440000000000000) stamp).display? =
        some "-590295810358705651712" := by
  have whole : (ofFloat (Float.ofBits 0xC440000000000000)).Amounts (-590295810358705651712 : Int) := by
    have parts : ofFloat (Float.ofBits 0xC440000000000000) = .finite true leadingBit 17 := by
      decide +kernel
    rw [parts, Amounts, if_pos rfl, magnitude, leadingBit_eq]
    norm_num
  obtain ⟨printed, -⟩ := integers_print_in_full _ (-590295810358705651712) whole (by decide)
  have text : String.ofList ((if (-590295810358705651712 : Int) < 0 then ['-'] else []) ++
      Nat.toDigits 10 (Int.natAbs (-590295810358705651712))) = "-590295810358705651712" := by
    decide +kernel
  rw [text] at printed
  exact ⟨whole, printed⟩

end Reading

end SceneScript
