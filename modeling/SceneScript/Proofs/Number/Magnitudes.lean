import Mathlib.Algebra.Order.Field.Power
import Mathlib.Data.Rat.Cast.Order
import Mathlib.Tactic.FieldSimp
import Mathlib.Tactic.Linarith
import Mathlib.Tactic.NormNum
import Mathlib.Tactic.Positivity
import Mathlib.Tactic.Ring
import SceneScript.Number.Binary64

/-!
The amounts of binary64 numbers: which mantissas and exponents the bits give, how far numbers lie
apart, and which of them is nearest to a fraction.
-/

namespace SceneScript.Binary64

def IsFinite : Binary64 → Prop
  | .finite _ _ _ => True
  | _ => False

instance : DecidablePred IsFinite
  | .finite _ _ _ => inferInstanceAs (Decidable True)
  | .nan | .infinite _ => inferInstanceAs (Decidable False)

/-- The amount of a finite number without its sign. -/
def magnitude (mantissa : Nat) (exponent : Int) : ℚ := mantissa * (2 : ℚ) ^ exponent

/-- The mantissa and the exponent are such as the bits of a number give. -/
structure Canonical (mantissa : Nat) (exponent : Int) : Prop where
  short : mantissa < 2 * leadingBit
  least : -1074 ≤ exponent
  most : exponent ≤ 971
  full : mantissa < leadingBit → exponent = -1074

theorem leadingBit_eq : leadingBit = 4503599627370496 := rfl

theorem infinityBits_eq : infinityBits = 9218868437227405312 := rfl

theorem signBit_eq (negative : Bool) :
    signBit negative = if negative then 9223372036854775808 else 0 := by
  cases negative <;> rfl

section Bits

variable {bits mantissa : Nat} {exponent : Int} {negative : Bool}

theorem canonical_of_ofBits (finite : ofBits bits = .finite negative mantissa exponent) :
    Canonical mantissa exponent := by
  have positive : 0 < leadingBit := by decide
  have fraction : bits % leadingBit < leadingBit := Nat.mod_lt _ positive
  simp only [ofBits] at finite
  split at finite
  · split at finite <;> cases finite
  · split at finite
    · cases finite
      exact ⟨by omega, by omega, by omega, fun _ => rfl⟩
    · cases finite
      exact ⟨by omega, by omega, by omega, by omega⟩

theorem Canonical.finiteBits_lt (canonical : Canonical mantissa exponent) :
    finiteBits mantissa exponent < infinityBits := by
  obtain ⟨short, least, most, full⟩ := canonical
  rw [leadingBit_eq] at short full
  rw [finiteBits, infinityBits_eq, leadingBit_eq]
  split <;> omega

/-- A number is read back from its bits. -/
theorem ofBits_finiteBits (canonical : Canonical mantissa exponent) (negative : Bool) :
    ofBits (signBit negative + finiteBits mantissa exponent) =
      .finite negative mantissa exponent := by
  have below := canonical.finiteBits_lt
  rw [infinityBits_eq] at below
  have sign : (signBit negative + finiteBits mantissa exponent).testBit 63 = negative := by
    rw [Nat.testBit_eq_decide_div_mod_eq, signBit_eq]
    cases negative with
    | false =>
      rw [if_neg (by decide), decide_eq_false]
      omega
    | true =>
      rw [if_pos rfl, decide_eq_true]
      omega
  have power : (signBit negative + finiteBits mantissa exponent) / 4503599627370496 % 2048 =
      finiteBits mantissa exponent / 4503599627370496 := by
    rw [signBit_eq]
    split <;> omega
  have fraction : (signBit negative + finiteBits mantissa exponent) % 4503599627370496 =
      finiteBits mantissa exponent % 4503599627370496 := by
    rw [signBit_eq]
    split <;> omega
  obtain ⟨short, least, most, full⟩ := canonical
  rw [leadingBit_eq] at short full
  rw [ofBits, sign]
  simp only [leadingBit_eq, power, fraction]
  rw [finiteBits, leadingBit_eq] at below ⊢
  by_cases small : mantissa < 4503599627370496
  · rw [if_pos small] at below ⊢
    rw [if_neg (by omega), if_pos (by omega), full small, Nat.mod_eq_of_lt small]
  · rw [if_neg small] at below ⊢
    have mantissaBack : 4503599627370496 + ((exponent + 1075).toNat * 4503599627370496 +
        (mantissa - 4503599627370496)) % 4503599627370496 = mantissa := by omega
    have exponentBack : (((exponent + 1075).toNat * 4503599627370496 +
        (mantissa - 4503599627370496)) / 4503599627370496 : Nat) - (1075 : Int) = exponent := by
      omega
    rw [if_neg (by omega), if_neg (by omega), mantissaBack, exponentBack]

end Bits

section Amounts

variable {mantissa : Nat} {exponent : Int}

theorem den_fraction_pos (mantissa : Nat) (exponent : Int) :
    0 < (fraction mantissa exponent).2 := by
  cases exponent with
  | ofNat up => exact Nat.one_pos
  | negSucc down =>
    show 0 < 1 <<< (down + 1)
    rw [Nat.shiftLeft_eq]
    positivity

theorem fraction_eq_magnitude (mantissa : Nat) (exponent : Int) :
    ((fraction mantissa exponent).1 : ℚ) / (fraction mantissa exponent).2 =
      magnitude mantissa exponent := by
  cases exponent with
  | ofNat up => simp [fraction, magnitude, Nat.shiftLeft_eq]
  | negSucc down =>
    simp [fraction, magnitude, Nat.shiftLeft_eq, zpow_negSucc, div_eq_mul_inv]

/-- A number is an integer if its amount is one. -/
theorem integer?_eq_some_iff {n : Nat} :
    integer? mantissa exponent = some n ↔ magnitude mantissa exponent = n := by
  have positive := den_fraction_pos mantissa exponent
  have known := fraction_eq_magnitude mantissa exponent
  rw [integer?]
  generalize fraction mantissa exponent = f at positive known ⊢
  obtain ⟨num, den⟩ := f
  simp only at positive known ⊢
  have some_den : (den : ℚ) ≠ 0 := by exact_mod_cast positive.ne'
  rw [← known, div_eq_iff some_den]
  constructor
  · intro found
    split at found
    · rename_i divides
      cases found
      exact_mod_cast (Nat.div_mul_cancel (Nat.dvd_of_mod_eq_zero divides)).symm
    · cases found
  · intro whole
    have product : num = n * den := by exact_mod_cast whole
    rw [product, Nat.mul_mod_left, if_pos rfl, Nat.mul_div_cancel n positive]

theorem magnitude_nonneg (mantissa : Nat) (exponent : Int) : 0 ≤ magnitude mantissa exponent := by
  unfold magnitude
  positivity

theorem magnitude_lt_iff {m n : Nat} :
    magnitude m exponent < magnitude n exponent ↔ m < n := by
  have unit : (0 : ℚ) < 2 ^ exponent := by positivity
  rw [magnitude, magnitude, mul_lt_mul_iff_of_pos_right unit, Nat.cast_lt]

theorem magnitude_le_iff {m n : Nat} :
    magnitude m exponent ≤ magnitude n exponent ↔ m ≤ n := by
  rw [← not_lt, magnitude_lt_iff, not_lt]

/-- The same amount in smaller units. -/
theorem magnitude_add (mantissa : Nat) (exponent : Int) (k : Nat) :
    magnitude mantissa (exponent + k) = magnitude (mantissa * 2 ^ k) exponent := by
  rw [magnitude, magnitude, zpow_add₀ two_ne_zero, zpow_natCast, Nat.cast_mul, Nat.cast_pow,
    Nat.cast_ofNat]
  ring

theorem Canonical.leadingBit_le (canonical : Canonical mantissa exponent)
    (normal : exponent ≠ -1074) : leadingBit ≤ mantissa :=
  Nat.not_lt.mp fun small => normal (canonical.full small)

end Amounts

section Neighbours

/-- The amount next to that of a number. -/
def above (mantissa : Nat) (exponent : Int) : ℚ := magnitude (mantissa + 1) exponent

/-- The amount before that of a positive number. Below a power of two the numbers lie closer. -/
def below (mantissa : Nat) (exponent : Int) : ℚ :=
  if mantissa = leadingBit ∧ -1074 < exponent then magnitude (2 * mantissa - 1) (exponent - 1)
  else magnitude (mantissa - 1) exponent

variable {mantissa m : Nat} {exponent e : Int} (canonical : Canonical mantissa exponent)
  (other : Canonical m e)
include canonical other

theorem above_le (greater : magnitude mantissa exponent < magnitude m e) :
    above mantissa exponent ≤ magnitude m e := by
  rw [above]
  by_cases coarse : exponent ≤ e
  · obtain ⟨k, rfl⟩ : ∃ k : Nat, e = exponent + k := ⟨(e - exponent).toNat, by omega⟩
    rw [magnitude_add, magnitude_lt_iff] at greater
    rw [magnitude_add, magnitude_le_iff]
    exact greater
  · -- A number in smaller units is no greater.
    obtain ⟨k, rfl⟩ : ∃ k : Nat, exponent = e + (k + 1 : Nat) :=
      ⟨(exponent - e - 1).toNat, by omega⟩
    have long := canonical.leadingBit_le (by have := other.least; omega)
    rw [magnitude_add, magnitude_lt_iff] at greater
    have power : 2 ≤ 2 ^ (k + 1) := Nat.le_self_pow (Nat.succ_ne_zero k) 2
    have wide : leadingBit * 2 ≤ mantissa * 2 ^ (k + 1) := Nat.mul_le_mul long power
    have short := other.short
    omega

theorem le_below (less : magnitude m e < magnitude mantissa exponent) :
    magnitude m e ≤ below mantissa exponent := by
  rw [below]
  by_cases coarse : exponent ≤ e
  · obtain ⟨k, rfl⟩ : ∃ k : Nat, e = exponent + k := ⟨(e - exponent).toNat, by omega⟩
    rw [magnitude_add, magnitude_lt_iff] at less
    rw [magnitude_add]
    split
    · have halved : exponent = exponent - 1 + (1 : Nat) := by omega
      rw [halved, magnitude_add, ← halved, magnitude_le_iff]
      omega
    · rw [magnitude_le_iff]
      omega
  · obtain ⟨k, rfl⟩ : ∃ k : Nat, exponent = e + (k + 1 : Nat) :=
      ⟨(exponent - e - 1).toNat, by omega⟩
    have least := other.least
    have short := other.short
    have long := canonical.leadingBit_le (by omega)
    have power : 1 ≤ 2 ^ k := Nat.one_le_two_pow
    split
    · rename_i boundary
      have halved : e + (k + 1 : Nat) - 1 = e + k := by omega
      rw [halved, magnitude_add, magnitude_le_iff, boundary.1]
      calc m ≤ (2 * leadingBit - 1) * 1 := by omega
        _ ≤ (2 * leadingBit - 1) * 2 ^ k := Nat.mul_le_mul_left _ power
    · rename_i inner
      rw [magnitude_add, magnitude_le_iff, pow_succ]
      have longer : leadingBit ≤ mantissa - 1 := by omega
      calc m ≤ leadingBit * (1 * 2) := by omega
        _ ≤ (mantissa - 1) * (2 ^ k * 2) :=
          Nat.mul_le_mul longer (Nat.mul_le_mul_right 2 power)

end Neighbours

section Nearest

/-- Half way from the largest number to the next power of two; nothing is near from there on. -/
def overflow : ℚ := magnitude (4 * leadingBit - 1) 970

/-- Of all numbers that there are, none is nearer to the fraction `q`, and if another one is as near
    then the mantissa is even. -/
structure Nearest (q : ℚ) (mantissa : Nat) (exponent : Int) : Prop where
  canonical : Canonical mantissa exponent
  inRange : q < overflow
  closest : ∀ m e, Canonical m e → |q - magnitude mantissa exponent| ≤ |q - magnitude m e|
  even : ∀ m e, Canonical m e → magnitude m e ≠ magnitude mantissa exponent →
    |q - magnitude m e| = |q - magnitude mantissa exponent| → mantissa % 2 = 0

theorem dist_le_of_le_middle {q x y : ℚ} (less : x < y) (before : 2 * q ≤ x + y) :
    |q - x| ≤ |q - y| ∧ (|q - y| = |q - x| → 2 * q = x + y) := by
  have far : |q - y| = y - q := by
    rw [abs_sub_comm, abs_of_nonneg (by linarith)]
  rw [far]
  rcases abs_cases (q - x) with ⟨near, -⟩ | ⟨near, -⟩
  · rw [near]
    exact ⟨by linarith, fun same => by linarith⟩
  · rw [near]
    exact ⟨by linarith, fun same => by linarith⟩

variable {mantissa : Nat} {exponent : Int}

theorem largest_canonical : Canonical (2 * leadingBit - 1) 971 := by
  have positive : 0 < leadingBit := by decide
  exact ⟨by omega, by omega, by omega, by omega⟩

/-- A number that is not below the largest one is the largest one. -/
theorem eq_largest (canonical : Canonical mantissa exponent)
    (largest : ¬ magnitude mantissa exponent < magnitude (2 * leadingBit - 1) 971) :
    mantissa = 2 * leadingBit - 1 ∧ exponent = 971 := by
  have short := canonical.short
  obtain ⟨k, up⟩ : ∃ k : Nat, (971 : Int) = exponent + k :=
    ⟨(971 - exponent).toNat, by have := canonical.most; omega⟩
  rw [up, magnitude_add, magnitude_lt_iff, Nat.not_lt] at largest
  have positive : 0 < leadingBit := by decide
  cases k with
  | zero => omega
  | succ k =>
    have power : 2 ≤ 2 ^ (k + 1) := Nat.le_self_pow (Nat.succ_ne_zero k) 2
    have wide : (2 * leadingBit - 1) * 2 ≤ (2 * leadingBit - 1) * 2 ^ (k + 1) :=
      Nat.mul_le_mul_left _ power
    omega

theorem overflow_eq :
    2 * overflow = magnitude (2 * leadingBit - 1) 971 + above (2 * leadingBit - 1) 971 := by
  have up : (971 : Int) = 970 + (1 : Nat) := rfl
  rw [overflow, above, up, magnitude_add, magnitude_add, leadingBit_eq]
  simp only [magnitude]
  generalize (2 : ℚ) ^ (970 : Int) = unit
  push_cast
  ring

/-- What lies between the middles of a number and its neighbours is nearest to it; the middles
    count as well if the mantissa is even. -/
theorem nearest_of_between (canonical : Canonical mantissa exponent) {q : ℚ}
    (low : below mantissa exponent + magnitude mantissa exponent ≤ 2 * q)
    (high : 2 * q ≤ magnitude mantissa exponent + above mantissa exponent)
    (inside : mantissa % 2 = 1 →
      below mantissa exponent + magnitude mantissa exponent < 2 * q ∧
        2 * q < magnitude mantissa exponent + above mantissa exponent) :
    Nearest q mantissa exponent := by
  have even_of_eq (middle : 2 * q = below mantissa exponent + magnitude mantissa exponent ∨
      2 * q = magnitude mantissa exponent + above mantissa exponent) : mantissa % 2 = 0 := by
    by_contra odd
    have strict := inside (by omega)
    rcases middle with same | same
    · exact absurd same strict.1.ne'
    · exact absurd same strict.2.ne
  have sides (m : Nat) (e : Int) (other : Canonical m e)
      (differs : magnitude m e ≠ magnitude mantissa exponent) :
      |q - magnitude mantissa exponent| ≤ |q - magnitude m e| ∧
        (|q - magnitude m e| = |q - magnitude mantissa exponent| → mantissa % 2 = 0) := by
    rcases lt_or_gt_of_ne differs with less | greater
    · have apart := le_below canonical other less
      have near := dist_le_of_le_middle (q := -q) (neg_lt_neg less) (by linarith)
      rw [neg_sub_neg, neg_sub_neg, abs_sub_comm, abs_sub_comm (magnitude m e)] at near
      refine ⟨near.1, fun same => even_of_eq (.inl ?_)⟩
      have middle := near.2 same
      linarith
    · have apart := above_le canonical other greater
      have near := dist_le_of_le_middle (q := q) greater (by linarith)
      refine ⟨near.1, fun same => even_of_eq (.inr ?_)⟩
      have middle := near.2 same
      linarith
  refine ⟨canonical, ?_, fun m e other => ?_, fun m e other differs => (sides m e other differs).2⟩
  · have limit := overflow_eq
    by_cases largest : magnitude mantissa exponent < magnitude (2 * leadingBit - 1) 971
    · have next := above_le canonical largest_canonical largest
      have room : magnitude (2 * leadingBit - 1) 971 < above (2 * leadingBit - 1) 971 :=
        magnitude_lt_iff.mpr (Nat.lt_succ_self _)
      linarith
    · obtain ⟨rfl, rfl⟩ := eq_largest canonical largest
      have strict := (inside (by decide)).2
      linarith
  · by_cases same : magnitude m e = magnitude mantissa exponent
    · rw [same]
    · exact (sides m e other same).1

end Nearest

end SceneScript.Binary64
