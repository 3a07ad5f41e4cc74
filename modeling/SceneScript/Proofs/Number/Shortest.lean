import Mathlib.Tactic.SplitIfs
import SceneScript.Number.Shortest
import SceneScript.Proofs.Number.Magnitudes

/-!
The shortest decimal of a number stands for it: of all numbers, the number is nearest to the
decimal. Seventeen digits are enough to find one.
-/

namespace SceneScript.Decimal

open Binary64

section Ratios

def Ratio.amount (r : Ratio) : ℚ := r.num / r.den

variable {a b : Ratio}

theorem Ratio.le_iff (left : 0 < a.den) (right : 0 < b.den) :
    a.le b = true ↔ a.amount ≤ b.amount := by
  have left' : (0 : ℚ) < a.den := by exact_mod_cast left
  have right' : (0 : ℚ) < b.den := by exact_mod_cast right
  rw [Ratio.le, decide_eq_true_eq, amount, amount, div_le_div_iff₀ left' right']
  exact_mod_cast Iff.rfl

theorem Ratio.lt_iff (left : 0 < a.den) (right : 0 < b.den) :
    a.lt b = true ↔ a.amount < b.amount := by
  have left' : (0 : ℚ) < a.den := by exact_mod_cast left
  have right' : (0 : ℚ) < b.den := by exact_mod_cast right
  rw [Ratio.lt, decide_eq_true_eq, amount, amount, div_lt_div_iff₀ left' right']
  exact_mod_cast Iff.rfl

/-- The amount of a decimal. -/
def amount (d : Decimal) : ℚ := d.digits * (10 : ℚ) ^ d.exponent

theorem den_toRatio_pos (d : Decimal) : 0 < d.toRatio.den := by
  unfold toRatio
  split
  · exact Nat.one_pos
  · exact Nat.pow_pos (by decide)

theorem amount_toRatio (d : Decimal) : d.toRatio.amount = d.amount := by
  obtain ⟨digits, exponent⟩ := d
  cases exponent with
  | ofNat up => simp [toRatio, Ratio.amount, amount]
  | negSucc down => simp [toRatio, Ratio.amount, amount, zpow_negSucc, div_eq_mul_inv]

theorem den_ratioOf_pos (mantissa : Nat) (exponent : Int) : 0 < (ratioOf mantissa exponent).den :=
  den_fraction_pos mantissa exponent

theorem amount_ratioOf (mantissa : Nat) (exponent : Int) :
    (ratioOf mantissa exponent).amount = magnitude mantissa exponent :=
  fraction_eq_magnitude mantissa exponent

end Ratios

section Intervals

variable {mantissa : Nat} {exponent : Int}

theorem two_mul_high (mantissa : Nat) (exponent : Int) :
    2 * magnitude (2 * mantissa + 1) (exponent - 1) =
      magnitude mantissa exponent + above mantissa exponent := by
  have up : exponent = exponent - 1 + (1 : Nat) := by omega
  rw [above]
  conv => rhs; rw [up, magnitude_add, magnitude_add]
  simp only [magnitude]
  push_cast
  ring

/-- The lower end of the interval is half way to the number before. -/
theorem two_mul_low (positive : 0 < mantissa) :
    2 * (roundingInterval mantissa exponent).low.amount =
      below mantissa exponent + magnitude mantissa exponent := by
  obtain ⟨m, rfl⟩ : ∃ m, mantissa = m + 1 := ⟨mantissa - 1, by omega⟩
  rw [roundingInterval, below]
  by_cases boundary : m + 1 = leadingBit ∧ -1074 < exponent
  · have up : exponent = exponent - 2 + (2 : Nat) := by omega
    have next : exponent - 1 = exponent - 2 + (1 : Nat) := by omega
    have quarter : 4 * (m + 1) - 1 = 4 * m + 3 := by omega
    have half : 2 * (m + 1) - 1 = 2 * m + 1 := by omega
    simp only [if_pos boundary, amount_ratioOf, quarter, half]
    conv => rhs; rw [next, magnitude_add, up, magnitude_add, ← up]
    simp only [magnitude]
    push_cast
    ring
  · have up : exponent = exponent - 1 + (1 : Nat) := by omega
    have half : 2 * (m + 1) - 1 = 2 * m + 1 := by omega
    simp only [if_neg boundary, amount_ratioOf, half, Nat.add_sub_cancel]
    conv => rhs; rw [up, magnitude_add, magnitude_add]
    simp only [magnitude]
    push_cast
    ring

theorem contains_iff (i : Interval) {r : Ratio} (low : 0 < i.low.den) (high : 0 < i.high.den)
    (den : 0 < r.den) :
    i.contains r = true ↔
      if i.closed then i.low.amount ≤ r.amount ∧ r.amount ≤ i.high.amount
      else i.low.amount < r.amount ∧ r.amount < i.high.amount := by
  rw [Interval.contains]
  split
  · rw [Bool.and_eq_true, Ratio.le_iff low den, Ratio.le_iff den high]
  · rw [Bool.and_eq_true, Ratio.lt_iff low den, Ratio.lt_iff den high]

/-- The decimals of the interval of a number lie between the middles to its neighbours. -/
theorem contains_roundingInterval_iff (positive : 0 < mantissa) (d : Decimal) :
    (roundingInterval mantissa exponent).contains d.toRatio = true ↔
      if mantissa % 2 = 0 then
        below mantissa exponent + magnitude mantissa exponent ≤ 2 * d.amount ∧
          2 * d.amount ≤ magnitude mantissa exponent + above mantissa exponent
      else
        below mantissa exponent + magnitude mantissa exponent < 2 * d.amount ∧
          2 * d.amount < magnitude mantissa exponent + above mantissa exponent := by
  have low : 0 < (roundingInterval mantissa exponent).low.den := by
    rw [roundingInterval]
    dsimp only
    split <;> exact den_ratioOf_pos _ _
  have high : (roundingInterval mantissa exponent).high.amount =
      magnitude (2 * mantissa + 1) (exponent - 1) := amount_ratioOf _ _
  have closed : (roundingInterval mantissa exponent).closed = (mantissa % 2 == 0) := rfl
  rw [contains_iff _ low (den_ratioOf_pos _ _) (den_toRatio_pos d), amount_toRatio, high, closed,
    ← two_mul_low positive, ← two_mul_high]
  simp only [beq_iff_eq, mul_le_mul_iff_right₀ (two_pos (α := ℚ)),
    mul_lt_mul_iff_right₀ (two_pos (α := ℚ))]

theorem nearest_of_contains (canonical : Canonical mantissa exponent) (positive : 0 < mantissa)
    {d : Decimal} (inside : (roundingInterval mantissa exponent).contains d.toRatio = true) :
    Nearest d.amount mantissa exponent := by
  rw [contains_roundingInterval_iff positive] at inside
  split at inside
  · rename_i even
    exact nearest_of_between canonical inside.1 inside.2 fun odd => by omega
  · exact nearest_of_between canonical inside.1.le inside.2.le fun _ => inside

end Intervals

section Grids

variable {i : Interval} {r : Ratio} {exponent leading : Int}

/-- The multiple that the grid offers lies at most one step below. -/
theorem floorAt_bounds (den : 0 < r.den) (exponent : Int) :
    amount ⟨floorAt r exponent, exponent⟩ ≤ r.amount ∧
      r.amount < amount ⟨floorAt r exponent + 1, exponent⟩ := by
  have positive : (0 : ℚ) < r.den := by exact_mod_cast den
  have step : (0 : ℚ) < (10 : ℚ) ^ exponent := by positivity
  rw [amount, amount, Ratio.amount]
  cases exponent with
  | ofNat up =>
    have width : 0 < r.den * 10 ^ up := by positivity
    have least := Nat.div_mul_le_self r.num (r.den * 10 ^ up)
    have most := Nat.lt_div_mul_add (a := r.num) width
    have same : floorAt r (.ofNat up) = r.num / (r.den * 10 ^ up) := rfl
    rw [same, le_div_iff₀ positive, div_lt_iff₀ positive]
    simp only [Int.ofNat_eq_natCast, zpow_natCast]
    constructor
    · rw [mul_assoc, mul_comm ((10 : ℚ) ^ up)]
      exact_mod_cast least
    · rw [mul_assoc, mul_comm ((10 : ℚ) ^ up)]
      push_cast
      rw [add_mul, one_mul]
      exact_mod_cast most
  | negSucc down =>
    have least := Nat.div_mul_le_self (r.num * 10 ^ (down + 1)) r.den
    have most := Nat.lt_div_mul_add (a := r.num * 10 ^ (down + 1)) den
    have same : floorAt r (.negSucc down) = r.num * 10 ^ (down + 1) / r.den := rfl
    have scale : (0 : ℚ) < 10 ^ (down + 1) := by positivity
    rw [same, zpow_negSucc, ← div_eq_mul_inv, ← div_eq_mul_inv, div_le_div_iff₀ scale positive,
      div_lt_div_iff₀ positive scale]
    constructor
    · exact_mod_cast least
    · push_cast
      rw [add_mul, one_mul]
      exact_mod_cast most

theorem contains_of_pickAt? {d : Decimal} (picked : pickAt? i r exponent = some d) :
    i.contains d.toRatio = true := by
  rw [pickAt?] at picked
  dsimp only at picked
  split at picked
  · cases picked
  · rename_i inside _
    cases picked
    exact inside
  · rename_i inside
    cases picked
    exact inside
  · rename_i first second
    split_ifs at picked <;> cases picked <;> assumption

theorem pickAt?_isSome
    (either : i.contains (toRatio ⟨floorAt r exponent, exponent⟩) = true ∨
      i.contains (toRatio ⟨floorAt r exponent + 1, exponent⟩) = true) :
    (pickAt? i r exponent).isSome = true := by
  rw [pickAt?]
  dsimp only
  split
  · rename_i first second
    rw [first, second] at either
    exact absurd either (by decide)
  · rfl
  · rfl
  · split_ifs <;> rfl

/-- If a grid has a decimal, the search ends with a decimal. -/
theorem contains_pickFrom {n tries count : Nat} (enough : n < tries)
    (there : (pickAt? i r (leading + 1 - (count + n : Nat))).isSome = true) :
    i.contains (pickFrom i r leading tries count).toRatio = true := by
  induction tries generalizing n count with
  | zero => omega
  | succ tries ih =>
    rw [pickFrom]
    split
    · rename_i d picked
      exact contains_of_pickAt? picked
    · rename_i none
      cases n with
      | zero =>
        rw [Nat.add_zero, none] at there
        cases there
      | succ n =>
        have same : count + (n + 1) = count + 1 + n := by omega
        rw [same] at there
        exact ih (by omega) there

end Grids

section Digits

variable {mantissa : Nat} {exponent : Int}

/-- In the range of the exponents, 30103 / 100000 is close enough to the logarithm of two. -/
theorem powers_checked : ∀ j < 1100, 10 ^ (j * 30103 / 100000) ≤ 2 ^ j ∧
    2 ^ j ≤ 10 ^ ((j * 30103 + 99999) / 100000) := by
  decide +kernel

theorem ten_zpow_le {k : Int} (least : -1100 < k) (most : k < 1100) :
    (10 : ℚ) ^ (k * 30103 / 100000) ≤ (2 : ℚ) ^ k := by
  rcases Int.le_total 0 k with up | down
  · obtain ⟨j, rfl⟩ := Int.eq_ofNat_of_zero_le up
    have checked := (powers_checked j (by omega)).1
    have floor : (j : Int) * 30103 / 100000 = (j * 30103 / 100000 : Nat) := by omega
    rw [floor, zpow_natCast, zpow_natCast]
    exact_mod_cast checked
  · obtain ⟨j, rfl⟩ : ∃ j : Nat, k = -j := ⟨(-k).toNat, by omega⟩
    have checked := (powers_checked j (by omega)).2
    have floor : -(j : Int) * 30103 / 100000 = -((j * 30103 + 99999) / 100000 : Nat) := by omega
    rw [floor, zpow_neg, zpow_neg, zpow_natCast, zpow_natCast]
    exact inv_anti₀ (by positivity) (by exact_mod_cast checked)

/-- The leading digit is not placed too high. -/
theorem ten_zpow_leadingExponent_le (canonical : Canonical mantissa exponent)
    (positive : 0 < mantissa) :
    (10 : ℚ) ^ leadingExponent mantissa exponent ≤ magnitude mantissa exponent := by
  have one (power : Int) : (toRatio ⟨1, power⟩).amount = (10 : ℚ) ^ power := by
    rw [amount_toRatio, amount, Nat.cast_one, one_mul]
  rw [leadingExponent]
  split
  · rename_i higher
    rwa [Ratio.le_iff (den_toRatio_pos _) (den_ratioOf_pos _ _), one, amount_ratioOf] at higher
  · have bits : mantissa.log2 < 53 := by
      have short := canonical.short
      rw [leadingBit_eq] at short
      exact (Nat.log2_lt positive.ne').mpr (by omega)
    have least := canonical.least
    have most := canonical.most
    have front : 2 ^ mantissa.log2 ≤ mantissa := Nat.log2_self_le positive.ne'
    calc (10 : ℚ) ^ ((exponent + mantissa.log2) * 30103 / 100000)
        ≤ (2 : ℚ) ^ (exponent + mantissa.log2) := ten_zpow_le (by omega) (by omega)
      _ = (2 ^ mantissa.log2 : Nat) * (2 : ℚ) ^ exponent := by
        rw [zpow_add₀ two_ne_zero, zpow_natCast, mul_comm, Nat.cast_pow, Nat.cast_ofNat]
      _ ≤ magnitude mantissa exponent := by
        rw [magnitude]
        gcongr

theorem magnitude_succ (mantissa : Nat) (exponent : Int) :
    magnitude (mantissa + 1) exponent = magnitude mantissa exponent + (2 : ℚ) ^ exponent := by
  rw [magnitude, magnitude, Nat.cast_succ, add_mul, one_mul]

theorem below_lt (positive : 0 < mantissa) :
    below mantissa exponent < magnitude mantissa exponent := by
  rw [below]
  split
  · have up : exponent = exponent - 1 + (1 : Nat) := by omega
    conv => rhs; rw [up, magnitude_add]
    rw [magnitude_lt_iff]
    omega
  · rw [magnitude_lt_iff]
    omega

/-- The interval of a number is wider than a step of the grid of seventeen digits. -/
theorem two_mul_step_lt (canonical : Canonical mantissa exponent) (positive : 0 < mantissa) :
    2 * (10 : ℚ) ^ (leadingExponent mantissa exponent - 16) <
      above mantissa exponent - below mantissa exponent := by
  have leading := ten_zpow_leadingExponent_le canonical positive
  have unit : (0 : ℚ) < (2 : ℚ) ^ exponent := by positivity
  have short : (mantissa : ℚ) < 9007199254740992 := by
    have short := canonical.short
    rw [leadingBit_eq] at short
    exact_mod_cast short
  have step : (10 : ℚ) ^ leadingExponent mantissa exponent =
      (10 : ℚ) ^ (leadingExponent mantissa exponent - 16) * 10000000000000000 := by
    rw [zpow_sub₀ (by norm_num)]
    norm_num
  rw [step] at leading
  generalize (10 : ℚ) ^ (leadingExponent mantissa exponent - 16) = s at leading ⊢
  rw [above, magnitude_succ, below]
  split
  · rename_i boundary
    have half : magnitude (2 * mantissa - 1) (exponent - 1) + (2 : ℚ) ^ exponent / 2 =
        magnitude mantissa exponent := by
      have up : exponent = exponent - 1 + (1 : Nat) := by omega
      have next : 2 * mantissa - 1 + 1 = mantissa * 2 ^ 1 := by omega
      conv => rhs; rw [up, magnitude_add, ← next, magnitude_succ]
      rw [zpow_sub_one₀ two_ne_zero, div_eq_mul_inv]
    have value : magnitude mantissa exponent = 4503599627370496 * (2 : ℚ) ^ exponent := by
      rw [magnitude, boundary.1, leadingBit_eq]
      norm_num
    linarith
  · have before := magnitude_succ (mantissa - 1) exponent
    rw [Nat.sub_add_cancel positive] at before
    have bound : magnitude mantissa exponent < 9007199254740992 * (2 : ℚ) ^ exponent := by
      rw [magnitude]
      gcongr
    linarith

theorem amount_succ (n : Nat) (exponent : Int) :
    amount ⟨n + 1, exponent⟩ = amount ⟨n, exponent⟩ + (10 : ℚ) ^ exponent := by
  rw [amount, amount, Nat.cast_succ, add_mul, one_mul]

/-- Seventeen digits are enough. -/
theorem pickAt?_seventeen (canonical : Canonical mantissa exponent) (positive : 0 < mantissa) :
    (pickAt? (roundingInterval mantissa exponent) (ratioOf mantissa exponent)
      (leadingExponent mantissa exponent - 16)).isSome = true := by
  have wide := two_mul_step_lt canonical positive
  have up : magnitude mantissa exponent < above mantissa exponent :=
    magnitude_lt_iff.mpr (Nat.lt_succ_self _)
  have down : below mantissa exponent < magnitude mantissa exponent := below_lt positive
  generalize leadingExponent mantissa exponent - 16 = place at wide ⊢
  obtain ⟨low, high⟩ := floorAt_bounds (den_ratioOf_pos mantissa exponent) place
  rw [amount_ratioOf] at low high
  refine pickAt?_isSome ?_
  rw [contains_roundingInterval_iff positive, contains_roundingInterval_iff positive]
  generalize floorAt (ratioOf mantissa exponent) place = floor at low high ⊢
  rw [amount_succ] at high ⊢
  -- If the lower neighbour on the grid is too low, then the upper one is not too high.
  rcases lt_or_ge (below mantissa exponent + magnitude mantissa exponent)
    (2 * amount ⟨floor, place⟩) with inside | outside
  · left
    split_ifs <;> constructor <;> linarith
  · right
    split_ifs <;> constructor <;> linarith

theorem contains_shortest (canonical : Canonical mantissa exponent) (positive : 0 < mantissa) :
    (roundingInterval mantissa exponent).contains (shortest mantissa exponent).toRatio = true := by
  refine contains_pickFrom (n := 16) (by decide) ?_
  have grid : leadingExponent mantissa exponent + 1 - (1 + 16 : Nat) =
      leadingExponent mantissa exponent - 16 := by omega
  rw [grid]
  exact pickAt?_seventeen canonical positive

/-- A number is the one nearest to its shortest decimal. -/
theorem nearest_shortest (canonical : Canonical mantissa exponent) (positive : 0 < mantissa) :
    Nearest (shortest mantissa exponent).amount mantissa exponent :=
  nearest_of_contains canonical positive (contains_shortest canonical positive)

theorem amount_shortest_pos (canonical : Canonical mantissa exponent) (positive : 0 < mantissa) :
    0 < (shortest mantissa exponent).amount := by
  have inside := contains_shortest canonical positive
  rw [contains_roundingInterval_iff positive] at inside
  have front : 0 ≤ below mantissa exponent := by
    rw [below]
    split <;> exact magnitude_nonneg _ _
  have some : magnitude 0 exponent < magnitude mantissa exponent := magnitude_lt_iff.mpr positive
  have zero : magnitude 0 exponent = 0 := by rw [magnitude, Nat.cast_zero, zero_mul]
  split at inside <;> linarith

end Digits

end SceneScript.Decimal
