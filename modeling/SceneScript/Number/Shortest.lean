import SceneScript.Number.Binary64

/-!
Shortest decimals: the fewest digits that lie close enough to a binary64 number to round to it,
and of those the nearest to it.
-/

namespace SceneScript

/-- `digits * 10 ^ exponent`. -/
structure Decimal where
  digits : Nat
  exponent : Int
deriving DecidableEq

namespace Decimal

/-- A positive fraction of two natural numbers, compared with decimals exactly. -/
structure Ratio where
  num : Nat
  den : Nat

def Ratio.le (a b : Ratio) : Bool := a.num * b.den ≤ b.num * a.den

def Ratio.lt (a b : Ratio) : Bool := a.num * b.den < b.num * a.den

def toRatio (d : Decimal) : Ratio :=
  match d.exponent with
  | .ofNat up => ⟨d.digits * Nat.pow 10 up, 1⟩
  | .negSucc down => ⟨d.digits, Nat.pow 10 (down + 1)⟩

def ratioOf (mantissa : Nat) (exponent : Int) : Ratio :=
  let (num, den) := Binary64.fraction mantissa exponent
  ⟨num, den⟩

/-- The numbers that round to `mantissa * 2 ^ exponent`: from half way to the number below up
    to half way to the one above, both ends included when the mantissa is even. -/
structure Interval where
  low : Ratio
  high : Ratio
  closed : Bool

def roundingInterval (mantissa : Nat) (exponent : Int) : Interval :=
  let low :=
    if mantissa = Binary64.leadingBit ∧ -1074 < exponent then
      ratioOf (4 * mantissa - 1) (exponent - 2)
    else ratioOf (2 * mantissa - 1) (exponent - 1)
  ⟨low, ratioOf (2 * mantissa + 1) (exponent - 1), mantissa % 2 == 0⟩

def Interval.contains (i : Interval) (r : Ratio) : Bool :=
  if i.closed then i.low.le r && r.le i.high else i.low.lt r && r.lt i.high

/-- The exponent of the leading digit of a positive number. -/
def leadingExponent (mantissa : Nat) (exponent : Int) : Int :=
  let guess := (exponent + mantissa.log2) * 30103 / 100000
  if (toRatio ⟨1, guess + 1⟩).le (ratioOf mantissa exponent) then guess + 1 else guess

/-- The largest multiple of `10 ^ exponent` that is at most `r`, in those units. -/
def floorAt (r : Ratio) (exponent : Int) : Nat :=
  match exponent with
  | .ofNat up => r.num / (r.den * Nat.pow 10 up)
  | .negSucc down => r.num * Nat.pow 10 (down + 1) / r.den

/-- Of the two neighbours of `r` in units of `10 ^ exponent`, the one in the interval; of two,
    the nearer; of two as near, the even one. -/
def pickAt? (i : Interval) (r : Ratio) (exponent : Int) : Option Decimal :=
  let below : Decimal := ⟨floorAt r exponent, exponent⟩
  let above : Decimal := ⟨below.digits + 1, exponent⟩
  match i.contains below.toRatio, i.contains above.toRatio with
  | false, false => none
  | true, false => some below
  | false, true => some above
  | true, true =>
    let middle := toRatio ⟨(2 * below.digits + 1) * 5, exponent - 1⟩
    if r.lt middle then some below
    else if middle.lt r then some above
    else if below.digits % 2 = 0 then some below
    else some above

/-- The first grid, from `count` digits on, that has a decimal in the interval. -/
def pickFrom (i : Interval) (r : Ratio) (leading : Int) : Nat → Nat → Decimal
  | 0, count => ⟨floorAt r (leading + 1 - count), leading + 1 - count⟩
  | tries + 1, count =>
    match pickAt? i r (leading + 1 - count) with
    | some d => d
    | none => pickFrom i r leading tries (count + 1)

/-- The shortest decimal that rounds to the positive number `mantissa * 2 ^ exponent`. -/
def shortest (mantissa : Nat) (exponent : Int) : Decimal :=
  pickFrom (roundingInterval mantissa exponent) (ratioOf mantissa exponent)
    (leadingExponent mantissa exponent) 17 1

end Decimal

end SceneScript
