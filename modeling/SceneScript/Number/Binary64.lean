/-!
The parts of a binary64 number, and rounding of fractions to one. A finite number is
`mantissa * 2 ^ exponent` with a sign; the exponent is never below -1074.
-/

namespace SceneScript

inductive Binary64 where
  | nan
  | infinite (negative : Bool)
  | finite (negative : Bool) (mantissa : Nat) (exponent : Int)
deriving DecidableEq

namespace Binary64

/-- `2 ^ 52`: the bits of a fraction lie below it, and a mantissa from it on has all 53 bits. -/
def leadingBit : Nat := 1 <<< 52

/-- Reads the 64 bits: sign, eleven bits of exponent, 52 bits of fraction. -/
def ofBits (bits : Nat) : Binary64 :=
  let negative := bits.testBit 63
  let power : Nat := bits / leadingBit % 2048
  let fraction := bits % leadingBit
  if power = 2047 then
    if fraction = 0 then .infinite negative else .nan
  else if power = 0 then .finite negative fraction (-1074)
  else .finite negative (leadingBit + fraction) ((power : Int) - 1075)

def ofFloat (x : Float) : Binary64 := ofBits x.toBits.toNat

/-- `mantissa * 2 ^ exponent` as a fraction. -/
def fraction (mantissa : Nat) (exponent : Int) : Nat × Nat :=
  match exponent with
  | .ofNat up => (mantissa <<< up, 1)
  | .negSucc down => (mantissa, 1 <<< (down + 1))

/-- The integer `mantissa * 2 ^ exponent`, if it is one. -/
def integer? (mantissa : Nat) (exponent : Int) : Option Nat :=
  let (num, den) := fraction mantissa exponent
  if num % den = 0 then some (num / den) else none

/-- The quotient rounded to the nearest integer, a half to the even one. -/
def roundQuotient (num den : Nat) : Nat :=
  let quotient := num / den
  let twice := 2 * (num % den)
  if den < twice ∨ (den = twice ∧ quotient % 2 = 1) then quotient + 1 else quotient

/-- `num / den` in units of `2 ^ exponent`. -/
def scale (num den : Nat) (exponent : Int) : Nat × Nat :=
  match exponent with
  | .ofNat up => (num, den <<< up)
  | .negSucc down => (num <<< (down + 1), den)

/-- The exponent of the unit in which a positive `num / den` is written: the mantissa then has
    53 bits, or the exponent is the least one. -/
def unitExponent (num den : Nat) : Int :=
  let guess : Int := max ((num.log2 : Int) - den.log2 - 52) (-1074)
  let (n, d) := scale num den guess
  if n / d < leadingBit ∧ -1074 < guess then guess - 1 else guess

/-- The bits of the positive infinity; those of every positive number lie below them. -/
def infinityBits : Nat := 2047 * leadingBit

/-- The bits of a positive number. -/
def finiteBits (mantissa : Nat) (exponent : Int) : Nat :=
  if mantissa < leadingBit then mantissa
  else (exponent + 1075).toNat * leadingBit + (mantissa - leadingBit)

/-- The bits of the positive number nearest to `num / den`, a half going to the even mantissa. -/
def nearestBits (num den : Nat) : Nat :=
  if num = 0 then 0
  else
    let exponent := unitExponent num den
    let (n, d) := scale num den exponent
    min (finiteBits (roundQuotient n d) exponent) infinityBits

def signBit (negative : Bool) : Nat := if negative then 1 <<< 63 else 0

def bits : Binary64 → Nat
  | .nan => infinityBits + (1 <<< 51)
  | .infinite negative => signBit negative + infinityBits
  | .finite negative mantissa exponent => signBit negative + finiteBits mantissa exponent

def toFloat (x : Binary64) : Float := Float.ofBits (UInt64.ofNat x.bits)

/-- The number nearest to `num / den` with the given sign. -/
def nearest (negative : Bool) (num den : Nat) : Binary64 :=
  ofBits (signBit negative + nearestBits num den)

/-- The number nearest to an integer, unless that is infinite. -/
def ofInt? (n : Int) : Option Binary64 :=
  match nearest (n < 0) n.natAbs 1 with
  | .finite negative mantissa exponent => some (.finite negative mantissa exponent)
  | _ => none

/-- The integer that a number is, if it is one. -/
def toInt? : Binary64 → Option Int
  | .finite negative mantissa exponent =>
    (integer? mantissa exponent).map fun n => if negative then -n else n
  | _ => none

/-- The number nearest to one more. -/
def next : Binary64 → Binary64
  | .finite negative mantissa exponent =>
    let (num, den) := fraction mantissa exponent
    if negative then
      if num ≤ den then nearest false (den - num) den else nearest true (num - den) den
    else nearest false (num + den) den
  | x => x

def plus (x y : Binary64) : Binary64 := ofFloat (x.toFloat + y.toFloat)

def times (x y : Binary64) : Binary64 := ofFloat (x.toFloat * y.toFloat)

/-- Whether a number lies below a count. -/
def isBelow (x : Binary64) (n : Nat) : Bool :=
  match x with
  | .nan => false
  | .infinite negative => negative
  | .finite negative mantissa exponent =>
    let (num, den) := fraction mantissa exponent
    if negative && num != 0 then true else num < n * den

/-- Whether a number lies below a count or is equal to it. -/
def isAtMost (x : Binary64) (n : Nat) : Bool :=
  match x with
  | .nan => false
  | .infinite negative => negative
  | .finite negative mantissa exponent =>
    let (num, den) := fraction mantissa exponent
    negative || num ≤ n * den

end Binary64

end SceneScript
