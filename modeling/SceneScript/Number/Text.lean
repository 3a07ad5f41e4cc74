import SceneScript.Number.Shortest

/-!
How numbers are written. Programs print integers below 10^21 in full and everything else as its
shortest decimal; scene files always use the shortest decimal.
-/

namespace SceneScript

namespace Decimal

/-- Moves zeros at the end of the digits into the exponent. -/
def trim : List Char → Int → List Char × Int
  | digits, exponent =>
    let zeros := (digits.reverse.takeWhile (· == '0')).length
    (digits.take (digits.length - zeros), exponent + zeros)

/-- Which exponents of the leading digit are written with a point only. -/
def positionalFrom : Int := -4

def positionalBelow : Int := 16

/-- Digits around a point; at least one stands on each side. -/
def positional (digits : List Char) (leading : Int) : List Char :=
  match leading with
  | .ofNat n =>
    let whole := digits.take (n + 1)
    let part := digits.drop (n + 1)
    whole ++ List.replicate (n + 1 - digits.length) '0' ++ ['.'] ++
      (if part.isEmpty then ['0'] else part)
  | .negSucc n => ['0', '.'] ++ List.replicate n '0' ++ digits

/-- One digit before the point, and an exponent of at least two digits with its sign. -/
def scientific (digits : List Char) (leading : Int) : List Char :=
  let power := Nat.toDigits 10 leading.natAbs
  digits.take 1 ++ (if digits.length ≤ 1 then [] else '.' :: digits.drop 1) ++
    ['e', if leading < 0 then '-' else '+'] ++
    (if power.length < 2 then '0' :: power else power)

def text (d : Decimal) : List Char :=
  let (digits, exponent) := trim (Nat.toDigits 10 d.digits) d.exponent
  let leading : Int := exponent + digits.length - 1
  if positionalFrom ≤ leading ∧ leading < positionalBelow then positional digits leading
  else scientific digits leading

end Decimal

namespace Binary64

def signText (negative : Bool) : List Char := if negative then ['-'] else []

/-- The shortest decimal of a finite number; zero keeps its sign. -/
def shortestText (negative : Bool) (mantissa : Nat) (exponent : Int) : List Char :=
  signText negative ++
    (if mantissa = 0 then ['0', '.', '0'] else (Decimal.shortest mantissa exponent).text)

/-- Integers from here on are written as shortest decimals. -/
def integerLimit : Nat := Nat.pow 10 21

/-- How a number is printed. Zero has no sign. -/
def text : Binary64 → String
  | .nan => "NaN"
  | .infinite negative => if negative then "-Infinity" else "Infinity"
  | .finite negative mantissa exponent =>
    String.ofList <|
      match integer? mantissa exponent with
      | some n =>
        if n < integerLimit then signText (negative && n != 0) ++ Nat.toDigits 10 n
        else shortestText negative mantissa exponent
      | none => shortestText negative mantissa exponent

/-- How a number is written in a scene file and in the log, given the spellings of the values
    that are no numerals. -/
def decimalText (nan infinity : String) : Binary64 → String
  | .nan => nan
  | .infinite negative => if negative then "-" ++ infinity else infinity
  | .finite negative mantissa exponent => String.ofList (shortestText negative mantissa exponent)

end Binary64

/-- The text of a number, as programs print it. -/
def numberText (x : Float) : String := (Binary64.ofFloat x).text

end SceneScript
