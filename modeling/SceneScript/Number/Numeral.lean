import SceneScript.Number.Binary64
import SceneScript.Text.Blank
import SceneScript.Text.Decimal

/-!
Reading numbers. A numeral is a decimal with an optional sign, point and exponent, or a word for
an infinity or for no number; underscores may stand between digits, blanks around the whole.
-/

namespace SceneScript

inductive Numeral where
  | infinity (negative : Bool)
  | nan
  | decimal (negative : Bool) (digits : List Nat) (exponent : Int)
deriving DecidableEq

namespace Numeral

/-- White space around a numeral; the information separators do not count here. -/
def isPadding (c : Char) : Bool := Text.isBlank c && !(0x1C ≤ c.toNat && c.toNat ≤ 0x1F)

def strip (cs : List Char) : List Char :=
  ((cs.dropWhile isPadding).reverse.dropWhile isPadding).reverse

/-- Digits of other scripts are read as the ASCII ones. -/
def plainDigit (c : Char) : Char :=
  match Text.decimalDigit? c with
  | some n => Nat.digitChar n
  | none => c

/-- Removes underscores, each of which has to stand between two digits. -/
def dropSeparators (afterDigit : Bool) : List Char → Option (List Char)
  | [] => some []
  | ['_'] => none
  | '_' :: c :: cs =>
    if afterDigit && Text.isDigit c then (dropSeparators true cs).map (c :: ·) else none
  | c :: cs => (dropSeparators (Text.isDigit c) cs).map (c :: ·)

/-- Splits a sign off. -/
def readSign : List Char → Bool × List Char
  | '-' :: cs => (true, cs)
  | '+' :: cs => (false, cs)
  | cs => (false, cs)

def digitValue (c : Char) : Nat := c.toNat - '0'.toNat

def natOf (digits : List Nat) : Nat := digits.foldl (fun n d => 10 * n + d) 0

/-- An exponent up to the end of the numeral, zero when there is none. -/
def readExponent? : List Char → Option Int
  | [] => some 0
  | e :: cs =>
    if e = 'e' ∨ e = 'E' then
      let (negative, digits) := readSign cs
      if digits.isEmpty || !digits.all Text.isDigit then none
      else
        let power : Nat := natOf (digits.map digitValue)
        some (if negative then -power else power)
    else none

/-- An unsigned decimal: digits, a point somewhere among them or none, an exponent. -/
def readDecimal? (negative : Bool) (cs : List Char) : Option Numeral :=
  let (whole, rest) := cs.span Text.isDigit
  let (part, rest) :=
    match rest with
    | '.' :: rest => rest.span Text.isDigit
    | _ => ([], rest)
  if whole.isEmpty && part.isEmpty then none
  else (readExponent? rest).map fun power =>
    .decimal negative ((whole ++ part).map digitValue) (power - part.length)

/-- Reads an unsigned word or decimal. -/
def readUnsigned? (negative : Bool) (cs : List Char) : Option Numeral :=
  let word := String.ofList (cs.map Char.toLower)
  if word = "inf" ∨ word = "infinity" then some (.infinity negative)
  else if word = "nan" then some .nan
  else readDecimal? negative cs

def ofText? (text : String) : Option Numeral := do
  let cs ← dropSeparators false ((strip text.toList).map plainDigit)
  let (negative, rest) := readSign cs
  readUnsigned? negative rest

/-- Decimals with a leading digit beyond this exponent round to zero or to an infinity. -/
def farExponent : Int := 400

/-- The binary64 number nearest to a numeral. -/
def value : Numeral → Binary64
  | .infinity negative => .infinite negative
  | .nan => .nan
  | .decimal negative digits exponent =>
    let significant := digits.dropWhile (· == 0)
    let leading : Int := significant.length + exponent
    if significant.isEmpty ∨ leading < -farExponent then Binary64.nearest negative 0 1
    else if farExponent < leading then .infinite negative
    else
      match exponent with
      | .ofNat up => Binary64.nearest negative (natOf significant * Nat.pow 10 up) 1
      | .negSucc down => Binary64.nearest negative (natOf significant) (Nat.pow 10 (down + 1))

end Numeral

end SceneScript
