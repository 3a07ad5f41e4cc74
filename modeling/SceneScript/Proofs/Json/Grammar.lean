import SceneScript.Json.Reader
import SceneScript.Number.Text
import SceneScript.Proofs.Number.Magnitudes

/-!
The grammar of JSON texts, and what each text stands for. A number with a fraction or an exponent
stands for the binary64 number that is nearest to it, and for an infinity if it is beyond all of
them. The loose grammar has words for the infinities and for no number besides, which JSON does not
have.
-/

namespace SceneScript.Json.Grammar

/-- The blanks that may stand around every value and every mark. -/
def Spaces (cs : List Char) : Prop := ∀ c ∈ cs, isSpace c = true

section Numbers

/-- One digit or more. -/
def Digits (cs : List Char) : Prop := cs ≠ [] ∧ ∀ c ∈ cs, Text.isDigit c = true

/-- Digits with no zero in front of others. -/
def Whole (cs : List Char) : Prop := Digits cs ∧ (cs.head? = some '0' → cs.length = 1)

/-- A point and digits, or nothing. -/
inductive Fraction : List Char → List Char → Prop
  | absent : Fraction [] []
  | present {digits : List Char} (some : Digits digits) : Fraction ('.' :: digits) digits

def amountOf (digits : List Char) : Nat := Numeral.natOf (digits.map Numeral.digitValue)

/-- A power of ten, or nothing. -/
inductive Power : List Char → Int → Prop
  | absent : Power [] 0
  | unsigned {mark : Char} {digits : List Char} (known : mark = 'e' ∨ mark = 'E')
      (some : Digits digits) : Power (mark :: digits) (amountOf digits)
  | plus {mark : Char} {digits : List Char} (known : mark = 'e' ∨ mark = 'E')
      (some : Digits digits) : Power (mark :: '+' :: digits) (amountOf digits)
  | minus {mark : Char} {digits : List Char} (known : mark = 'e' ∨ mark = 'E')
      (some : Digits digits) : Power (mark :: '-' :: digits) (-amountOf digits)

/-- The amount of a decimal: digits in front of its point, digits behind it, and a power of ten. -/
def decimalAmount (whole digits : List Char) (shift : Int) : ℚ :=
  amountOf (whole ++ digits) * (10 : ℚ) ^ (shift - digits.length)

/-- The numerals with a fraction or a power of ten, and their amounts. -/
inductive DecimalNumeral : List Char → ℚ → Prop
  | decimal {whole fraction digits power : List Char} {shift : Int} (front : Whole whole)
      (part : Fraction fraction digits) (scale : Power power shift) (some : fraction ++ power ≠ []) :
      DecimalNumeral (whole ++ (fraction ++ power)) (decimalAmount whole digits shift)

inductive Number : List Char → Json → Prop
  | integer (negative : Bool) {whole : List Char} (digits : Whole whole) :
      Number (Binary64.signText negative ++ whole)
        (.int (if negative then -amountOf whole else amountOf whole))
  | decimal (negative : Bool) {numeral : List Char} {amount : ℚ} {mantissa : Nat} {exponent : Int}
      (written : DecimalNumeral numeral amount)
      (nearest : Binary64.Nearest amount mantissa exponent) :
      Number (Binary64.signText negative ++ numeral) (.float (.finite negative mantissa exponent))
  | huge (negative : Bool) {numeral : List Char} {amount : ℚ}
      (written : DecimalNumeral numeral amount) (far : Binary64.overflow ≤ amount) :
      Number (Binary64.signText negative ++ numeral) (.float (.infinite negative))

/-- The words for what is no finite number. -/
inductive Word : List Char → Binary64 → Prop
  | nan : Word "NaN".toList .nan
  | infinity : Word "Infinity".toList (.infinite false)
  | minusInfinity : Word "-Infinity".toList (.infinite true)

end Numbers

/-- The characters between the quotes of a string, and those that they stand for. -/
inductive Characters : List Char → List Char → Prop
  | nil : Characters [] []
  | plain {c : Char} {cs s : List Char} (quote : c ≠ '"') (backslash : c ≠ '\\')
      (visible : 0x20 ≤ c.toNat) (rest : Characters cs s) : Characters (c :: cs) (c :: s)
  | short {e c : Char} {cs s : List Char} (known : shortEscape? e = some c)
      (rest : Characters cs s) : Characters ('\\' :: e :: cs) (c :: s)
  | unit {digits : List Char} {c : Char} {cs s : List Char}
      (read : readUnit? digits = some (c.toNat, [])) (rest : Characters cs s) :
      Characters ('\\' :: 'u' :: (digits ++ cs)) (c :: s)
  | pair {highDigits lowDigits : List Char} {high low : Nat} {c : Char} {cs s : List Char}
      (readHigh : readUnit? highDigits = some (high, []))
      (readLow : readUnit? lowDigits = some (low, []))
      (isHigh : 0xD800 ≤ high ∧ high < 0xDC00) (isLow : 0xDC00 ≤ low ∧ low < 0xE000)
      (whole : c.toNat = 0x10000 + (high - 0xD800) * 0x400 + (low - 0xDC00))
      (rest : Characters cs s) :
      Characters ('\\' :: 'u' :: (highDigits ++ '\\' :: 'u' :: (lowDigits ++ cs))) (c :: s)

/-- A string with its quotes. -/
inductive Quoted : List Char → String → Prop
  | quoted {cs s : List Char} (inside : Characters cs s) :
      Quoted ('"' :: (cs ++ ['"'])) (String.ofList s)

mutual

inductive Value (loose : Bool) : List Char → Json → Prop
  | null : Value loose "null".toList .null
  | yes : Value loose "true".toList (.bool true)
  | no : Value loose "false".toList (.bool false)
  | number {cs : List Char} {j : Json} (number : Number cs j) : Value loose cs j
  | word {cs : List Char} {x : Binary64} (allowed : loose = true) (word : Word cs x) :
      Value loose cs (.float x)
  | string {cs : List Char} {s : String} (quoted : Quoted cs s) : Value loose cs (.string s)
  | emptyArray {blanks : List Char} (spaces : Spaces blanks) :
      Value loose ('[' :: (blanks ++ [']'])) (.array [])
  | array {cs : List Char} {items : List Json} (inside : Items loose cs items) :
      Value loose ('[' :: (cs ++ [']'])) (.array items)
  | emptyObject {blanks : List Char} (spaces : Spaces blanks) :
      Value loose ('\x7b' :: (blanks ++ ['\x7d'])) (.object [])
  | object {cs : List Char} {fields : List (String × Json)} (inside : Members loose cs fields) :
      Value loose ('\x7b' :: (cs ++ ['\x7d'])) (.object fields)

inductive Items (loose : Bool) : List Char → List Json → Prop
  | last {before cs behind : List Char} {item : Json} (front : Spaces before)
      (value : Value loose cs item) (back : Spaces behind) :
      Items loose (before ++ (cs ++ behind)) [item]
  | more {before cs behind rest : List Char} {item : Json} {items : List Json}
      (front : Spaces before) (value : Value loose cs item) (back : Spaces behind)
      (others : Items loose rest items) :
      Items loose (before ++ (cs ++ (behind ++ ',' :: rest))) (item :: items)

inductive Member (loose : Bool) : List Char → String × Json → Prop
  | member {before name behind front cs back : List Char} {key : String} {value : Json}
      (spaces : Spaces before ∧ Spaces behind ∧ Spaces front ∧ Spaces back)
      (named : Quoted name key) (holds : Value loose cs value) :
      Member loose (before ++ (name ++ (behind ++ ':' :: (front ++ (cs ++ back))))) (key, value)

inductive Members (loose : Bool) : List Char → List (String × Json) → Prop
  | last {cs : List Char} {field : String × Json} (member : Member loose cs field) :
      Members loose cs [field]
  | more {cs rest : List Char} {field : String × Json} {fields : List (String × Json)}
      (member : Member loose cs field) (others : Members loose rest fields) :
      Members loose (cs ++ ',' :: rest) (field :: fields)

end

/-- A text that holds one value. -/
inductive Document (loose : Bool) : String → Json → Prop
  | document {before cs behind : List Char} {j : Json} (front : Spaces before)
      (value : Value loose cs j) (back : Spaces behind) :
      Document loose (String.ofList (before ++ (cs ++ behind))) j

end SceneScript.Json.Grammar
