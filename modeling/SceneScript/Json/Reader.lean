import SceneScript.Json.Basic
import SceneScript.Number.Numeral
import SceneScript.Text.Blank

/-!
Reading JSON. The words that stand for infinities and for no number are read too. Every reader
returns what it read and what is left.
-/

namespace SceneScript

namespace Json

def isSpace (c : Char) : Bool := c == ' ' || c == '\t' || c == '\n' || c == '\r'

def skipSpace (cs : List Char) : List Char := cs.dropWhile isSpace

def hexValue? (c : Char) : Option Nat :=
  if '0' ≤ c ∧ c ≤ '9' then some (c.toNat - '0'.toNat)
  else if 'a' ≤ c ∧ c ≤ 'f' then some (c.toNat - 'a'.toNat + 10)
  else if 'A' ≤ c ∧ c ≤ 'F' then some (c.toNat - 'A'.toNat + 10)
  else none

/-- Four hexadecimal digits. -/
def readUnit? : List Char → Option (Nat × List Char)
  | a :: b :: c :: d :: rest => do
    let a ← hexValue? a
    let b ← hexValue? b
    let c ← hexValue? c
    let d ← hexValue? d
    return (((a * 16 + b) * 16 + c) * 16 + d, rest)
  | _ => none

/-- What a backslash and one character stand for. -/
def shortEscape? (c : Char) : Option Char :=
  match c with
  | '"' => some '"'
  | '\\' => some '\\'
  | '/' => some '/'
  | 'b' => some '\x08'
  | 'f' => some '\x0c'
  | 'n' => some '\n'
  | 'r' => some '\r'
  | 't' => some '\t'
  | _ => none

/-- The low half of a pair of UTF-16 units behind a high one. -/
def readLowUnit? (high : Nat) : List Char → Option (Char × List Char)
  | '\\' :: 'u' :: rest => do
    let (low, rest) ← readUnit? rest
    if 0xDC00 ≤ low ∧ low < 0xE000 then
      return (Char.ofNat (0x10000 + (high - 0xD800) * 0x400 + (low - 0xDC00)), rest)
    else none
  | _ => none

/-- The character of an escape whose unit was read; half a pair becomes U+FFFD. -/
def finishUnit (unit : Nat) (rest : List Char) : Char × List Char :=
  if 0xD800 ≤ unit ∧ unit < 0xDC00 then
    (readLowUnit? unit rest).getD ('\uFFFD', rest)
  else if 0xDC00 ≤ unit ∧ unit < 0xE000 then ('\uFFFD', rest)
  else (Char.ofNat unit, rest)

/-- The rest of a string behind its opening quote. -/
def readString? : Nat → List Char → Option (List Char × List Char)
  | 0, _ => none
  | _ + 1, [] => none
  | fuel + 1, c :: cs =>
    if c = '"' then some ([], cs)
    else if c = '\\' then
      match cs with
      | 'u' :: rest => do
        let (unit, rest) ← readUnit? rest
        let (c, rest) := finishUnit unit rest
        let (body, rest) ← readString? fuel rest
        return (c :: body, rest)
      | e :: rest => do
        let c ← shortEscape? e
        let (body, rest) ← readString? fuel rest
        return (c :: body, rest)
      | [] => none
    else if c.toNat < 0x20 then none
    else do
      let (body, rest) ← readString? fuel cs
      return (c :: body, rest)

/-- Digits behind a point. -/
def readFraction : List Char → List Char × List Char
  | '.' :: cs =>
    let (digits, rest) := cs.span Text.isDigit
    if digits.isEmpty then ([], '.' :: cs) else ('.' :: digits, rest)
  | cs => ([], cs)

/-- An exponent. -/
def readPower : List Char → List Char × List Char
  | [] => ([], [])
  | e :: cs =>
    if e = 'e' ∨ e = 'E' then
      let (sign, behind) :=
        match cs with
        | '+' :: rest => (['+'], rest)
        | '-' :: rest => (['-'], rest)
        | rest => ([], rest)
      let (digits, rest) := behind.span Text.isDigit
      if digits.isEmpty then ([], e :: cs) else (e :: sign ++ digits, rest)
    else ([], e :: cs)

/-- Why a text is not read. -/
inductive ReadFault where
  /-- It is no JSON. -/
  | malformed
  /-- An integer has more digits than are read. -/
  | hugeInteger
deriving DecidableEq

/-- Something that is there, or a malformed text. -/
def expect {α : Type} (found : Option α) : Except ReadFault α :=
  match found with
  | some result => .ok result
  | none => .error .malformed

/-- A number without its sign. -/
def readUnsigned (negative : Bool) (cs : List Char) : Except ReadFault (Json × List Char) :=
  let (whole, rest) :=
    match cs with
    | '0' :: rest => (['0'], rest)
    | _ => cs.span Text.isDigit
  if whole.isEmpty then .error .malformed
  else
    let (part, rest) := readFraction rest
    let (power, rest) := readPower rest
    if part.isEmpty && power.isEmpty then
      if digitLimit < whole.length then .error .hugeInteger
      else
        let n := Numeral.natOf (whole.map Numeral.digitValue)
        .ok (.int (if negative then -n else n), rest)
    else
      expect ((Numeral.readDecimal? negative (whole ++ part ++ power)).map fun n =>
        (.float n.value, rest))

/-- A word at the front. -/
def readWord (word : List Char) (value : Json) (cs : List Char) :
    Except ReadFault (Json × List Char) :=
  if word.isPrefixOf cs then .ok (value, cs.drop word.length) else .error .malformed

/-- A number or one of the words. -/
def readScalar (cs : List Char) : Except ReadFault (Json × List Char) :=
  match cs with
  | 'n' :: _ => readWord ['n', 'u', 'l', 'l'] .null cs
  | 't' :: _ => readWord ['t', 'r', 'u', 'e'] (.bool true) cs
  | 'f' :: _ => readWord ['f', 'a', 'l', 's', 'e'] (.bool false) cs
  | 'N' :: _ => readWord ['N', 'a', 'N'] (.float .nan) cs
  | 'I' :: _ => readWord ['I', 'n', 'f', 'i', 'n', 'i', 't', 'y'] (.float (.infinite false)) cs
  | '-' :: 'I' :: rest =>
    readWord ['I', 'n', 'f', 'i', 'n', 'i', 't', 'y'] (.float (.infinite true)) ('I' :: rest)
  | '-' :: rest => readUnsigned true rest
  | _ => readUnsigned false cs

mutual

/-- A value, which starts right here. -/
def readValue : Nat → List Char → Except ReadFault (Json × List Char)
  | 0, _ => .error .malformed
  | fuel + 1, cs =>
    match cs with
    | '"' :: rest => do
      let (s, rest) ← expect (readString? fuel rest)
      return (.string (String.ofList s), rest)
    | '[' :: rest =>
      match skipSpace rest with
      | ']' :: rest => .ok (.array [], rest)
      | rest => do
        let (items, rest) ← readItems fuel rest
        return (.array items, rest)
    | '\x7b' :: rest =>
      match skipSpace rest with
      | '\x7d' :: rest => .ok (.object [], rest)
      | rest => do
        let (fields, rest) ← readFields fuel rest
        return (ofFields fields, rest)
    | _ => readScalar cs

/-- Items up to the closing bracket. -/
def readItems : Nat → List Char → Except ReadFault (List Json × List Char)
  | 0, _ => .error .malformed
  | fuel + 1, cs => do
    let (item, rest) ← readValue fuel cs
    match skipSpace rest with
    | ',' :: rest =>
      let (items, rest) ← readItems fuel (skipSpace rest)
      return (item :: items, rest)
    | ']' :: rest => return ([item], rest)
    | _ => .error .malformed

/-- Fields up to the closing brace. -/
def readFields : Nat → List Char → Except ReadFault (List (String × Json) × List Char)
  | 0, _ => .error .malformed
  | fuel + 1, cs =>
    match cs with
    | '"' :: rest => do
      let (key, rest) ← expect (readString? fuel rest)
      match skipSpace rest with
      | ':' :: rest => do
        let (value, rest) ← readValue fuel (skipSpace rest)
        match skipSpace rest with
        | ',' :: rest =>
          let (fields, rest) ← readFields fuel (skipSpace rest)
          return ((String.ofList key, value) :: fields, rest)
        | '\x7d' :: rest => return ([(String.ofList key, value)], rest)
        | _ => .error .malformed
      | _ => .error .malformed
    | _ => .error .malformed

end

/-- Reads a text that holds one value and nothing else. -/
def ofText (text : String) : Except ReadFault Json := do
  let cs := text.toList
  let (value, rest) ← readValue (2 * cs.length + 2) (skipSpace cs)
  if (skipSpace rest).isEmpty then return value else .error .malformed

end Json

end SceneScript
